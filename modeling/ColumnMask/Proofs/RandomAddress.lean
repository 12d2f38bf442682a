import Mathlib
import ColumnMask.Proofs.Bytes
import ColumnMask.Proofs.Call
import ColumnMask.Proofs.Subnet

/-!
# What random addresses reach

A random address is counted up from the network address by a number that is folded into the usable
distances.

- `Subnet.usable_iff`: the usable addresses by their distance from the network address.
- `RandomAddress.exists_number`: every distance is the number of some block.
- `RandomAddress.call_results_eq_usable`: over all generators a call gives exactly the usable
  addresses of its subnet; a subnet without any is refused.
-/

namespace ColumnMask

namespace Subnet

variable {s : Subnet} {a : IpAddress}

/-- The addresses of a subnet are those at a distance that its host bits can tell. -/
theorem exists_host_of_contains (h : s.contains a = true) :
    ∃ n < 2 ^ s.hostBits, a = s.host n := by
  obtain ⟨family, value, hvalue⟩ := a
  simp only [contains, masked, Bool.and_eq_true, decide_eq_true_eq, beq_iff_eq] at h
  obtain ⟨rfl, hnetwork⟩ := h
  have hrest : value % 2 ^ s.hostBits < 2 ^ s.hostBits := Nat.mod_lt _ (Nat.two_pow_pos _)
  have hle : value % 2 ^ s.hostBits ≤ value := Nat.mod_le _ _
  have hsum : s.network.value + value % 2 ^ s.hostBits = value := by
    rw [← hnetwork]
    exact Nat.sub_add_cancel hle
  refine ⟨value % 2 ^ s.hostBits, hrest, ?_⟩
  simp only [host, IpAddress.ofNat, hsum, IpAddress.mk.injEq, true_and]
  exact (Nat.mod_eq_of_lt hvalue).symm

/-- **The usable addresses** are those whose distance lies between zero and the last one. -/
theorem usable_iff : s.Usable a ↔ ∃ n, 0 < n ∧ n < 2 ^ s.hostBits - 1 ∧ a = s.host n := by
  constructor
  · rintro ⟨hcontained, hfirst, hlast⟩
    obtain ⟨n, hn, rfl⟩ := exists_host_of_contains hcontained
    rw [host_value hn] at hfirst hlast
    exact ⟨n, by omega, by omega, rfl⟩
  · rintro ⟨n, hpos, hlt, rfl⟩
    exact usable_host hpos hlt

end Subnet

namespace RandomAddress

variable {s : Subnet}

/-- Every number of the family is read from some block of sixteen bytes. Addresses of version 4
leave the bytes after the first four alone. -/
theorem exists_number (family : IpFamily) {n : Nat} (h : n < 2 ^ family.bits) :
    ∃ block : Bytes, block.length = 16 ∧ number family block = n := by
  have hwidth : family.bits / 8 ≤ 16 ∧ 256 ^ (family.bits / 8) = 2 ^ family.bits := by
    cases family with
    | v4 => decide
    | v6 => decide
  obtain ⟨data, hlength, hdata⟩ := Bytes.exists_toNatBE (hwidth.2 ▸ h)
  refine ⟨data ++ List.replicate (16 - data.length) 0, ?_, ?_⟩
  · rw [List.length_append, List.length_replicate]
    omega
  · rw [number, ← hlength, List.take_left', hdata]
    rfl

/-- Blocks choose exactly the usable addresses. -/
theorem addressIn_image (h : 1 < s.hostBits) :
    addressIn s (2 ^ s.hostBits - 2) '' {block | block.length = 16} = {a | s.Usable a} := by
  have hfour := Subnet.four_le_pow h
  ext a
  constructor
  · -- the remainder leaves out the network and the last address
    rintro ⟨block, -, rfl⟩
    have hrest := Nat.mod_lt (number s.network.family block)
      (by omega : 0 < 2 ^ s.hostBits - 2)
    exact Subnet.usable_host (Nat.succ_pos _) (by omega)
  · intro ha
    -- the distance less one is small enough not to be folded
    obtain ⟨n, hpos, hlt, rfl⟩ := Subnet.usable_iff.mp ha
    have hfamily := s.network_add_le
    obtain ⟨block, hlength, hblock⟩ :=
      exists_number s.network.family (by omega : n - 1 < 2 ^ s.network.family.bits)
    refine ⟨block, hlength, ?_⟩
    rw [addressIn, hblock, Nat.mod_eq_of_lt (by omega), Nat.sub_add_cancel hpos]

/-! ## Calls -/

/-- A call serves its own subnet, or the one of the rule. -/
theorem outcome_of_usable (r : RandomAddress) (override : Option Subnet) (input block : Bytes)
    (h : 1 < (override.getD r.subnet).hostBits) :
    (Request.randomAddress input override : Request (.randomAddress r)).outcome block =
      .ok (.ip (addressIn (override.getD r.subnet)
        (2 ^ (override.getD r.subnet).hostBits - 2) block)) := by
  simp only [Request.outcome, Request.plan, plan, Subnet.usableHosts_eq h]
  rfl

theorem results_eq_of_usable (r : RandomAddress) (override : Option Subnet) (input : Bytes)
    (h : 1 < (override.getD r.subnet).hostBits) :
    (Request.randomAddress input override : Request (.randomAddress r)).results =
      (fun a => .ok (.ip a)) '' {a | (override.getD r.subnet).Usable a} := by
  rw [Request.results_eq, ← addressIn_image h, Set.image_image]
  exact Set.image_congr fun block _ => r.outcome_of_usable override input block h

/-- A subnet without a usable address fails the call for every block. -/
theorem results_eq_of_small (r : RandomAddress) {s : Subnet} (h : s.hostBits ≤ 1) (input : Bytes) :
    (Request.randomAddress input (some s) : Request (.randomAddress r)).results =
      {.error (.failure (.decode (.runtimeSubnet (.subnetTooSmall s.text))))} := by
  have houtcome (block : Bytes) :
      (Request.randomAddress input (some s) : Request (.randomAddress r)).outcome block =
        .error (.failure (.decode (.runtimeSubnet (.subnetTooSmall s.text)))) := by
    simp only [Request.outcome, Request.plan, plan, Option.getD_some, Subnet.usableHosts, if_pos h]
    rfl
  rw [Request.results_eq]
  refine Set.eq_singleton_iff_unique_mem.mpr ⟨⟨List.replicate 16 0, rfl, houtcome _⟩, ?_⟩
  rintro _ ⟨block, -, rfl⟩
  exact houtcome block

/-- **Random addresses reach exactly the usable ones.** A subnet with at least two host bits makes a
rule, and over all answers of sixteen bytes a call gives every address of the subnet but the first
and the last one, and nothing else; so does a call of any other rule that brings the subnet along. A
subnet with fewer host bits makes no rule, and a call that brings it along always fails. -/
theorem call_results_eq_usable (s : Subnet) (input : Bytes) :
    (1 < s.hostBits →
      (∃ r, make? s = .ok r ∧ r.subnet = s ∧
        (Request.randomAddress input none : Request (.randomAddress r)).results =
          (fun a => .ok (.ip a)) '' {a | s.Usable a}) ∧
      ∀ r : RandomAddress,
        (Request.randomAddress input (some s) : Request (.randomAddress r)).results =
          (fun a => .ok (.ip a)) '' {a | s.Usable a}) ∧
    (s.hostBits ≤ 1 →
      make? s = .error (.subnetTooSmall s.text) ∧
      ∀ r : RandomAddress,
        (Request.randomAddress input (some s) : Request (.randomAddress r)).results =
          {.error (.failure (.decode (.runtimeSubnet (.subnetTooSmall s.text))))}) := by
  constructor
  · intro h
    refine ⟨⟨⟨s, h⟩, dif_pos h, rfl, ?_⟩, fun r => r.results_eq_of_usable (some s) input h⟩
    exact results_eq_of_usable ⟨s, h⟩ none input h
  · intro h
    exact ⟨dif_neg (Nat.not_lt.mpr h), fun r => r.results_eq_of_small h input⟩

end RandomAddress

end ColumnMask
