/-!
# Commands and their arguments

What the program can be asked to do, and how it is asked.
-/

namespace ColumnMask

/-!
## Commands

What the program can be asked to do.

- `Command.transform` masks texts, `Command.validate` checks a configuration without masking
  anything.
- `Command.path?`: the path of the configuration that a command needs.
- `Command.readsInput`: whether a command takes its texts from standard input.
-/

/-- A shell that can complete the words of a command line. -/
inductive Shell where
  | bash
  | elvish
  | fish
  | powershell
  | zsh
  deriving DecidableEq, Repr

namespace Shell

/-- The name of the shell. -/
def name : Shell → String
  | bash => "bash"
  | elvish => "elvish"
  | fish => "fish"
  | powershell => "powershell"
  | zsh => "zsh"

/-- All shells. -/
def all : List Shell := [bash, elvish, fish, powershell, zsh]

/-- The shell with a name. -/
def ofName? (s : String) : Option Shell := all.find? fun shell => shell.name == s

end Shell

/-- What the program can be asked to do. -/
inductive Command where
  /-- Mask texts; without any, the lines of standard input. -/
  | transform (path : String) (rows : List String) (json : Bool)
  /-- Check a configuration. -/
  | validate (path : String) (json : Bool)
  /-- Write what a shell needs to complete command lines. -/
  | completions (shell : Shell)
  | version
  | help
  deriving DecidableEq, Repr

namespace Command

/-- The path of the configuration. -/
def path? : Command → Option String
  | transform path _ _ => some path
  | validate path _ => some path
  | _ => none

/-- Whether the texts come from standard input. -/
def readsInput : Command → Bool
  | transform _ rows _ => rows.isEmpty
  | _ => false

end Command

/-!
## Command lines

`Command.parse?` reads the arguments of the program. An option is a word after two dashes or a
letter after one; letters may share a dash. The path is given with `-c` or `--config`, as the next
argument or attached to the option, in which case an equals sign may stand between them. After an
argument of two dashes everything is a text. No option may be given twice, though `--verbose` may be
given once before the subcommand and once after it. Arguments are judged one after another, so what
makes no sense is noticed unless an option before it decides alone what to do.

- `Argument`: what one argument is by its form.
- `Signature`: what a subcommand takes.
- `Given`: what a subcommand was given so far; `Given.scan` reads all that follows its name.
-/

/-- What an argument is by its form. -/
inductive Argument where
  /-- Two dashes. -/
  | escape
  /-- Two dashes and a name, maybe with a value after an equals sign. -/
  | long (name : String) (value : Option String)
  /-- A dash and at least one letter. -/
  | short (letters : List Char)
  /-- Anything else; a dash alone too. -/
  | plain (text : String)
  deriving DecidableEq, Repr

namespace Argument

/-- A long option with what follows the first equals sign. -/
def ofName (cs : List Char) : Argument :=
  let name := String.ofList (cs.takeWhile (· != '='))
  match cs.dropWhile (· != '=') with
  | [] => long name none
  | _ :: value => long name (some (String.ofList value))

/-- The form of an argument. -/
def ofString (s : String) : Argument :=
  match s.toList with
  | ['-', '-'] => escape
  | '-' :: '-' :: cs => ofName cs
  | '-' :: c :: cs => short (c :: cs)
  | _ => plain s

end Argument

/-- Why reading arguments ends before the last one. -/
inductive EarlyEnd where
  /-- The arguments make no sense. -/
  | misuse
  /-- An option that decides alone what to do. -/
  | decided (command : Command)

/-- What a subcommand takes. Every subcommand takes the options that ask for more to be told and for
help. -/
structure Signature where
  /-- Whether there is a configuration, and so the options that give its path and ask for JSON. -/
  configured : Bool
  /-- Whether it takes a text, which is the first one or comes after others. -/
  takes : (first : Bool) → (text : String) → Bool

/-- What a subcommand was given so far. -/
structure Given where
  path : Option String
  json : Bool
  verbose : Bool
  /-- Arguments that are no options, the last one first. -/
  reversed : List String
  /-- Whether the next argument has to be the path. -/
  pathNext : Bool

namespace Given

/-- Nothing was given. -/
def nothing : Given := ⟨none, false, false, [], false⟩

/-- Arguments that are no options, in order. -/
def values (g : Given) : List String := g.reversed.reverse

/-- Notes the path, which may be given once and may not be empty. -/
def setPath (g : Given) (path : String) : Except EarlyEnd Given :=
  if g.path.isSome || path.isEmpty then .error .misuse
  else .ok { g with path := some path, pathNext := false }

/-- Notes that the path comes next. -/
def expectPath (g : Given) : Except EarlyEnd Given :=
  if g.path.isSome then .error .misuse else .ok { g with pathNext := true }

/-- Notes that the output has to be JSON. -/
def setJson (g : Given) : Except EarlyEnd Given :=
  if g.json then .error .misuse else .ok { g with json := true }

/-- Notes that more has to be told. -/
def setVerbose (g : Given) : Except EarlyEnd Given :=
  if g.verbose then .error .misuse else .ok { g with verbose := true }

/-- Notes an argument that is no option. -/
def addValue (s : Signature) (g : Given) (text : String) : Except EarlyEnd Given :=
  if s.takes g.reversed.isEmpty text then .ok { g with reversed := text :: g.reversed }
  else .error .misuse

/-- Letters behind one dash. What follows the letter of the path is the path. -/
def letters (s : Signature) (g : Given) : List Char → Except EarlyEnd Given
  | [] => .ok g
  | 'v' :: cs => do letters s (← g.setVerbose) cs
  | 'h' :: _ => .error (.decided .help)
  | 'c' :: cs =>
    if !s.configured then .error .misuse
    else match cs with
      | [] => g.expectPath
      | '=' :: path => g.setPath (String.ofList path)
      | path => g.setPath (String.ofList path)
  | _ => .error .misuse

/-- An option by its name. -/
def option (s : Signature) (g : Given) (name : String) (value : Option String) :
    Except EarlyEnd Given :=
  match name, value, s.configured with
  | "config", some path, true => g.setPath path
  | "config", none, true => g.expectPath
  | "json", none, true => g.setJson
  | "verbose", none, _ => g.setVerbose
  | "help", none, _ => .error (.decided .help)
  | _, _, _ => .error .misuse

/-- Reads all arguments of a subcommand. -/
def scan (s : Signature) (g : Given) : List String → Except EarlyEnd Given
  | [] => if g.pathNext then .error .misuse else .ok g
  | arg :: rest =>
    match Argument.ofString arg, g.pathNext with
    | .plain text, true => do scan s (← g.setPath text) rest
    | _, true => .error .misuse
    | .plain text, false => do scan s (← addValue s g text) rest
    | .escape, false => rest.foldlM (addValue s) g
    | .long name value, false => do scan s (← option s g name value) rest
    | .short cs, false => do scan s (← letters s g cs) rest

end Given

namespace Command

/-- The names of the subcommands. -/
def names : List String := ["transform", "validate", "completions", "help"]

/-- Masking; needs a path. -/
def transformOf (args : List String) : Except EarlyEnd Command := do
  let g ← Given.nothing.scan ⟨true, fun _ _ => true⟩ args
  match g.path with
  | some path => return .transform path g.values g.json
  | none => throw .misuse

/-- Checking; needs a path and takes no texts. -/
def validateOf (args : List String) : Except EarlyEnd Command := do
  let g ← Given.nothing.scan ⟨true, fun _ _ => false⟩ args
  match g.path with
  | some path => return .validate path g.json
  | none => throw .misuse

/-- Completing; needs the name of a shell. -/
def completionsOf (args : List String) : Except EarlyEnd Command := do
  let g ← Given.nothing.scan
    ⟨false, fun first name => first && (Shell.ofName? name).isSome⟩ args
  match g.values.head?.bind Shell.ofName? with
  | some shell => return .completions shell
  | none => throw .misuse

/-- Help, in general or on one subcommand. -/
def helpOf : List String → Except EarlyEnd Command
  | [] => .ok .help
  | [name] => if names.contains name then .ok .help else .error .misuse
  | _ => .error .misuse

/-- The subcommand with this name. -/
def subcommand (name : String) (args : List String) : Except EarlyEnd Command :=
  match name with
  | "transform" => transformOf args
  | "validate" => validateOf args
  | "completions" => completionsOf args
  | "help" => helpOf args
  | _ => .error .misuse

/-- Letters behind one dash before the subcommand; tells whether more has to be told. -/
def leadingLetters (verbose : Bool) : List Char → Except EarlyEnd Bool
  | [] => .ok verbose
  | 'v' :: cs => if verbose then .error .misuse else leadingLetters true cs
  | 'V' :: _ => .error (.decided .version)
  | 'h' :: _ => .error (.decided .help)
  | _ => .error .misuse

/-- Reads the options before the subcommand, and then the subcommand. -/
def leading (verbose : Bool) : List String → Except EarlyEnd Command
  | [] => .error .misuse
  | arg :: rest =>
    match Argument.ofString arg with
    | .plain name => subcommand name rest
    | .long "verbose" none => if verbose then .error .misuse else leading true rest
    | .long "version" none => .ok .version
    | .long "help" none => .ok .help
    | .short letters => do leading (← leadingLetters verbose letters) rest
    | _ => .error .misuse

/-- What the arguments ask for, if they make sense. -/
def parse? (args : List String) : Option Command :=
  match leading false args with
  | .ok command => some command
  | .error (.decided command) => some command
  | .error .misuse => none

end Command

end ColumnMask
