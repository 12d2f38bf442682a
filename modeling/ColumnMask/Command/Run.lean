import ColumnMask.Command
import ColumnMask.Config
import ColumnMask.Config.Build
import ColumnMask.Text
import ColumnMask.Transformer

/-!
# Carrying out commands

A command is carried out on what the outer world holds: the file at the path of the configuration,
standard input and a seed. The result is a status with what goes to standard output and standard
error.

- `Config.load?`: reads a configuration from the content of a file.
- `Verdict`: what is found about a configuration.
- `Command.run`: carries out a command.
- `respond`: reads arguments and carries out what they ask for.
-/

namespace ColumnMask

/-- What there is at a path. -/
inductive FileContent where
  /-- Something that cannot be read. -/
  | unreadable (reason : String)
  | bytes (content : Bytes)

/-- What the outer world holds. -/
structure World where
  /-- What there is at the path of the configuration, if there is anything. -/
  file : Option FileContent
  /-- Standard input. -/
  input : Bytes
  /-- What the random engine draws on. -/
  seed : UInt64

/-- What is left of a run. -/
structure Outcome where
  exit : Nat
  output : String
  errors : String
  deriving DecidableEq, Repr

/-! ## Texts and files -/

/-- The text that bytes encode in UTF-8. -/
def Bytes.text? (b : Bytes) : Option String :=
  String.fromUTF8? ⟨b.toArray⟩

/-- What is said about bytes that encode no text. -/
def notText : String := "stream did not contain valid UTF-8"

/-- Why no configuration was read. -/
inductive LoadError where
  /-- The file cannot be read. -/
  | unreadable (reason : String)
  /-- The text is no configuration. -/
  | invalid
  deriving DecidableEq, Repr

namespace LoadError

/-- The wording of the error for a path. -/
def message (path : String) : LoadError → String
  | unreadable reason => s!"Failed to read config file: {path}: {reason}"
  | invalid => s!"Invalid config file: {path}: not a transformer configuration"

end LoadError

namespace Config

/-- Reads a configuration from the content of a file. -/
def load? : FileContent → Except LoadError Config
  | .bytes content =>
    match content.text? with
    | none => .error (.unreadable notText)
    | some text =>
      match parse? text with
      | some c => .ok c
      | none => .error .invalid
  | .unreadable reason => .error (.unreadable reason)

end Config

/-! ## Outcomes -/

namespace Outcome

/-- A line. -/
def line (text : String) : String := text ++ "\n"

/-- Success. -/
def success (output : String) : Outcome := ⟨0, output, ""⟩

/-- Failure after some output. -/
def failure (output message : String) : Outcome := ⟨1, output, line message⟩

/-- A panic after some output. What standard error says then are not the words of the program. -/
def aborted (output : String) : Outcome := ⟨101, output, ""⟩

/-- Arguments that make no sense. -/
def misuse (message : String) : Outcome := ⟨2, "", line message⟩

/-- The failure for a path that leads nowhere. -/
def missingFile (path : String) : Outcome :=
  failure "" s!"config file does not exist: {path}"

end Outcome

/-- A JSON array with an element on each line. -/
def jsonArray (items : List String) : String :=
  if items.isEmpty then "[]"
  else "[\n" ++ ",\n".intercalate (items.map ("  " ++ ·)) ++ "\n]"

/-- A JSON object with a field on each line. -/
def jsonObject (fields : List (String × String)) : String :=
  let field : String × String → String
    | (key, value) => "  " ++ Text.quoted key ++ ": " ++ value
  "\x7b\n" ++ ",\n".intercalate (fields.map field) ++ "\n\x7d"

/-! ## Masking -/

namespace Rows

/-- What is written about rows. In JSON nothing is written unless all rows were masked. -/
def outcome (rows : Rows) (json : Bool) : Outcome :=
  let lines := String.join (rows.values.map fun v => Outcome.line v.write)
  match rows.failure with
  | none =>
    .success (if json then Outcome.line (jsonArray (rows.values.map Value.json)) else lines)
  | some (.failure e) =>
    let number := rows.values.length + 1
    .failure (if json then "" else lines) (s!"value {number}: " ++ e.message)
  | some .panic => .aborted (if json then "" else lines)

end Rows

/-- The texts to mask: those given, or the lines of standard input. -/
def inputRows? (rows : List String) (input : Bytes) : Option (List String) :=
  if rows.isEmpty then
    input.text?.map fun text => (Text.lines text.toList).map String.ofList
  else some rows

/-- Masks rows with a configuration. -/
def maskWith (c : Config) (seed : UInt64) (rows : List String) (input : Bytes) (json : Bool) :
    Outcome :=
  match c.build? 0 seed with
  | .error e => .failure "" e.message
  | .ok t =>
    match inputRows? rows input with
    | none => .failure "" notText
    | some rows => ((t.maskRows rows).run .empty).run.1.outcome json

/-! ## Checking -/

/-- What is found about a configuration. -/
inductive Verdict where
  | valid (kind : RuleKind) (engine : Engine) (required : Nat)
  | invalid (message : String)
  deriving DecidableEq, Repr

namespace Verdict

/-- The verdict on the content of a file. -/
def ofFile (path : String) (file : FileContent) : Verdict :=
  match Config.load? file with
  | .error e => invalid (e.message path)
  | .ok c =>
    match c.check, c.rule.rule? with
    | .ok _, .ok rule => valid rule.kind c.engine rule.required
    | .error e, _ => invalid e.message
    | _, .error e => invalid e.message

/-- The verdict in JSON. -/
def json : Verdict → String
  | valid kind engine required => jsonObject
    [("valid", "true"), ("transformer", Text.quoted kind.name), ("engine", Text.quoted engine.name),
      ("required_byte_length", toString required), ("error", "null")]
  | invalid message => jsonObject
    [("valid", "false"), ("transformer", "null"), ("engine", "null"),
      ("required_byte_length", "null"), ("error", Text.quoted message)]

/-- The verdict in words; nothing where it is a failure. -/
def words : Verdict → String
  | valid kind engine required =>
    Outcome.line ("Config OK: " ++ kind.name ++ " (engine: " ++ engine.name ++ ", " ++
      toString required ++ " bytes per value)")
  | invalid _ => ""

/-- What is written about a verdict. -/
def outcome (v : Verdict) (path : String) (asJson : Bool) : Outcome :=
  let output := if asJson then Outcome.line v.json else v.words
  match v with
  | valid .. => .success output
  | invalid message => .failure output (s!"invalid config {path}: " ++ message)

end Verdict

/-! ## Commands -/

namespace Shell

/-- What makes a shell complete the names of subcommands. -/
def script (shell : Shell) : String :=
  let words := " ".intercalate Command.names
  match shell with
  | bash => s!"complete -W \"{words}\" datamask"
  | elvish => "set edit:completion:arg-completer[datamask] = \x7b|@words| put " ++ words ++ " \x7d"
  | fish => s!"complete -c datamask -f -a \"{words}\""
  | powershell => "Register-ArgumentCompleter -Native -CommandName datamask -ScriptBlock \x7b '" ++
    words ++ "' -split ' ' \x7d"
  | zsh => s!"compctl -k \"({words})\" datamask"

end Shell

namespace Command

/-- The name and the version of the program. -/
def versionText : String := "datamask 0.4.0"

/-- How the program is used. -/
def usage : String := "\n".intercalate
  ["Generate random or noised replacement values for sensitive columns",
    "",
    "Usage: datamask [-v] transform -c <CONFIG> [--json] [VALUES]...",
    "       datamask [-v] validate -c <CONFIG> [--json]",
    "       datamask completions <SHELL>"]

/-- Carries out a command. -/
def run (w : World) : Command → Outcome
  | transform path rows json =>
    match w.file with
    | none => .missingFile path
    | some file =>
      match Config.load? file with
      | .error e => .failure "" (e.message path)
      | .ok c => maskWith c w.seed rows w.input json
  | validate path json =>
    match w.file with
    | none => .missingFile path
    | some file => (Verdict.ofFile path file).outcome path json
  | completions shell => .success (Outcome.line shell.script)
  | version => .success (Outcome.line versionText)
  | help => .success (Outcome.line usage)

end Command

/-- Carries out what arguments ask for. -/
def respond (w : World) (args : List String) : Outcome :=
  match Command.parse? args with
  | some command => command.run w
  | none => .misuse Command.usage

end ColumnMask
