import ColumnMask.Command.Run

/-!
# The program

Reads the file and the input that a command needs, and writes its outcome.
-/

open ColumnMask

/-- The reason of a failure in the words of the system, with its number. -/
def reasonOf : IO.Error → String
  | .inappropriateType _ code details | .permissionDenied _ code details =>
    details.capitalize ++ s!" (os error {code})"
  | e => toString e

/-- What there is at a path. -/
def readFile (path : String) : IO (Option FileContent) := do
  try
    let content ← IO.FS.readBinFile path
    return some (.bytes content.toList)
  catch
    | .noFileOrDirectory .. => return none
    | e => return some (.unreadable (reasonOf e))

/-- All of a stream. -/
partial def readAll (stream : IO.FS.Stream) (acc : ByteArray) : IO ByteArray := do
  let chunk ← stream.read 65536
  if chunk.isEmpty then return acc else readAll stream (acc ++ chunk)

/-- What a command needs of the outer world. -/
def observe (command : Option Command) : IO World := do
  let file ← match command.bind Command.path? with
    | some path => readFile path
    | none => pure none
  let input ← if (command.map Command.readsInput).getD false then
      readAll (← IO.getStdin) .empty
    else pure .empty
  let seed ← IO.getRandomBytes 8
  return { file, input := input.toList, seed := Bytes.readUInt64 seed.toList }

def main (args : List String) : IO UInt32 := do
  let world ← observe (Command.parse? args)
  let outcome := respond world args
  IO.print outcome.output
  IO.eprint outcome.errors
  return outcome.exit.toUInt32
