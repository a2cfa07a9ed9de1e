import DualSql.Command.Run

/-! # The command line

Reads the arguments, the environment and the input, and prints what
`Command.run` says. -/

namespace DualSql.Command

/-- The bytes of a stream up to its end. -/
partial def readToEnd (stream : IO.FS.Stream) (data : ByteArray) : IO ByteArray := do
  let more ← stream.read 65536
  if more.isEmpty then return data else readToEnd stream (data ++ more)

/-- The reason that an input or output error gives. -/
def reasonOf : IO.Error → String
  | .noFileOrDirectory _ code _ => s!"No such file or directory (os error {code})"
  | .inappropriateType _ code _ => s!"Is a directory (os error {code})"
  | e => toString e

/-- What a file gives to read. -/
def readFile (path : String) : IO FileContent := do
  match ← (IO.FS.Handle.mk path .read).toBaseIO with
  | .error e => return .unopenable (reasonOf e)
  | .ok handle =>
    match ← (readToEnd (.ofHandle handle) .empty).toBaseIO with
    | .error e => return .unreadable (reasonOf e)
    | .ok data => return .bytes data.toList

/-- What a call can see; of the input only as much is read as it needs. -/
def surroundings (arguments : List String) : IO Surroundings := do
  let dialect ← IO.getEnv "DUALSQL_DIALECT"
  match Invocation.ofArguments arguments dialect with
  | .error _ => return { standardInput := [], file := fun _ => .bytes [], dialect }
  | .ok i =>
    match i.input with
    | some path =>
      let content ← readFile path
      return { standardInput := [], file := fun _ => content, dialect }
    | none =>
      let data ← readToEnd (← IO.getStdin) .empty
      return { standardInput := data.toList, file := fun _ => .bytes [], dialect }

end DualSql.Command

/-- Runs the program. -/
def main (arguments : List String) : IO UInt32 := do
  let outcome := DualSql.Command.run arguments (← DualSql.Command.surroundings arguments)
  IO.print outcome.output
  if let some report := outcome.failure then IO.eprintln report.toText
  return outcome.status.toUInt32
