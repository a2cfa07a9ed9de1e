import DualSql.Command.Arguments
import DualSql.Json.Printer
import DualSql.Text.Utf8
import DualSql.Tree

/-! # Running a command

What the program prints, as a function of its arguments and its input.

Main definition: `Command.run`. -/

namespace DualSql

/-- What a file gives to read. -/
inductive FileContent where
  | bytes (data : List UInt8)
  /-- The file cannot be opened, for a reason that the system gives. -/
  | unopenable (reason : String)
  /-- The file can be opened but not read. -/
  | unreadable (reason : String)
  deriving DecidableEq, Repr

namespace Command

/-- The size of the buffer of the standard input. -/
def bufferSize : Nat := 8192

/-- The reads in which an input usually arrives, the standard input through its own
buffer. -/
def usualArrivals (input : Option String) (size : Nat) (bytes : List UInt8) :
    List (List UInt8) :=
  match input with
  | none => Utf8.bufferedReads bufferSize size bytes
  | some _ => Utf8.reads size bytes

end Command

/-- What a call of the program can see. -/
structure Surroundings where
  standardInput : List UInt8
  file : String → FileContent
  /-- The dialect that is taken by default. -/
  dialect : Option String := none
  /-- The reads in which the bytes of a file, or of the standard input, arrive if
  at most so many are asked for at a time. -/
  arrivals : Option String → Nat → List UInt8 → List (List UInt8) := Command.usualArrivals

/-- A failure, with the failure behind it if there is one. -/
structure Report where
  message : String
  cause : Option String := none
  deriving DecidableEq, Repr

namespace Report

/-- The text of a failure. -/
def toText (r : Report) : String :=
  "Error: " ++ r.message ++ r.cause.elim "" fun c => "\n\nCaused by:\n    " ++ c

/-- The report of an error of the library. -/
def ofError (e : Error) : Report :=
  { message := e.message }

/-- The report of bytes that are not a text. -/
def ofFault : Utf8.Fault → Report
  | .invalid length index =>
    { message := "input is not valid UTF-8"
      cause := some s!"invalid utf-8 sequence of {length} bytes from index {index}" }
  | .truncated => { message := "input ends inside a UTF-8 character" }

end Report

/-- Why a call fails. -/
inductive Failure where
  | reported (report : Report)
  /-- No buffer or text can be as large as the one that is asked for. -/
  | capacity
  deriving DecidableEq, Repr

/-- What a call of the program leaves behind. -/
structure Outcome where
  status : Nat
  output : String := ""
  failure : Option Report := none
  deriving DecidableEq, Repr

/-- What a call leaves behind that fails. The program breaks off without a report if
it asks for more memory than there can be. -/
def Outcome.ofFailure : Failure → Outcome
  | .reported report => { status := 1, failure := some report }
  | .capacity => { status := 101 }

namespace Command

/-- The least number of bytes that are read at once. -/
def leastChunk : Nat := 4

/-- The greatest number of bytes in a buffer. -/
def greatestBuffer : Nat := 0x7FFFFFFFFFFFFFFF

/-- Opens the input, which then gives its bytes or cannot be read. -/
def openInput (s : Surroundings) (i : Invocation) : Except Report (Except Report (List UInt8)) :=
  match i.input with
  | none => .ok (.ok s.standardInput)
  | some path =>
    match s.file path with
    | .bytes data => .ok (.ok data)
    | .unopenable reason => .error { message := s!"cannot open {path}", cause := some reason }
    | .unreadable reason => .ok (.error { message := reason })

/-- The number of bytes in the buffer that an input is read into. -/
def bufferFor (i : Invocation) : Except Failure Nat :=
  let size := max i.chunkSize leastChunk
  if size ≤ greatestBuffer then .ok size else .error .capacity

/-- The reads that the bytes of an input arrive in. -/
def inputReads (s : Surroundings) (i : Invocation) : Except Failure (List (List UInt8)) := do
  let content ← (openInput s i).mapError .reported
  let size ← bufferFor i
  let bytes ← content.mapError .reported
  return s.arrivals i.input size bytes

/-- The pieces of text of an input. -/
def inputChunks (s : Surroundings) (i : Invocation) : Except Failure (List String) := do
  let reads ← inputReads s i
  (Utf8.decodeReads [] reads).mapError fun fault => .reported (.ofFault fault)

/-- The failure of a call on an error of the library. -/
def failureOf : Error → Failure
  | .capacity => .capacity
  | e => .reported (.ofError e)

/-- Checks that a type is one of the standard grammar. -/
def knownType (tag : String) : Except Failure Unit :=
  if (Standard.registry.type? tag).isSome then .ok ()
  else .error (.reported { message := s!"unknown node type '{tag}'" })

/-- Parses the input as a node of a type. -/
def parseInput (s : Surroundings) (i : Invocation) (tag : String) : Except Failure Tree := do
  knownType tag
  let chunks ← inputChunks s i
  (Tree.parseEager i.dialect [tag] chunks).mapError failureOf

/-- One token a line, with its place. -/
def tokenLine (t : Token) : String :=
  s!"{t.position.line.toNat}:{t.position.column.toNat}\t{t.describe}\n"

/-- Lists the tokens of the input. Those before an error are listed too. -/
def listTokens (s : Surroundings) (i : Invocation) (whitespace comments : Bool) : Outcome :=
  match inputChunks s i with
  | .error failure => .ofFailure failure
  | .ok chunks =>
    let options := { LexOptions.ofDialect i.dialect with
      structured := false
      emitWhitespace := whitespace
      emitComments := comments }
    let (events, error) := lexEvents i.dialect options chunks
    let output := "".intercalate (events.map fun e => tokenLine e.flat)
    match error with
    | none => { status := 0, output }
    | some e => { status := 1, output, failure := some (.ofError (.lex e)) }

/-- The text of a tree in a dialect. -/
def sqlOf (t : Tree) (d : Dialect) (o : FormatOptions) : Except Failure String :=
  (t.toSqlWith d o).mapError failureOf

/-- The line that an action other than listing tokens prints. -/
def printed (s : Surroundings) (i : Invocation) : Action → Except Failure String
  | .tokenize .. => .ok ""
  | .parse type compact => do
    let json := (← parseInput s i type).toJson
    return if compact then json.compact else json.pretty
  | .format o => do sqlOf (← parseInput s i Standard.script) i.dialect o
  | .convert target o => do
    let tree ← parseInput s i Standard.script
    let converted ← (tree.toDialect target).mapError fun e => .reported
      { message := s!"input has no {target.name} equivalent", cause := some e.message }
    sqlOf converted target o
  | .render type o => do
    let text := String.join (← inputChunks s i)
    knownType type
    let tree ← (Tree.ofJsonText i.dialect [type] text).mapError failureOf
    sqlOf tree i.dialect o

/-- Carries out a call. -/
def perform (s : Surroundings) (i : Invocation) : Outcome :=
  match i.action with
  | .tokenize whitespace comments => listTokens s i whitespace comments
  | action =>
    match printed s i action with
    | .ok line => { status := 0, output := line ++ "\n" }
    | .error failure => .ofFailure failure

/-- Carries out the call that arguments describe. -/
def run (arguments : List String) (s : Surroundings) : Outcome :=
  match Invocation.ofArguments arguments s.dialect with
  | .ok i => perform s i
  | .error .help => { status := 0 }
  | .error .usage => { status := 2 }

end Command

end DualSql
