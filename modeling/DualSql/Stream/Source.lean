import DualSql.Stream.Cell

/-! # Reading from a stream

A source is a stream together with the lexing run that it may draw from.
Reading is a computation over a source that can fail; what was read before a
failure stays read.

Main definitions: `Source.peek`, `Source.next`, `Source.savepoint`,
`Source.restore`, `Source.commit`. -/

namespace DualSql

/-- A stream and the lexing run behind it. -/
structure Source where
  stream : Stream
  feed : Feed := .empty

/-- A computation that reads from a source. -/
abbrev Reading := ExceptT Error (StateM Source)

namespace Source

/-- The tokens of a text that arrives in pieces. -/
def ofChunks (d : Dialect) (options : LexOptions) (chunks : List String) : Source where
  stream := .lexing
  feed := .ofChunks d options chunks

/-- Makes items known until more than `count` are ahead or there are no more. -/
def fillTo (count : Nat) : Reading Unit := do
  let s ← get
  match s.stream.supply with
  | .given => set { s with stream := s.stream.showTo count }
  | .lexed .. =>
    let (result, stream, queue) := s.stream.drawTo count s.feed.last s.feed.queue
    set { s with stream, feed := { s.feed with queue } }
    match result with
    | .ok () => pure ()
    | .error e => throw (.lex e)

/-- Fails on a stream that may only be looked at. -/
def checkUnlocked : Reading Unit := do
  if (← get).stream.locked then throw (.stream .locked)

/-- Fails on a position that cannot be returned to. -/
def checkIndex (index : Nat) : Reading Unit := do
  let c := (← get).stream
  if !c.canReturnTo index then
    throw (.stream (.invalidSavepoint index c.leastPosition c.position))

/-- The item `n` places ahead, which is not consumed. -/
def peekCell (n : Nat) : Reading (Option Cell) := do
  fillTo n
  return (← get).stream.ahead[n]?

/-- The token `n` places ahead, which is not consumed. -/
def peek (n : Nat) : Reading (Option Token) := do
  return (← peekCell n).map Cell.token

/-- Consumes the next item. The contents of a block can be read from then on. -/
def nextCell : Reading (Option Cell) := do
  checkUnlocked
  fillTo 0
  let s ← get
  let unlocked := match s.stream.ahead with
    | c :: rest => { s.stream with ahead := c.setLocked false :: rest }
    | [] => s.stream
  let (item, stream) := unlocked.step
  set { s with stream }
  return item

/-- Consumes the next token. -/
def next : Reading (Option Token) := do
  return (← nextCell).map Cell.token

/-- The latest consumed token, unless the end was met after it. -/
def current : Reading (Option Token) := do
  return (← get).stream.current.map Cell.token

/-- Whether the token `n` places ahead has the kind and, where one is given, the value. -/
def lookingAt (n : Nat) (kind : TokenKind) (value : Option String) : Reading Bool := do
  return (← peek n).any (·.is kind value)

/-- Consumes the next token if it has the kind and, where one is given, the value. -/
def eat (kind : TokenKind) (value : Option String) : Reading (Option Token) := do
  if ← lookingAt 0 kind value then next else return none

/-- The mismatch of a token, or of the end of the tokens, with what was expected. -/
def mismatch (expected : String) : Option Token → Mismatch
  | some found => .unexpected expected found
  | none => .endOfInput expected

/-- Consumes the next token, which must have the kind and, where one is given, the value. -/
def expect (kind : TokenKind) (value : Option String) : Reading Token := do
  match ← eat kind value with
  | some token => return token
  | none =>
    let expected := match value with
      | some v => s!"{kind.name} '{v}'"
      | none => kind.name
    throw (.parse { mismatch := mismatch expected (← peek 0) })

/-- The present position, to return to later. The first one that is taken
becomes the anchor of the next commit. -/
def savepoint : Reading Nat := do
  checkUnlocked
  modify fun s =>
    { s with stream := { s.stream with
      anchor := s.stream.anchor.or (some s.stream.position) } }
  return (← get).stream.position

/-- Returns to a position. Blocks that are given back are locked again, with
their contents at the start. -/
def restore (index : Nat) : Reading Unit := do
  checkUnlocked
  checkIndex index
  modify fun s => { s with stream := s.stream.backUp Cell.rewound index }

/-- Gives up the positions before `index`, if that is the anchor. -/
def commit (index : Nat) : Reading Unit := do
  checkUnlocked
  checkIndex index
  modify fun s =>
    if s.stream.anchor = some index then { s with stream := s.stream.release index } else s

/-- Whether no tokens remain. -/
def isExhausted : Reading Bool := do
  return (← peek 0).isNone

/-- A bound on the number of items that can still be consumed at this level. -/
def remaining (s : Source) : Nat :=
  s.stream.ahead.length + s.stream.unseen.length + s.feed.queue.length

/-- Consumes up to `fuel` tokens. -/
def collectUpTo : Nat → Reading (List Token)
  | 0 => return []
  | fuel + 1 => do
    match ← next with
    | none => return []
    | some token => return token :: (← collectUpTo fuel)

/-- Consumes every remaining token. -/
def collect : Reading (List Token) := do
  collectUpTo ((← get).remaining + 1)

/-- Consumes whitespace and comments, up to `fuel` of them. -/
def skipTriviaUpTo : Nat → Reading Unit
  | 0 => return ()
  | fuel + 1 => do
    if (← peek 0).any (·.kind.isTrivia) then
      let _ ← next
      skipTriviaUpTo fuel

/-- Consumes whitespace and comments. -/
def skipTrivia : Reading Unit := do
  if (← peek 0).any (·.kind.isTrivia) then
    skipTriviaUpTo ((← get).remaining + 1)

/-- The first of up to `fuel` tokens from place `n` on that is neither
whitespace nor a comment. -/
def peekPastTrivia : Nat → Nat → Reading (Option Token)
  | 0, _ => return none
  | fuel + 1, n => do
    match ← peek n with
    | some t => if t.kind.isTrivia then peekPastTrivia fuel (n + 1) else return some t
    | none => return none

/-- The next token that is neither whitespace nor a comment. -/
def peekSignificant : Reading (Option Token) := do
  match ← peek 0 with
  | some t => if t.kind.isTrivia then peekPastTrivia ((← get).remaining + 1) 0 else return some t
  | none => return none

/-- The stream in words, for diagnostics. -/
def inspect (s : Source) : String :=
  let c := s.stream
  "TokenStream \x7b " ++ s!"position: {c.position}, buffered: {c.ahead.length}, " ++
    s!"locked: {c.locked}, done: {c.done}, .. " ++ "\x7d"

/-- The contents of the block that was consumed last. -/
def currentContents? (s : Source) : Option Stream :=
  s.stream.current.bind Cell.contents?

/-- Replaces the contents of the block that was consumed last. -/
def setCurrentContents (contents : Stream) (s : Source) : Source :=
  match s.stream.behind with
  | c :: rest =>
    { s with stream := { s.stream with
      behind := c.mapContents (fun _ => contents) :: rest } }
  | [] => s

end Source

end DualSql
