import DualSql.Lexer.Lexeme
import DualSql.Lexer.Phrase

/-! # The scanner

The state of one lexing run. Text arrives in pieces; events leave one at a
time. The scanner joins words to phrases, matches brackets and remembers
whether a blank stood before a token.

Main definitions: `Scanner.feed`, `Scanner.close`, `Scanner.next`. -/

namespace DualSql

/-- What a scanner delivers. -/
inductive Event where
  | token (token : Token)
  /-- A bracket that opens a block. -/
  | opened (bracket : Bracket) (position : Position) (spaceBefore : Bool)
  /-- The bracket that closes the innermost block. -/
  | closed (bracket : Bracket) (position : Position)
  deriving DecidableEq, Repr

/-- The answer of a scanner that is asked for an event. -/
inductive Answer where
  | event (event : Event)
  /-- More text is needed to decide the next event. -/
  | needMore
  /-- The text is complete and every event was delivered. -/
  | ended
  | failed (error : LexError)
  deriving DecidableEq, Repr

/-- The state of one lexing run. -/
structure Scanner where
  dialect : Dialect
  options : LexOptions
  /-- Characters that have arrived and belong to no lexeme yet. -/
  unread : List Char := []
  /-- The place of the first unread character. -/
  position : Position := .start
  /-- The character before the first unread one. -/
  before : Option Char := none
  /-- Open brackets and where they were opened, innermost first. -/
  nesting : List (Bracket × Position) := []
  /-- Whether the text is complete. -/
  closed : Bool := false
  /-- Whether the end was reached with every bracket closed. -/
  finished : Bool := false
  /-- Whether a blank or comment was read after the last token. -/
  spacePending : Bool := false
  /-- Words that may become part of a phrase. -/
  words : List Token := []
  /-- Events that are decided but not delivered. -/
  ready : List Event := []
  deriving Repr

namespace Scanner

/-- Appends a piece of text. -/
def feed (s : Scanner) (text : String) : Scanner :=
  { s with unread := s.unread ++ text.toList }

/-- Declares the text complete. -/
def close (s : Scanner) : Scanner :=
  { s with closed := true }

/-- The number of open brackets. -/
def depth (s : Scanner) : Nat :=
  s.nesting.length

/-- What is known before the next lexeme is read. -/
def context (s : Scanner) : LexContext where
  dialect := s.dialect
  options := s.options
  start := s.position
  before := s.before

/-- Adds a token to the waiting words and delivers those that are decided. -/
def wait (s : Scanner) (t : Token) : Scanner :=
  let (out, waiting) := Phrase.settle s.dialect false (s.words ++ [t])
  { s with words := waiting, ready := s.ready ++ out.map .token }

/-- Delivers the waiting words. -/
def flush (s : Scanner) : Scanner :=
  let (out, waiting) := Phrase.settle s.dialect true s.words
  { s with words := waiting, ready := s.ready ++ out.map .token }

/-- Delivers an event after the waiting words. -/
def deliver (s : Scanner) (e : Event) : Scanner :=
  let s := s.flush
  { s with ready := s.ready ++ [e] }

/-- Takes in a token that is neither whitespace nor a comment. -/
def stageContent (s : Scanner) (t : Token) : Scanner :=
  let t := { t with spaceBefore := s.spacePending }
  let s := { s with spacePending := false }
  if Phrase.isWord t then s.wait t else s.deliver (.token t)

/-- Takes in a token. Comments end a phrase; whitespace does not. -/
def stage (s : Scanner) (t : Token) : Scanner :=
  match t.kind with
  | .whitespace =>
    let s := { s with spacePending := true }
    if s.options.emitWhitespace then s.wait t else s
  | .comment =>
    let s := { s with spacePending := true }
    if s.options.emitComments then s.deliver (.token t) else s.flush
  | _ => s.stageContent t

/-- Moves behind a lexeme. -/
def skip (s : Scanner) (first : Char) (rest : List Char) (width : Nat) : Scanner :=
  let consumed := first :: rest.take width
  { s with
    unread := rest.drop width
    position := s.position.advanceAll consumed
    before := consumed.getLast? }

/-- Takes in an opening bracket. -/
def openBlock (s : Scanner) (b : Bracket) (place : Position) : Scanner :=
  let s := { s with nesting := (b, place) :: s.nesting }
  if s.options.structured then
    { s.deliver (.opened b place s.spacePending) with spacePending := false }
  else s.stageContent { kind := .punctuation, value := b.opener.toString, position := place }

/-- Takes in a closing bracket. -/
def closeBlock (s : Scanner) (b : Bracket) (place : Position) : Scanner :=
  let s := { s with nesting := s.nesting.tail }
  if s.options.structured then
    { s.deliver (.closed b place) with spacePending := false }
  else s.stageContent { kind := .punctuation, value := b.closer.toString, position := place }

/-- Takes in a lexeme that starts at the given place. Only a closing bracket
without its partner is refused. -/
def accept (s : Scanner) (start : Position) : Lexeme → Except LexError Scanner
  | .token t => .ok (s.stage t)
  | .opening b => .ok (s.openBlock b start)
  | .closing b =>
    if s.nesting.head?.any (·.1 = b) then .ok (s.closeBlock b start)
    else .error (.unbalancedClose b.closer start)

/-- The first event that is ready. -/
def pop (s : Scanner) : Answer × Scanner :=
  match s.ready with
  | e :: rest => (.event e, { s with ready := rest })
  | [] => (.ended, s)

/-- The answer at the end of a complete text. The waiting words are delivered
even if a bracket is open. -/
def finish (s : Scanner) : Answer × Scanner :=
  let s := s.flush
  match s.nesting with
  | (b, opened) :: _ => (.failed (.unclosed b.opener opened), s)
  | [] => { s with finished := true }.pop

/-- The next event, or why there is none yet. -/
def next (s : Scanner) : Answer × Scanner :=
  if s.ready.isEmpty && !s.finished then
    match _unread : s.unread with
    | [] => if s.closed then s.finish else (.needMore, s)
    | c :: rest =>
      match lexeme s.context c s.closed rest with
      | .more => (.needMore, s)
      | .fail e => (.failed e, s)
      | .done lx width =>
        match s.accept s.position lx with
        | .error e => (.failed e, s)
        | .ok s' => next (s'.skip c rest width)
  else s.pop
termination_by s.unread.length
decreasing_by
  rw [_unread]
  change (rest.drop width).length < (c :: rest).length
  rw [List.length_drop, List.length_cons]
  omega

end Scanner

end DualSql
