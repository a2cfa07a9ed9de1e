import DualSql.Lexer.Feed
import DualSql.Stream.Cursor

/-! # Token streams with nested blocks

A stream is a cursor over cells. A cell is a token, or a block: the token of
its opening bracket together with the stream of its contents.

The contents of a block arrive from the same lexing run as what follows it,
so they have to be claimed before the run can go on. Every event therefore
belongs to the innermost block that is still open.

Main definitions: `Stream.absorb` and `Stream.fail`, which take an event or
an error of the run into a stream, and `Stream.rewound`. -/

namespace DualSql

/-- A token, or a block with its contents. -/
inductive Cell where
  | leaf (token : Token)
  | block (token : Token) (contents : Cursor Cell)

/-- A cursor over the tokens of one nesting level. -/
abbrev Stream := Cursor Cell

namespace Cell

/-- The token that stands for the cell. -/
def token : Cell → Token
  | leaf t => t
  | block t _ => t

/-- The contents of a block. -/
def contents? : Cell → Option Stream
  | leaf _ => none
  | block _ s => some s

/-- Changes the contents of a block. -/
def mapContents (f : Stream → Stream) : Cell → Cell
  | leaf t => leaf t
  | block t s => block t (f s)

/-- Locks or unlocks the contents of a block. -/
def setLocked (locked : Bool) : Cell → Cell :=
  mapContents fun s => { s with locked }

/-- The cell as it was before anyone entered it: the contents of a block are
at the oldest position they can be, and so are those of every block in them
that was consumed. -/
def rewound : Cell → Cell
  | leaf t => leaf t
  | block t s =>
    block t { s with
      behind := []
      ahead := (s.behind.attach.map fun ⟨c, _⟩ => c.rewound).reverse ++ s.ahead
      hasCurrent := false
      locked := true }
termination_by c => sizeOf c
decreasing_by
  rename_i h
  have := List.sizeOf_lt_of_mem h
  cases s
  simp_all
  omega

end Cell

namespace Stream

/-- A stream over cells that are given in advance. -/
def ofCells (cells : List Cell) : Stream :=
  { unseen := cells }

/-- A stream that draws its tokens from a lexing run. -/
def lexing : Stream :=
  { supply := .lexed false false }

/-- Whether the run has nothing more for this level. -/
def isFinished (s : Stream) : Bool :=
  match s.supply with
  | .lexed _ finished => finished
  | .given => false

/-- Adds a cell to the known ones. Blocks are locked until they are consumed. -/
def append (s : Stream) (c : Cell) : Stream :=
  { s with ahead := s.ahead ++ [c.setLocked true] }

/-- Takes in an event at this level. -/
def absorbHere (s : Stream) : Event → Stream
  | .token t => { s.append (.leaf t) with supply := .lexed false false }
  | .opened b position spaceBefore =>
    { s.append (.block (Token.ofBracket b position spaceBefore) lexing) with
      supply := .lexed true false }
  | .closed .. => { s with supply := .lexed false true, done := true }

/-- Meets the end of the run, or an error in it, at this level. -/
def finishHere (s : Stream) (done : Bool) : Stream :=
  { s with supply := .lexed false true, done := s.done || done }

/-- Replaces the last item of a list. -/
def setLast {α : Type} (item : α) : List α → List α
  | [] => []
  | [_] => [item]
  | a :: b :: rest => a :: setLast item (b :: rest)

/-- The latest item that became known. -/
def latest? (s : Stream) : Option Cell :=
  match s.ahead.getLast? with
  | some c => some c
  | none => s.behind.head?

/-- Replaces the latest item that became known. -/
def setLatest (s : Stream) (c : Cell) : Stream :=
  match s.ahead, s.behind with
  | [], _ :: rest => { s with behind := c :: rest }
  | ahead, _ => { s with ahead := setLast c ahead }

/-- The latest block, if its contents may still be arriving. -/
def openBlock? (s : Stream) : Option (Token × Stream) :=
  match s.supply, s.latest? with
  | .lexed true false, some (.block t c) => some (t, c)
  | _, _ => none

theorem sizeOf_openBlock_lt {s c : Stream} {t : Token} (h : s.openBlock? = some (t, c)) :
    sizeOf c < sizeOf s := by
  have hl : s.latest? = some (.block t c) := by
    unfold openBlock? at h
    split at h
    · simp_all
    · cases h
  have hm : Cell.block t c ∈ s.ahead ∨ Cell.block t c ∈ s.behind := by
    unfold latest? at hl
    split at hl
    next x hx => exact .inl (List.mem_of_getLast? (hx.trans hl))
    next => exact .inr (List.mem_of_head? hl)
  cases s
  rcases hm with hm | hm <;>
  · have := List.sizeOf_lt_of_mem hm
    simp at this ⊢
    omega

/-- Takes in an event at the innermost open block. -/
def absorb (e : Event) (s : Stream) : Stream :=
  match _open : s.openBlock? with
  | none => s.absorbHere e
  | some (t, c) =>
    if isFinished c then (s.setLatest (.block t { c with done := true })).absorbHere e
    else s.setLatest (.block t (absorb e c))
termination_by sizeOf s
decreasing_by exact sizeOf_openBlock_lt _open

/-- Meets an error of the run at the innermost open block. That block is
finished; those around it lose sight of their contents. -/
def fail (s : Stream) : Stream :=
  match _open : s.openBlock? with
  | none => s.finishHere false
  | some (t, c) =>
    if isFinished c then (s.setLatest (.block t { c with done := true })).finishHere false
    else { s.setLatest (.block t (fail c)) with supply := .lexed false false }
termination_by sizeOf s
decreasing_by exact sizeOf_openBlock_lt _open

/-- Meets the end of the run, which ends every open block. -/
def conclude (s : Stream) : Stream :=
  match _open : s.openBlock? with
  | none => s.finishHere true
  | some (t, c) => (s.setLatest (.block t (conclude c))).finishHere true
termination_by sizeOf s
decreasing_by exact sizeOf_openBlock_lt _open

/-- Makes items known until more than `count` are ahead or there are no more,
drawing from a run that answers `last` when its queue is empty. -/
def drawTo (count : Nat) (last : Option LexError) :
    List (Except LexError Event) → Stream →
      Except LexError Unit × Stream × List (Except LexError Event)
  | queue, s =>
    if s.done || (s.ahead[count]?).isSome then (.ok (), s, queue)
    else if s.isFinished then (.ok (), { s with done := true }, queue)
    else
      match queue with
      | [] =>
        match last with
        | none => (.ok (), s.conclude, [])
        | some e => (.error e, s.fail, [])
      | .ok e :: rest => drawTo count last rest (s.absorb e)
      | .error e :: rest => (.error e, s.fail, rest)

/-- Makes items known until more than `count` are ahead or there are no more,
out of those given in advance. -/
def showTo (count : Nat) (s : Stream) : Stream :=
  if s.done then s
  else
    let wanted := count + 1 - s.ahead.length
    { s with
      ahead := s.ahead ++ (s.unseen.take wanted).map (·.setLocked true)
      unseen := s.unseen.drop wanted
      done := s.unseen.length < wanted }

end Stream

end DualSql
