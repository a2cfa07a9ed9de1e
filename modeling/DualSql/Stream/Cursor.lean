import DualSql.Error

/-! # Backtracking cursors

A cursor stands between the items that were consumed and those that are known
but not consumed. Consumed items are retained, so that the cursor can return
to a position it has passed, until a commit lets the oldest of them go.
Positions count consumed items from the start, those let go included.

Main definitions: `Cursor.step`, `Cursor.backUp`, `Cursor.release`. -/

namespace DualSql

/-- How items that are not known yet come into being. -/
inductive Supply where
  /-- All items were given in advance. -/
  | given
  /-- Items are drawn from a lexing run. `blockOpen` says that the contents of
  the latest block may still be arriving, `finished` that nothing more comes. -/
  | lexed (blockOpen finished : Bool)
  deriving DecidableEq, Repr

/-- A position among items, some of which may not be known yet. -/
structure Cursor (α : Type) where
  /-- Consumed items that are retained, the latest first. -/
  behind : List α := []
  /-- Items that are known but not consumed. -/
  ahead : List α := []
  /-- Items given in advance that nobody has looked at. -/
  unseen : List α := []
  supply : Supply := .given
  /-- Whether the latest consumed item counts as current. -/
  hasCurrent : Bool := false
  /-- How many of the oldest consumed items were let go. -/
  discarded : Nat := 0
  /-- The position that the next commit lets items go before. -/
  anchor : Option Nat := none
  /-- Whether an item was ever consumed. -/
  started : Bool := false
  /-- Whether no further items will become known. -/
  done : Bool := false
  /-- Whether the cursor may only be looked at. -/
  locked : Bool := false
  deriving Repr

namespace Cursor

variable {α : Type}

/-- The number of items consumed so far. -/
def position (c : Cursor α) : Nat :=
  c.discarded + c.behind.length

/-- The latest consumed item, unless the end was met after it. -/
def current (c : Cursor α) : Option α :=
  if c.hasCurrent then c.behind.head? else none

/-- The oldest position that the cursor can return to. -/
def leastPosition (c : Cursor α) : Nat :=
  if c.discarded = 0 then 0 else c.discarded + 1

/-- Consumes the next known item. At the end the current item is dropped from view. -/
def step (c : Cursor α) : Option α × Cursor α :=
  match c.ahead with
  | item :: rest =>
    (some item,
      { c with behind := item :: c.behind, ahead := rest, hasCurrent := true, started := true })
  | [] => (none, { c with hasCurrent := false, started := c.started || c.hasCurrent })

/-- Gives back consumed items until `index` are left before the cursor,
applying `undo` to each. -/
def backUp (undo : α → α) (index : Nat) (c : Cursor α) : Cursor α :=
  let count := c.position - index
  let behind := c.behind.drop count
  { c with
    behind
    ahead := ((c.behind.take count).map undo).reverse ++ c.ahead
    hasCurrent := !behind.isEmpty }

/-- Lets go of the items before the one that was current at `index`. -/
def release (index : Nat) (c : Cursor α) : Cursor α :=
  let count := index - c.discarded - 1
  { c with
    behind := c.behind.take (c.behind.length - count)
    discarded := c.discarded + count
    anchor := none }

/-- Whether a position can be returned to. -/
def canReturnTo (c : Cursor α) (index : Nat) : Bool :=
  c.leastPosition ≤ index && index ≤ c.position

end Cursor

end DualSql
