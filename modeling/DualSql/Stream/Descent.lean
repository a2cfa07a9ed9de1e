import DualSql.Stream.Source

/-! # Walking into blocks and back

A descent remembers the streams around the one that is being read, so that a
reader can enter a block and leave it again. -/

namespace DualSql

/-- Where in a stream a block was entered. -/
inductive Slot where
  /-- The block that was consumed last. -/
  | current
  /-- The block a number of places ahead. -/
  | ahead (offset : Nat)
  deriving DecidableEq, Repr

/-- A stream that is being read, inside the blocks that were entered. -/
structure Descent where
  here : Source
  /-- The streams around it with the block that was entered, innermost first. -/
  around : List (Stream × Slot) := []

namespace Descent

/-- The number of blocks that were entered. -/
def depth (d : Descent) : Nat :=
  d.around.length

/-- Enters the contents of a block that stands in a slot. -/
def enter (d : Descent) (slot : Slot) (contents : Stream) : Descent where
  here := { d.here with stream := contents }
  around := (d.here.stream, slot) :: d.around

/-- Puts the contents of a block back into its slot. -/
def fillSlot (outer : Stream) (contents : Stream) : Slot → Stream
  | .current =>
    match outer.behind with
    | c :: rest => { outer with behind := c.mapContents (fun _ => contents) :: rest }
    | [] => outer
  | .ahead offset =>
    { outer with ahead := outer.ahead.modify offset (Cell.mapContents fun _ => contents) }

/-- Enters the block that was consumed last, if it is one. -/
def enterCurrent (d : Descent) : Option Descent :=
  d.here.currentContents?.map (d.enter .current)

/-- Enters the block a number of places ahead, if it is one. -/
def enterAhead (d : Descent) (offset : Nat) : Except Error (Option Descent) × Descent :=
  match (Source.peekCell offset).run.run d.here with
  | (.error e, here) => (.error e, { d with here })
  | (.ok cell, here) =>
    let d := { d with here }
    (.ok ((cell.bind Cell.contents?).map (d.enter (.ahead offset))), d)

/-- Leaves the innermost block. The outermost stream is not left. -/
def leave (d : Descent) : Descent :=
  match d.around with
  | [] => d
  | (outer, slot) :: rest =>
    { here := { d.here with stream := fillSlot outer d.here.stream slot }, around := rest }

end Descent

end DualSql
