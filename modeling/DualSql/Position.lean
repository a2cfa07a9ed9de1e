/-! # Places in a source text

A place is a line and a column, both counted from one in characters. Counts
are 32-bit words. -/

namespace DualSql

/-- A line and a column, both counted from one. -/
structure Position where
  line : UInt32
  column : UInt32
  deriving DecidableEq, Repr

namespace Position

/-- The place of the first character. -/
def start : Position := ⟨1, 1⟩

instance : Inhabited Position := ⟨start⟩

/-- The place after a character: a line feed starts the next line. -/
def advance (p : Position) (c : Char) : Position :=
  if c = '\n' then ⟨p.line + 1, 1⟩ else ⟨p.line, p.column + 1⟩

/-- The place after a run of characters. -/
def advanceAll (p : Position) (text : List Char) : Position :=
  text.foldl advance p

/-- Whether a place comes before another in reading order. -/
def before (p q : Position) : Bool :=
  p.line < q.line || (p.line == q.line && p.column < q.column)

/-- The place in words. -/
def describe (p : Position) : String :=
  s!"line {p.line.toNat}, column {p.column.toNat}"

end Position

end DualSql
