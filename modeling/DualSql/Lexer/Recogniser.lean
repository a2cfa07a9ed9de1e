import DualSql.Lexer.Error

/-! # Recognisers over a text that is still arriving

A recogniser looks at the unread characters. Where its answer depends on a
character that has not arrived it asks for more, and nothing is read; the
same recogniser is asked again, from the same place, when more has come.

## Implementation notes

An answer gives the number of characters it covers and not the characters
after it. What follows the covered part can then grow without changing the
answer. -/

namespace DualSql

/-- What a recogniser knows of the unread characters. -/
inductive Scan (α : Type) where
  /-- The answer depends on characters that have not arrived. -/
  | more
  | fail (error : LexError)
  /-- An answer that covers the first `width` unread characters. -/
  | done (value : α) (width : Nat)

namespace Scan

/-- Applies a function to the answer. -/
def map {α β : Type} (f : α → β) : Scan α → Scan β
  | more => more
  | fail e => fail e
  | done a n => done (f a) n

/-- Lets an answer cover `k` characters that stand before those it saw. -/
def widen {α : Type} (k : Nat) : Scan α → Scan α
  | more => more
  | fail e => fail e
  | done a n => done a (k + n)

end Scan

/-- A reader of the unread characters, told whether the text is complete. -/
def Recogniser (α : Type) : Type :=
  (closed : Bool) → List Char → Scan α

namespace Recogniser

variable {α β : Type}

/-- The second recogniser looks at what the answer of the first does not cover. -/
def andThen (p : Recogniser α) (f : α → Recogniser β) : Recogniser β := fun closed text =>
  match p closed text with
  | .more => .more
  | .fail e => .fail e
  | .done a n => (f a closed (text.drop n)).widen n

instance : Monad Recogniser where
  pure a := fun _ _ => .done a 0
  bind := andThen

/-- What to answer at the end of the characters that have arrived. -/
def atEnd (closed : Bool) (answer : Scan α) : Scan α :=
  if closed then answer else .more

/-- Always fails. -/
def fail (e : LexError) : Recogniser α := fun _ _ => .fail e

/-- The character `n` places ahead, or none where the text ends before it. -/
def look (n : Nat) : Recogniser (Option Char) := fun closed text =>
  match text[n]? with
  | some c => .done (some c) 0
  | none => atEnd closed (.done none 0)

/-- Reads up to `n` characters, fewer only at the end of the text. -/
def take (n : Nat) : Recogniser (List Char) := fun closed text =>
  if n ≤ text.length then .done (text.take n) n
  else atEnd closed (.done text text.length)

/-- Reads the longest run of characters with a property. -/
def takeWhile (p : Char → Bool) : Recogniser (List Char) := fun closed text =>
  let run := text.takeWhile p
  if run.length < text.length then .done run run.length
  else atEnd closed (.done run run.length)

/-- The answer of a recogniser, without reading what it covers. -/
def ahead (p : Recogniser α) : Recogniser α := fun closed text =>
  match p closed text with
  | .more => .more
  | .fail e => .fail e
  | .done a _ => .done a 0

/-- The characters that an answer covers. -/
def covered (p : Recogniser α) : Recogniser (List Char) := fun closed text =>
  match p closed text with
  | .more => .more
  | .fail e => .fail e
  | .done _ n => .done (text.take n) n

end Recogniser

end DualSql
