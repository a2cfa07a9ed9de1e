import DualSql.Json.Value
import DualSql.Token

/-! # Terminals

The leaves of a syntax tree: what is kept of a token. -/

namespace DualSql

/-- What a syntax tree keeps of a token. -/
structure Terminal where
  kind : TokenKind
  value : String
  /-- Whether the token was an identifier in quotes. -/
  quoted : Bool := false
  modifier : Option String := none
  /-- Where the token stood; line zero if it comes from no text. -/
  position : Position := ⟨0, 0⟩
  deriving DecidableEq, Repr

namespace Terminal

/-- What is kept of a token. -/
def ofToken (t : Token) : Terminal where
  kind := t.kind
  value := t.value
  quoted := t.isQuoted
  modifier := t.modifier
  position := t.position

/-- The place in the source text, if the terminal comes from one. -/
def position? (t : Terminal) : Option Position :=
  if t.position.line = 0 then none else some t.position

/-- Whether two terminals read the same: kind and place do not count. -/
def sameAs (a b : Terminal) : Bool :=
  a.value == b.value && a.quoted == b.quoted && a.modifier == b.modifier

/-- The complete record of a terminal. -/
def toRecord (t : Terminal) : Json :=
  .object <|
    [("kind", .string t.kind.name), ("value", .string t.value)] ++
    (if t.quoted then [("quoted", .bool true)] else []) ++
    (t.modifier.map fun m => ("modifier", Json.string m)).toList ++
    [("line", .ofNat t.position.line.toNat), ("column", .ofNat t.position.column.toNat)]

/-- The kind that a record names. -/
def recordKind? : Json → Option TokenKind
  | .string name => TokenKind.ofName? name
  | .object [(name, .null)] => TokenKind.ofName? name
  | _ => none

/-- A 32-bit count. -/
def recordCount? (j : Json) : Option UInt32 :=
  j.nat?.bind fun n => if n < UInt32.size then some (UInt32.ofNat n) else none

/-- The modifier that a record holds, which may be null. -/
def recordModifier? : Json → Option (Option String)
  | .null => some none
  | .string s => some (some s)
  | _ => none

/-- The terminal of a complete record. Kind and value are required, the other
entries have defaults; a list gives them in order. -/
def ofRecord? (j : Json) : Option Terminal := do
  let entry ← match j with
    | .object members => some fun (key : String) (_ : Nat) => members.lookup key
    | .array items => if items.length ≤ 6 then some fun _ i => items[i]? else none
    | _ => none
  let kind ← entry "kind" 0 >>= recordKind?
  let value ← entry "value" 1 >>= Json.string?
  let quoted ← (entry "quoted" 2).elim (some false) Json.bool?
  let modifier ← (entry "modifier" 3).elim (some none) recordModifier?
  let line ← (entry "line" 4).elim (some 0) recordCount?
  let column ← (entry "column" 5).elim (some 0) recordCount?
  pure { kind, value, quoted, modifier, position := ⟨line, column⟩ }

end Terminal

end DualSql
