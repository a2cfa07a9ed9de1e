import DualSql.Json.Value

/-! # Reading JSON

A complete text denotes a value or nothing. Nesting is limited, numbers must
fit a double-precision float, and an escaped surrogate must be one of a pair.

## Implementation notes

The reader takes a bound on the number of its steps. `ofText?` gives one that
the length of the text cannot exceed. -/

namespace DualSql.Json

/-- How deep arrays and objects may nest. -/
def depthLimit : Nat := 127

/-- Drops the blanks between tokens. -/
def skipBlanks (text : List Char) : List Char :=
  text.dropWhile fun c => c == ' ' || c == '\n' || c == '\t' || c == '\r'

/-- The value of a hexadecimal digit. -/
def hexDigit? (c : Char) : Option Nat :=
  if '0' ≤ c && c ≤ '9' then some (c.toNat - '0'.toNat)
  else if 'a' ≤ c && c ≤ 'f' then some (c.toNat - 'a'.toNat + 10)
  else if 'A' ≤ c && c ≤ 'F' then some (c.toNat - 'A'.toNat + 10)
  else none

/-- The code unit that four hexadecimal digits spell. -/
def unit? (a b c d : Char) : Option Nat := do
  let a ← hexDigit? a
  let b ← hexDigit? b
  let c ← hexDigit? c
  let d ← hexDigit? d
  pure (((a * 16 + b) * 16 + c) * 16 + d)

/-- The character that a letter denotes behind a backslash. -/
def simpleEscape? (c : Char) : Option Char :=
  if c = '"' ∨ c = '\\' ∨ c = '/' then some c
  else if c = 'b' then some '\x08'
  else if c = 'f' then some '\x0c'
  else if c = 'n' then some '\n'
  else if c = 'r' then some '\r'
  else if c = 't' then some '\t'
  else none

/-- Whether a code unit is the first of a pair. -/
def isHighSurrogate (u : Nat) : Bool := 0xD800 ≤ u && u < 0xDC00

/-- Whether a code unit is the second of a pair. -/
def isLowSurrogate (u : Nat) : Bool := 0xDC00 ≤ u && u < 0xE000

/-- The characters of a string behind its opening quote, and what follows it. -/
def readString : List Char → Option (List Char × List Char)
  | [] => none
  | '"' :: rest => some ([], rest)
  | '\\' :: 'u' :: a :: b :: c :: d :: '\\' :: 'u' :: e :: f :: g :: h :: rest => do
    let u ← unit? a b c d
    if isHighSurrogate u then
      let v ← unit? e f g h
      if isLowSurrogate v then
        let (text, after) ← readString rest
        pure (Char.ofNat (0x10000 + (u - 0xD800) * 0x400 + (v - 0xDC00)) :: text, after)
      else none
    else if isLowSurrogate u then none
    else
      let (text, after) ← readString ('\\' :: 'u' :: e :: f :: g :: h :: rest)
      pure (Char.ofNat u :: text, after)
  | '\\' :: 'u' :: a :: b :: c :: d :: rest => do
    let u ← unit? a b c d
    if isHighSurrogate u || isLowSurrogate u then none
    else
      let (text, after) ← readString rest
      pure (Char.ofNat u :: text, after)
  | '\\' :: letter :: rest => do
    let c ← simpleEscape? letter
    let (text, after) ← readString rest
    pure (c :: text, after)
  | c :: rest =>
    if c.toNat < 0x20 || c = '\\' then none
    else do
      let (text, after) ← readString rest
      pure (c :: text, after)

/-- The digits at the head of a text, of which there must be one. -/
def readDigits (text : List Char) : Option (List Char × List Char) :=
  let digits := text.takeWhile Char.isDigit
  if digits.isEmpty then none else some (digits, text.drop digits.length)

/-- The parts of a decimal numeral. -/
structure Numeral where
  negative : Bool
  whole : List Char
  fraction : List Char
  exponent : Int

/-- The least number whose nearest double-precision float is infinite. -/
def overflow : Nat :=
  Nat.pow 2 1024 - Nat.pow 2 970

/-- Whether the nearest double-precision float of a numeral is finite. -/
def Numeral.isFinite (n : Numeral) : Bool :=
  let significand := Text.ofDigits (n.whole ++ n.fraction)
  let scale : Int := n.exponent - n.fraction.length
  let digits : Int := (Nat.toDigits 10 significand).length
  if significand = 0 ∨ digits + scale < 300 then true
  else if digits + scale > 310 then false
  else if scale ≥ 0 then significand * Nat.pow 10 scale.toNat < overflow
  else significand < overflow * Nat.pow 10 scale.natAbs

/-- The numeral at the head of a text, and what follows it. A leading zero
stands alone. -/
def readNumeral (text : List Char) : Option (Numeral × List Char) := do
  let (negative, text) := match text with
    | '-' :: rest => (true, rest)
    | _ => (false, text)
  let (whole, text) ← readDigits text
  if whole.head? = some '0' ∧ 1 < whole.length then none
  let (fraction, text) ← match text with
    | '.' :: rest => readDigits rest
    | _ => some ([], text)
  let (exponent, text) ← match text with
    | c :: rest =>
      if c = 'e' ∨ c = 'E' then
        match rest with
        | '-' :: rest => (readDigits rest).map fun (d, r) => (-(Text.ofDigits d : Int), r)
        | '+' :: rest => (readDigits rest).map fun (d, r) => ((Text.ofDigits d : Int), r)
        | _ => (readDigits rest).map fun (d, r) => ((Text.ofDigits d : Int), r)
      else some (0, text)
    | [] => some (0, text)
  pure (⟨negative, whole, fraction, exponent⟩, text)

/-- A number that a double-precision float can hold. -/
def readNumber (text : List Char) : Option (Json × List Char) := do
  let (numeral, after) ← readNumeral text
  if numeral.isFinite then
    pure (.number (String.ofList (text.take (text.length - after.length))), after)
  else none

/-- Drops a word that the text must start with. -/
def expectWord (word : String) (value : Json) (text : List Char) : Option (Json × List Char) :=
  if word.toList.isPrefixOf text then some (value, text.drop word.length) else none

mutual

/-- A value, in at most `fuel` steps and at most `depth` levels. -/
def readValue (fuel depth : Nat) (text : List Char) : Option (Json × List Char) :=
  match fuel with
  | 0 => none
  | fuel + 1 =>
    match skipBlanks text with
    | [] => none
    | '"' :: rest => (readString rest).map fun (s, after) => (.string (String.ofList s), after)
    | 'n' :: rest => expectWord "ull" .null rest
    | 't' :: rest => expectWord "rue" (.bool true) rest
    | 'f' :: rest => expectWord "alse" (.bool false) rest
    | '[' :: rest =>
      match depth with
      | 0 => none
      | depth + 1 =>
        match skipBlanks rest with
        | ']' :: after => some (.array [], after)
        | rest => (readItems fuel depth rest).map fun (items, after) => (.array items, after)
    | '\x7b' :: rest =>
      match depth with
      | 0 => none
      | depth + 1 =>
        match skipBlanks rest with
        | '\x7d' :: after => some (.object [], after)
        | rest => (readMembers fuel depth rest).map fun (ms, after) => (ofMembers ms, after)
    | rest => readNumber rest

/-- The items of an array from the first one on. -/
def readItems (fuel depth : Nat) (text : List Char) : Option (List Json × List Char) :=
  match fuel with
  | 0 => none
  | fuel + 1 => do
    let (item, rest) ← readValue fuel depth text
    match skipBlanks rest with
    | ',' :: rest =>
      let (items, after) ← readItems fuel depth rest
      pure (item :: items, after)
    | ']' :: after => pure ([item], after)
    | _ => none

/-- The members of an object from the first one on. -/
def readMembers (fuel depth : Nat) (text : List Char) :
    Option (List (String × Json) × List Char) :=
  match fuel with
  | 0 => none
  | fuel + 1 =>
    match skipBlanks text with
    | '"' :: rest => do
      let (key, rest) ← readString rest
      match skipBlanks rest with
      | ':' :: rest =>
        let (value, rest) ← readValue fuel depth rest
        match skipBlanks rest with
        | ',' :: rest =>
          let (members, after) ← readMembers fuel depth rest
          pure ((String.ofList key, value) :: members, after)
        | '\x7d' :: after => pure ([(String.ofList key, value)], after)
        | _ => none
      | _ => none
    | _ => none

end

/-- The value that a complete text denotes. -/
def ofText? (text : String) : Option Json := do
  let chars := text.toList
  let (value, rest) ← readValue (2 * chars.length + 2) depthLimit chars
  if (skipBlanks rest).isEmpty then some value else none

end DualSql.Json
