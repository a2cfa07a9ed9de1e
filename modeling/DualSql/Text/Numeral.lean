/-! # Numerals

Numbers that are written in decimal digits and fit into 64 bits. -/

namespace DualSql.Text

/-- The number that decimal digits spell. -/
def ofDigits (digits : List Char) : Nat :=
  digits.foldl (fun n c => n * 10 + (c.toNat - '0'.toNat)) 0

/-- The digits of a numeral, after a plus sign if there is one. -/
def unsigned : List Char → List Char
  | '+' :: digits => digits
  | digits => digits

/-- The number that a text spells, if it consists of digits, with or without a
plus sign, and is less than `2 ^ 64`. -/
def word64? (text : String) : Option Nat :=
  let digits := unsigned text.toList
  if digits.isEmpty || !digits.all Char.isDigit then none
  else if ofDigits digits < UInt64.size then some (ofDigits digits)
  else none

end DualSql.Text
