import DualSql.Dialect
import DualSql.Text.Blank

/-! # Written forms of literals and quoted names

The renderings are defined character by character, so that reading them back
can be followed along the value. -/

namespace DualSql.Dialect

/-- The four upper-case hexadecimal digits of a code below `0x10000`. -/
def fourHexDigits (code : Nat) : List Char :=
  let digits := (Nat.toDigits 16 code).map Char.toUpper
  List.replicate (4 - digits.length) '0' ++ digits

/-- One character inside a plain Postgres literal. -/
def plainChar (c : Char) : List Char :=
  if c = '\'' then ['\'', '\''] else [c]

/-- One character inside a Postgres literal with escapes. -/
def escapedChar (c : Char) : List Char :=
  if c = '\'' then ['\\', '\'']
  else if c = '\\' then ['\\', '\\']
  else if c = '\n' then ['\\', 'n']
  else if c = '\r' then ['\\', 'r']
  else if c = '\t' then ['\\', 't']
  else if c = '\x08' then ['\\', 'b']
  else if c = '\x0c' then ['\\', 'f']
  else if Text.isControl c then '\\' :: 'u' :: fourHexDigits c.toNat
  else [c]

/-- One character inside a MySQL literal. -/
def backslashedChar (c : Char) : List Char :=
  if c = '\'' then ['\'', '\'']
  else if c = '\\' then ['\\', '\\']
  else if c = '\x00' then ['\\', '0']
  else if c = '\n' then ['\\', 'n']
  else if c = '\r' then ['\\', 'r']
  else if c = '\t' then ['\\', 't']
  else if c = '\x08' then ['\\', 'b']
  else if c = '\x1a' then ['\\', 'Z']
  else [c]

/-- The characters of a string literal. Postgres needs the form with escapes
only for values that hold a control character. -/
def quotedChars (d : Dialect) (value : List Char) : List Char :=
  match d with
  | postgres =>
    if value.any Text.isControl then
      'E' :: '\'' :: value.flatMap escapedChar ++ ['\'']
    else '\'' :: value.flatMap plainChar ++ ['\'']
  | mysql => '\'' :: value.flatMap backslashedChar ++ ['\'']

/-- A string literal with the given value. -/
def quoteString (d : Dialect) (value : String) : String :=
  String.ofList (d.quotedChars value.toList)

/-- One character inside a quoted identifier: the quote itself is doubled. -/
def identifierChar (d : Dialect) (c : Char) : List Char :=
  if c = d.identifierQuote then [c, c] else [c]

/-- A quoted identifier with the given name. -/
def quoteIdentifier (d : Dialect) (name : String) : String :=
  String.ofList (d.identifierQuote :: name.toList.flatMap d.identifierChar ++ [d.identifierQuote])

/-- A hexadecimal literal. MySQL keeps the notation `0x` where it was written. -/
def hexLiteral (d : Dialect) (digits : String) (modifier : Option String) : String :=
  if d = mysql ∧ modifier = some "0x" then s!"0x{digits}" else s!"X'{digits}'"

/-- A bit-string literal. MySQL keeps the notation `0b` where it was written. -/
def bitLiteral (d : Dialect) (digits : String) (modifier : Option String) : String :=
  if d = mysql ∧ modifier = some "0b" then s!"0b{digits}" else s!"B'{digits}'"

end DualSql.Dialect
