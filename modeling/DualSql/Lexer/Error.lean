import DualSql.Position

/-! # Lexical errors

Every way in which a text fails to be a sequence of lexemes, and the message
for each. -/

namespace DualSql

/-- What a malformed or unfinished lexeme was going to be. -/
inductive Construct where
  | blockComment
  | stringLiteral
  | quotedIdentifier
  | hexLiteral
  | bitLiteral
  | dollarString
  | variableName
  | number
  deriving DecidableEq, Repr

/-- The construct in words. -/
def Construct.describe : Construct → String
  | blockComment => "block comment"
  | stringLiteral => "string literal"
  | quotedIdentifier => "quoted identifier"
  | hexLiteral => "hex literal"
  | bitLiteral => "bit literal"
  | dollarString => "dollar-quoted string"
  | variableName => "variable name"
  | number => "number"

/-- What is wrong with a malformed literal. -/
inductive Defect where
  /-- An escape that needs a fixed number of digits has fewer. -/
  | shortEscape (letter : Char) (needed : Nat)
  /-- The digits of an escape denote no character. -/
  | escapeValue (letter : Char) (digits : List Char)
  | emptyName
  | badDigit (digit : Char)
  | noDigits
  | secondPoint
  | noExponent
  deriving DecidableEq, Repr

/-- The defect in words. -/
def Defect.describe : Defect → String
  | shortEscape letter needed => s!"\\{letter} escape needs {needed} hex digits"
  | escapeValue letter digits => s!"invalid escape value \\{letter}{String.ofList digits}"
  | emptyName => "zero-length delimited identifier"
  | badDigit digit => s!"invalid digit '{digit}'"
  | noDigits => "missing digits"
  | secondPoint => "multiple decimal points"
  | noExponent => "exponent has no digits"

/-- A lexical error and the place it is reported at. -/
inductive LexError where
  /-- A character that starts no lexeme. -/
  | unexpectedCharacter (character : Char) (position : Position)
  /-- A lexeme that is still open where the text ends. -/
  | unterminated (what : Construct) (position : Position)
  /-- A lexeme that is closed but malformed. -/
  | invalidLiteral (what : Construct) (defect : Defect) (position : Position)
  /-- A closing bracket that does not match the innermost open one. -/
  | unbalancedClose (symbol : Char) (position : Position)
  /-- A bracket that is still open where the text ends. -/
  | unclosed (symbol : Char) (position : Position)
  deriving DecidableEq, Repr

/-- The message for a lexical error. -/
def LexError.message : LexError → String
  | unexpectedCharacter c p => s!"unexpected character '{c}' at {p.describe}"
  | unterminated what p => s!"unterminated {what.describe} starting at {p.describe}"
  | invalidLiteral what defect p =>
    s!"invalid {what.describe} at {p.describe}: {defect.describe}"
  | unbalancedClose symbol p => s!"unexpected '{symbol}' at {p.describe}"
  | unclosed symbol p => s!"unclosed '{symbol}' opened at {p.describe}"

end DualSql
