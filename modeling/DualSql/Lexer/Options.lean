import DualSql.Dialect

/-! # Lexing options -/

namespace DualSql

/-- Choices that a caller can make about lexing. -/
structure LexOptions where
  /-- Deliver whitespace as tokens. -/
  emitWhitespace : Bool
  /-- Deliver comments as tokens. -/
  emitComments : Bool
  /-- Let the double quote enclose identifiers where it would enclose strings. -/
  ansiQuotes : Bool
  /-- Let a backslash start an escape in a plain string literal. -/
  backslashEscapes : Bool
  /-- Deliver bracketed regions as blocks and not as single brackets. -/
  structured : Bool
  deriving DecidableEq, Repr

/-- The usual choices: blocks, no trivia, the escapes of the dialect. -/
def LexOptions.ofDialect (d : Dialect) : LexOptions where
  emitWhitespace := false
  emitComments := false
  ansiQuotes := false
  backslashEscapes := d.backslashEscapes
  structured := true

end DualSql
