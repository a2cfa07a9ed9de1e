import DualSql.Text.Casing

/-! # The two dialects

A dialect is chosen by name and fixes the lexical conventions that differ
between the two: quoting characters, escapes, comments and placeholders. -/

namespace DualSql

/-- The supported SQL dialects. -/
inductive Dialect where
  | postgres
  | mysql
  deriving DecidableEq, Repr, Inhabited

namespace Dialect

/-- Every dialect. -/
def all : List Dialect := [postgres, mysql]

/-- The canonical lower-case name. -/
def name : Dialect → String
  | postgres => "postgres"
  | mysql => "mysql"

/-- The name as a label in diagnostics. -/
def label : Dialect → String
  | postgres => "Postgres"
  | mysql => "Mysql"

/-- A name that denotes no dialect, with its ASCII letters in lower case. -/
structure Unknown where
  name : String
  deriving DecidableEq, Repr

/-- The diagnostic for a name that denotes no dialect. -/
def Unknown.message (u : Unknown) : String :=
  s!"unknown dialect '{u.name}' (expected postgres or mysql)"

/-- The dialect that a name denotes, whatever the case of its ASCII letters. -/
def ofName (text : String) : Except Unknown Dialect :=
  let name := Text.toLowerAscii text
  if name ∈ ["postgres", "postgresql", "pg"] then .ok postgres
  else if name = "mysql" then .ok mysql
  else .error ⟨name⟩

/-- The character that encloses a quoted identifier. -/
def identifierQuote : Dialect → Char
  | postgres => '"'
  | mysql => '\x60'

/-- Whether a backslash starts an escape in a plain string literal. -/
def backslashEscapes : Dialect → Bool
  | postgres => false
  | mysql => true

/-- Whether `$tag$ ... $tag$` encloses a string. -/
def dollarQuoting : Dialect → Bool
  | postgres => true
  | mysql => false

/-- Whether block comments nest. -/
def nestedComments : Dialect → Bool
  | postgres => true
  | mysql => false

/-- Whether a written placeholder carries its number. -/
def numberedBinds : Dialect → Bool
  | postgres => true
  | mysql => false

/-- The placeholder for the parameter with the given number, counted from one. -/
def bindVariable (d : Dialect) (index : Nat) : String :=
  match d with
  | postgres => s!"${index}"
  | mysql => "?"

end Dialect

end DualSql
