import DualSql.Dialect.Quoting
import DualSql.Forest.Terminal
import DualSql.Layout
import DualSql.Error
import DualSql.Text.Numeral
import DualSql.Text.Numeric
import DualSql.Vocabulary

/-! # The spelling of terminals

How a terminal is written in a dialect. Names are quoted where they could be
taken for something else, literals are quoted by the rules of the dialect, and
placeholders are numbered where the dialect numbers them. -/

namespace DualSql

/-- A word in the case of keywords. -/
def KeywordCase.apply (c : KeywordCase) (word : String) : String :=
  match c with
  | upper => Text.toUpper word
  | lower => Text.toLower word

/-- The spelling of a token that carries no quotes. -/
def fixedSpelling (c : KeywordCase) (kind : TokenKind) (value : String) : String :=
  match kind with
  | .keyword | .dataType => c.apply value
  | .operator => if value.toList.any Text.isAlphabetic then c.apply value else value
  | _ => value

/-- Whether a name has to be quoted to be read as a name again. -/
def needsQuotes (d : Dialect) (name : String) : Bool :=
  match name.toList with
  | [] => true
  | first :: rest =>
    !(Text.isAlphabetic first || first == '_') ||
    !rest.all (fun c => Text.isAlphanumeric c || c == '_' || c == '$') ||
    Vocabulary.isKeyword d (Text.toUpper name) || Vocabulary.isDataType d (Text.toUpper name)

/-- One character of a string literal with escapes, as it stands in the source. -/
def sourceChar (c : Char) : List Char :=
  if c = '\\' then ['\\', '\\'] else if c = '\'' then ['\\', '\''] else [c]

/-- The spelling of a string literal. The modifier is kept where the dialect
and the quoting of the value allow it. -/
def stringSpelling (d : Dialect) (value : String) (modifier : Option String) : String :=
  let body := d.quoteString value
  let plain := body.toList.head? = some '\''
  match modifier with
  | none => body
  | some m =>
    if m = "N" ∧ plain then "N" ++ body
    else if d = .mysql ∧ m.toList.head? = some '_' then m ++ body
    else if d = .postgres ∧ m = "E" ∧ plain then
      "E'" ++ String.ofList (value.toList.flatMap sourceChar) ++ "'"
    else body

/-- The spelling of a placeholder at a position. A dialect without numbers can
only write the one that belongs there. -/
def bindSpelling (d : Dialect) (position : Nat) (value : String) : Except RenderError String :=
  let index := (Text.word64? value).getD position
  if !d.numberedBinds && index ≠ position then .error (.bindOrder index position d)
  else .ok (d.bindVariable index)

/-- The spelling of a terminal in a dialect. Only that of a placeholder depends
on its position among the placeholders. -/
def Terminal.spelling (c : KeywordCase) (d : Dialect) (position : Nat) (t : Terminal) :
    Except RenderError String :=
  match t.kind with
  | .identifier =>
    .ok (if t.quoted || needsQuotes d t.value then d.quoteIdentifier t.value else t.value)
  | .stringLiteral => .ok (stringSpelling d t.value t.modifier)
  | .hexLiteral => .ok (d.hexLiteral t.value t.modifier)
  | .bitLiteral => .ok (d.bitLiteral t.value t.modifier)
  | .bindVariable => bindSpelling d position t.value
  | .variable => .ok (t.modifier.getD "@" ++ t.value)
  | kind => .ok (fixedSpelling c kind t.value)

end DualSql
