import DualSql.Grammar.Registry
import DualSql.Vocabulary

/-! # The standard grammar

A compact grammar over literals, names, expressions and `SELECT` statements. -/

namespace DualSql.Standard

open Rule

/-- The types of operands in an expression, in the order in which they are tried. -/
def operands : List String :=
  ["NotExpr", "NegateExpr", "ExistsExpr", "CastExpr", "FunctionCall", "Subquery", "ParenExpr",
    "Tuple", "StringLiteral", "NumberLiteral", "HexLiteral", "BitLiteral", "BooleanLiteral",
    "NullLiteral", "BindVariable", "UserVariable", "AllColumns", "ColumnRef"]

/-- The shape of binary expressions. -/
def binary : Climb :=
  ⟨"BinaryExpr", "left", "operator", "right"⟩

/-- The type of a list of statements. -/
def script : String := "Script"

/-- An expression. -/
def expression : Rule :=
  expr operands binary

/-- An alias, with or without its keyword. -/
def alias_ : Rule :=
  (seq [((kw "AS").named "as_keyword").optional, (tok [.identifier]).named "alias"]).optional

/-- The table in front of a column. -/
def qualifier : Rule :=
  (seq [(tok [.identifier]).named "table", punct "."]).optional

/-- Literals, placeholders and variables. -/
def literals (r : Registry) : Registry :=
  r.declare "StringLiteral" ((tok [.stringLiteral]).named "value")
  |>.declare "NumberLiteral" ((tok [.numberLiteral]).named "value")
  |>.declare "HexLiteral" ((tok [.hexLiteral]).named "value")
  |>.declare "BitLiteral" ((tok [.bitLiteral]).named "value")
  |>.declare "BooleanLiteral" ((alt [kw "TRUE", kw "FALSE"]).named "value")
  |>.declare "NullLiteral" (kw "NULL")
  |>.declare "BindVariable" ((tok [.bindVariable]).named "value")
  |>.declare "UserVariable" (((tok [.variable]).named "name").onlyIn .mysql)

/-- Names of columns, tables and data types. -/
def names (r : Registry) : Registry :=
  r.declare "AllColumns" (seq [qualifier, op "*"])
  |>.declare "ColumnRef" (seq [qualifier, (tok [.identifier, .dataType]).named "name"])
  |>.declare "TableRef" (alt [
    seq [
      (seq [(tok [.identifier]).named "schema", punct "."]).optional,
      (tok [.identifier]).named "name",
      alias_],
    seq [(ofTypes ["Subquery"]).named "subquery", alias_]])
  |>.declare "DataTypeRef" (seq [
    (tok [.dataType, .identifier]).named "name",
    (paren (((ofTypes ["NumberLiteral"]).named "args").many ",")).optional.tight])

/-- Expressions. -/
def expressions (r : Registry) : Registry :=
  r.declare "ParenExpr" (paren (expression.named "expr")).optionalParens
  |>.declare "Tuple" (paren (((expression.named "items").repeated 2 none).separatedBy ","))
  |>.declare "Subquery" (paren ((ofTypes ["SelectStmt"]).named "query"))
  |>.declare "ExistsExpr" (seq [kw "EXISTS", (ofTypes ["Subquery"]).named "query"])
  |>.declare "FunctionCall" (seq [
    (alt [tok [.identifier, .dataType], tokValues .keyword ["LEFT", "RIGHT"]]).named "name",
    (paren (seq [
      ((kw "DISTINCT").named "distinct").optional,
      ((expression.named "args").repeated 0 none).separatedBy ","])).tight])
  |>.declare "CastExpr" (seq [
    kw "CAST",
    (paren (seq [
      expression.named "expr",
      kw "AS",
      (ofTypes ["DataTypeRef"]).named "data_type"])).tight])
  |>.declare "NotExpr" (seq [
    kw "NOT",
    (expression.named "operand").minPrecedence Vocabulary.isLevel])
  |>.declare "NegateExpr" (seq [
    (tokValues .operator ["-", "+", "~", "!"]).named "operator",
    ((expression.named "operand").minPrecedence Vocabulary.unaryLevel).tight])
  |>.climbing operands binary (seq [
    expression.named "left",
    (tok [.operator, .keyword]).named "operator",
    expression.named "right"])

/-- A clause that a keyword introduces. -/
def clause (keyword : String) (body : Rule) : Rule :=
  (seq [kw keyword, body.asserted]).optional.newline

/-- A count of rows. -/
def rowCount (name : String) : Rule :=
  (ofTypes ["NumberLiteral", "BindVariable"]).named name

/-- Statements and lists of statements. -/
def statements (r : Registry) : Registry :=
  r.declare "SelectItem" (seq [expression.named "expr", alias_])
  |>.declare "OrderItem" (seq [
    expression.named "expr",
    ((alt [kw "ASC", kw "DESC"]).named "direction").optional])
  |>.declare "SelectStmt" (seq [
    kw "SELECT",
    ((kw "DISTINCT").named "distinct").optional,
    (((ofTypes ["SelectItem"]).named "columns").many ",").asserted,
    clause "FROM" (((ofTypes ["TableRef"]).named "from").many ","),
    clause "WHERE" (expression.named "where"),
    clause "GROUP BY" ((expression.named "group_by").many ","),
    clause "HAVING" (expression.named "having"),
    clause "ORDER BY" (((ofTypes ["OrderItem"]).named "order_by").many ","),
    clause "LIMIT" (rowCount "limit"),
    (clause "OFFSET" (rowCount "offset")).onlyIn .postgres,
    ((clause "OFFSET" (rowCount "offset")).onlyIn .mysql).onlyIf (.present "limit")])
  |>.declare script (seq [
    (((ofTypes ["SelectStmt"]).named "statements").many ";").newline,
    ((punct ";").named "terminator").optional])

/-- Adds the types of the standard grammar. -/
def extend (r : Registry) : Registry :=
  statements (expressions (names (literals r)))

/-- The standard grammar with every schema compiled. -/
def registry : Registry :=
  (extend {}).validate.2

end DualSql.Standard
