import DualSql.Dialect
import DualSql.Token

/-! # The vocabulary of each dialect

Keywords, names of data types, operators and multi-word phrases. Words are
looked up in upper case. -/

namespace DualSql.Vocabulary

/-- The reserved words. -/
def keywords (d : Dialect) : List String :=
  ["ALL", "AND", "ANY", "AS", "ASC", "BETWEEN", "BY", "CASE", "CAST", "CHECK", "COLLATE",
    "CONSTRAINT", "CREATE", "CROSS", "DEFAULT", "DELETE", "DESC", "DISTINCT", "DROP", "ELSE",
    "END", "EXCEPT", "EXISTS", "FALSE", "FOR", "FOREIGN", "FROM", "FULL", "GROUP", "HAVING",
    "IN", "INNER", "INSERT", "INTERSECT", "INTO", "IS", "JOIN", "LEFT", "LIKE", "LIMIT",
    "NATURAL", "NOT", "NULL", "OFFSET", "ON", "OR", "ORDER", "OUTER", "PRIMARY", "REFERENCES",
    "RIGHT", "SELECT", "SET", "SOME", "TABLE", "THEN", "TRUE", "UNION", "UNIQUE", "UPDATE",
    "USING", "VALUES", "WHEN", "WHERE", "WITH"] ++
  match d with
  | .postgres =>
    ["ARRAY", "ILIKE", "LATERAL", "RETURNING", "SIMILAR", "WINDOW"]
  | .mysql =>
    ["DIV", "MOD", "XOR", "REGEXP", "RLIKE", "IGNORE", "REPLACE", "STRAIGHT_JOIN"]

/-- The names of data types. -/
def dataTypes (d : Dialect) : List String :=
  ["BIGINT", "BOOLEAN", "BOOL", "CHAR", "CHARACTER", "DATE", "DECIMAL", "DOUBLE", "FLOAT",
    "INT", "INTEGER", "JSON", "NUMERIC", "REAL", "SMALLINT", "TEXT", "TIME", "TIMESTAMP",
    "VARCHAR"] ++
  match d with
  | .postgres =>
    ["BIGSERIAL", "BYTEA", "INTERVAL", "JSONB", "SERIAL", "UUID", "TIMESTAMPTZ"]
  | .mysql =>
    ["BINARY", "BLOB", "DATETIME", "ENUM", "LONGTEXT", "MEDIUMINT", "MEDIUMTEXT", "TINYINT",
      "VARBINARY"]

/-- The words that a statement starts with. -/
def statementWords : List String :=
  ["ALTER", "BEGIN", "COMMIT", "CREATE", "DELETE", "DROP", "EXPLAIN", "INSERT", "ROLLBACK",
    "SELECT", "SET", "SHOW", "TRUNCATE", "UPDATE", "WITH"]

/-- The symbols that are operators. -/
def symbols : Dialect → List String
  | .postgres =>
    ["+", "-", "*", "/", "%", "^", "=", "<>", "!=", "<", ">", "<=", ">=", "||", "->", "->>",
      "#>", "#>>", "@>", "<@", "&&", "~", "~*", "!~", "!~*", "|", "&", "#", "<<", ">>", "::",
      "@"]
  | .mysql =>
    ["+", "-", "*", "/", "%", "^", "=", "<>", "!=", "<", ">", "<=", ">=", "<=>", "||", "&&",
      "|", "&", "<<", ">>", "~", "!", "->", "->>", ":="]

/-- The characters that symbols are made of. -/
def operatorChars : Dialect → List Char
  | .postgres => "+-*/<>=~!@#%^&|:".toList
  | .mysql => "+-*/<>=~!%^&|:".toList

/-- Phrases of several words that form one token, with the kind of that token. -/
def compounds : Dialect → List (String × TokenKind)
  | .postgres =>
    [("GROUP BY", .keyword), ("ORDER BY", .keyword), ("PARTITION BY", .keyword),
      ("UNION ALL", .keyword), ("INNER JOIN", .keyword), ("LEFT JOIN", .keyword),
      ("LEFT OUTER JOIN", .keyword), ("RIGHT JOIN", .keyword), ("RIGHT OUTER JOIN", .keyword),
      ("FULL JOIN", .keyword), ("FULL OUTER JOIN", .keyword), ("CROSS JOIN", .keyword),
      ("NATURAL JOIN", .keyword), ("PRIMARY KEY", .keyword), ("FOREIGN KEY", .keyword),
      ("ON CONFLICT", .keyword), ("NOT BETWEEN", .keyword), ("IS NOT", .operator),
      ("IS DISTINCT FROM", .operator), ("IS NOT DISTINCT FROM", .operator),
      ("NOT LIKE", .operator), ("NOT ILIKE", .operator), ("NOT IN", .operator),
      ("SIMILAR TO", .operator), ("NOT SIMILAR TO", .operator), ("DOUBLE PRECISION", .dataType),
      ("CHARACTER VARYING", .dataType), ("TIMESTAMP WITH TIME ZONE", .dataType),
      ("TIMESTAMP WITHOUT TIME ZONE", .dataType), ("TIME WITH TIME ZONE", .dataType)]
  | .mysql =>
    [("GROUP BY", .keyword), ("ORDER BY", .keyword), ("PARTITION BY", .keyword),
      ("UNION ALL", .keyword), ("INNER JOIN", .keyword), ("LEFT JOIN", .keyword),
      ("LEFT OUTER JOIN", .keyword), ("RIGHT JOIN", .keyword), ("RIGHT OUTER JOIN", .keyword),
      ("CROSS JOIN", .keyword), ("NATURAL JOIN", .keyword), ("PRIMARY KEY", .keyword),
      ("FOREIGN KEY", .keyword), ("ON DUPLICATE KEY UPDATE", .keyword),
      ("NOT BETWEEN", .keyword), ("IS NOT", .operator), ("NOT LIKE", .operator),
      ("NOT IN", .operator), ("NOT REGEXP", .operator), ("NOT RLIKE", .operator),
      ("DOUBLE PRECISION", .dataType)]

/-- Whether a word is reserved. -/
def isKeyword (d : Dialect) (word : String) : Bool :=
  (keywords d).contains word

/-- Whether a word names a data type. -/
def isDataType (d : Dialect) (word : String) : Bool :=
  (dataTypes d).contains word

/-- Whether a word starts a statement. -/
def isStatementWord (word : String) : Bool :=
  statementWords.contains word

/-- Whether a token is a keyword that starts a statement. -/
def startsStatement (t : Token) : Bool :=
  t.kind == .keyword && isStatementWord t.value

/-- Whether a character can stand in a symbol. -/
def isOperatorChar (d : Dialect) (c : Char) : Bool :=
  (operatorChars d).contains c

/-- The kind of a bare word. -/
def classify (d : Dialect) (word : String) : TokenKind :=
  if isKeyword d word then .keyword
  else if isDataType d word then .dataType
  else .identifier

/-- An operator between two operands that groups to the left. -/
def between (precedence : Nat) (result : ResultKind) : OperatorInfo :=
  ⟨precedence, .left, result, true, false⟩

/-- An operator that stands between two operands or before one. -/
def betweenOrBefore (precedence : Nat) (result : ResultKind) : OperatorInfo :=
  ⟨precedence, .left, result, true, true⟩

/-- An operator before a single operand. -/
def beforeOnly (precedence : Nat) (result : ResultKind) : OperatorInfo :=
  ⟨precedence, .right, result, false, true⟩

/-! Precedence levels; a higher one binds tighter. -/

/-- Assignment. -/
def assignmentLevel : Nat := 1

/-- Disjunction. -/
def orLevel : Nat := 2

/-- Exclusive disjunction. -/
def xorLevel : Nat := 3

/-- Conjunction. -/
def andLevel : Nat := 4

/-- Negation. -/
def notLevel : Nat := 5

/-- Tests with `IS`. -/
def isLevel : Nat := 6

/-- Comparison. -/
def comparisonLevel : Nat := 7

/-- Pattern matching and membership. -/
def patternLevel : Nat := 8

/-- Symbols without a level of their own. -/
def otherLevel : Nat := 9

/-- Bitwise conjunction. -/
def bitAndLevel : Nat := 10

/-- Bit shifts. -/
def shiftLevel : Nat := 11

/-- Addition and subtraction. -/
def additiveLevel : Nat := 12

/-- Multiplication and division. -/
def multiplicativeLevel : Nat := 13

/-- Exponentiation. -/
def exponentLevel : Nat := 14

/-- Symbols before a single operand. -/
def unaryLevel : Nat := 15

/-- Type casts. -/
def castLevel : Nat := 16

/-- One entry for each of several spellings. -/
def spelled (spellings : List String) (info : OperatorInfo) : List (String × OperatorInfo) :=
  spellings.map fun s => (s, info)

/-- The operators of a dialect: symbols, words and phrases. -/
def operators (d : Dialect) : List (String × OperatorInfo) :=
  spelled ["OR"] (between orLevel .boolean) ++
  spelled ["AND"] (between andLevel .boolean) ++
  spelled ["NOT"] (beforeOnly notLevel .boolean) ++
  spelled ["IS", "IS NOT"] (between isLevel .boolean) ++
  spelled ["=", "<>", "!=", "<", ">", "<=", ">="] (between comparisonLevel .boolean) ++
  spelled ["LIKE", "NOT LIKE", "IN", "NOT IN"] (between patternLevel .boolean) ++
  spelled ["+", "-"] (betweenOrBefore additiveLevel .numeric) ++
  spelled ["*", "/", "%"] (between multiplicativeLevel .numeric) ++
  match d with
  | .postgres =>
    spelled ["IS DISTINCT FROM", "IS NOT DISTINCT FROM"] (between isLevel .boolean) ++
    spelled ["ILIKE", "NOT ILIKE", "SIMILAR TO", "NOT SIMILAR TO"]
      (between patternLevel .boolean) ++
    spelled ["||"] (between otherLevel .text) ++
    spelled ["->", "->>", "#>", "#>>"] (between otherLevel .json) ++
    spelled ["@>", "<@", "&&", "~*", "!~", "!~*"] (between otherLevel .boolean) ++
    spelled ["~"] (betweenOrBefore otherLevel .any) ++
    spelled ["|", "&", "#", "<<", ">>"] (between otherLevel .numeric) ++
    spelled ["^"] (between exponentLevel .numeric) ++
    spelled ["@"] (beforeOnly unaryLevel .numeric) ++
    spelled ["::"] (between castLevel .any)
  | .mysql =>
    spelled [":="] ⟨assignmentLevel, .right, .any, true, false⟩ ++
    spelled ["||"] (between orLevel .boolean) ++
    spelled ["XOR"] (between xorLevel .boolean) ++
    spelled ["&&"] (between andLevel .boolean) ++
    spelled ["!"] (beforeOnly unaryLevel .boolean) ++
    spelled ["<=>"] (between comparisonLevel .boolean) ++
    spelled ["REGEXP", "RLIKE", "NOT REGEXP", "NOT RLIKE"] (between patternLevel .boolean) ++
    spelled ["|"] (between otherLevel .numeric) ++
    spelled ["&"] (between bitAndLevel .numeric) ++
    spelled ["<<", ">>"] (between shiftLevel .numeric) ++
    spelled ["DIV", "MOD"] (between multiplicativeLevel .numeric) ++
    spelled ["^"] (between exponentLevel .numeric) ++
    spelled ["~"] (beforeOnly unaryLevel .numeric) ++
    spelled ["->", "->>"] (between otherLevel .json)

/-- How a symbol, word or phrase combines with operands, if it is an operator. -/
def operator? (d : Dialect) (spelling : String) : Option OperatorInfo :=
  (operators d).lookup spelling

/-- What is known of a phrase read so far. -/
structure PhraseMatch where
  /-- The kind of the compound that the phrase spells. -/
  complete : Option TokenKind
  /-- Whether a longer compound starts with the words of the phrase. -/
  continues : Bool
  deriving DecidableEq, Repr

/-- Looks up a phrase whose words are separated by single blanks. -/
def phrase (d : Dialect) (text : String) : PhraseMatch where
  complete := (compounds d).lookup text
  continues := (compounds d).any fun entry => (text ++ " ").toList.isPrefixOf entry.1.toList

/-- The longest symbol that a run of operator characters starts with. -/
def longestSymbol (d : Dialect) (run : List Char) : Option String :=
  ((symbols d).filter fun s => s.toList.isPrefixOf run).foldl (fun best s =>
    match best with
    | some b => if b.length < s.length then some s else best
    | none => some s) none

end DualSql.Vocabulary
