import DualSql.Position
import DualSql.Text.Casing
import DualSql.Text.Inspect

/-! # Tokens

What a token is: its kind, its normalized value, where it stands, and how it
was written. Bracketed regions are single tokens whose contents are held by
the stream that delivers them. -/

namespace DualSql

/-- The kind of a token. -/
inductive TokenKind where
  | whitespace
  | comment
  | keyword
  | identifier
  | dataType
  | variable
  | operator
  | punctuation
  | stringLiteral
  | numberLiteral
  | hexLiteral
  | bitLiteral
  | bindVariable
  | parenBlock
  | bracketBlock
  | braceBlock
  deriving DecidableEq, Repr, Inhabited

namespace TokenKind

/-- Every kind. -/
def all : List TokenKind :=
  [whitespace, comment, keyword, identifier, dataType, .variable, operator, punctuation,
    stringLiteral, numberLiteral, hexLiteral, bitLiteral, bindVariable, parenBlock,
    bracketBlock, braceBlock]

/-- The name used in messages and structured trees. -/
def name : TokenKind → String
  | whitespace => "whitespace"
  | comment => "comment"
  | keyword => "keyword"
  | identifier => "identifier"
  | dataType => "data_type"
  | .variable => "variable"
  | operator => "operator"
  | punctuation => "punctuation"
  | stringLiteral => "string_literal"
  | numberLiteral => "number_literal"
  | hexLiteral => "hex_literal"
  | bitLiteral => "bit_literal"
  | bindVariable => "bind_variable"
  | parenBlock => "paren_block"
  | bracketBlock => "bracket_block"
  | braceBlock => "brace_block"

/-- The name as a label in diagnostics. -/
def label : TokenKind → String
  | whitespace => "Whitespace"
  | comment => "Comment"
  | keyword => "Keyword"
  | identifier => "Identifier"
  | dataType => "DataType"
  | .variable => "Variable"
  | operator => "Operator"
  | punctuation => "Punctuation"
  | stringLiteral => "StringLiteral"
  | numberLiteral => "NumberLiteral"
  | hexLiteral => "HexLiteral"
  | bitLiteral => "BitLiteral"
  | bindVariable => "BindVariable"
  | parenBlock => "ParenBlock"
  | bracketBlock => "BracketBlock"
  | braceBlock => "BraceBlock"

/-- The kind with the given name. -/
def ofName? (name : String) : Option TokenKind :=
  all.find? fun kind => kind.name == name

/-- Whether tokens of the kind carry no content: whitespace and comments. -/
def isTrivia : TokenKind → Bool
  | whitespace | comment => true
  | _ => false

/-- Whether tokens of the kind hold a bracketed region. -/
def isBlock : TokenKind → Bool
  | parenBlock | bracketBlock | braceBlock => true
  | _ => false

/-- Whether values of the kind compare without regard to ASCII case. -/
def isWord : TokenKind → Bool
  | keyword | dataType | operator => true
  | _ => false

end TokenKind

/-- The three pairs of brackets. -/
inductive Bracket where
  | paren
  | square
  | curly
  deriving DecidableEq, Repr

namespace Bracket

/-- The name of the pair. -/
def name : Bracket → String
  | paren => "paren"
  | square => "bracket"
  | curly => "brace"

/-- The opening symbol. -/
def opener : Bracket → Char
  | paren => '('
  | square => '['
  | curly => '\x7b'

/-- The closing symbol. -/
def closer : Bracket → Char
  | paren => ')'
  | square => ']'
  | curly => '\x7d'

/-- The pair that a character opens. -/
def ofOpener? (c : Char) : Option Bracket :=
  [paren, square, curly].find? fun b => b.opener == c

/-- The pair that a character closes. -/
def ofCloser? (c : Char) : Option Bracket :=
  [paren, square, curly].find? fun b => b.closer == c

/-- The kind of the token that holds a region between these brackets. -/
def tokenKind : Bracket → TokenKind
  | paren => .parenBlock
  | square => .bracketBlock
  | curly => .braceBlock

/-- The brackets around the region that a token of the kind holds. -/
def ofTokenKind? : TokenKind → Option Bracket
  | .parenBlock => some paren
  | .bracketBlock => some square
  | .braceBlock => some curly
  | _ => none

end Bracket

/-- How a chain of operators of one precedence groups. -/
inductive Associativity where
  | left
  | right
  deriving DecidableEq, Repr

namespace Associativity

/-- The name used in messages. -/
def name : Associativity → String
  | left => "left"
  | right => "right"

end Associativity

/-- The kind of value that an operator yields. -/
inductive ResultKind where
  | boolean
  | numeric
  | text
  | json
  | any
  deriving DecidableEq, Repr

namespace ResultKind

/-- The name used in messages. -/
def name : ResultKind → String
  | boolean => "boolean"
  | numeric => "numeric"
  | text => "text"
  | json => "json"
  | any => "any"

end ResultKind

/-- How an operator combines with its operands. -/
structure OperatorInfo where
  /-- Binding strength; a higher one binds tighter. -/
  precedence : Nat
  associativity : Associativity
  result : ResultKind
  /-- Whether the operator can stand between two operands. -/
  binary : Bool
  /-- Whether the operator can stand before a single operand. -/
  unary : Bool
  deriving DecidableEq, Repr

/-- A token and its place in the source text. -/
structure Token where
  kind : TokenKind
  /-- The contents of a literal or quoted name without quotes, a keyword in
  upper case, the symbol of an operator or bracket. -/
  value : String
  position : Position := .start
  /-- Whether whitespace or a comment stood before the token. -/
  spaceBefore : Bool := false
  /-- What enclosed a quoted literal or name. -/
  delimiter : Option String := none
  /-- What marked the notation of a literal. -/
  modifier : Option String := none
  operator : Option OperatorInfo := none
  deriving DecidableEq, Repr

namespace Token

/-- The token that holds a bracketed region. -/
def ofBracket (b : Bracket) (position : Position) (spaceBefore : Bool) : Token :=
  { kind := b.tokenKind, value := b.opener.toString, position, spaceBefore }

/-- Whether a token has the kind and, where one is given, the value. -/
def is (t : Token) (kind : TokenKind) (value : Option String) : Bool :=
  t.kind == kind &&
    match value with
    | none => true
    | some v => if kind.isWord then Text.eqIgnoringAsciiCase t.value v else t.value == v

/-- Whether the token is an identifier written in quotes. -/
def isQuoted (t : Token) : Bool :=
  t.kind == .identifier && t.delimiter.isSome

/-- Whether the token can stand between two operands. -/
def isBinaryOperator (t : Token) : Bool :=
  t.operator.any (·.binary)

/-- The token in words. -/
def describe (t : Token) : String :=
  s!"{t.kind.name} '{t.value}'"

/-- The token with its attributes, for diagnostics. -/
def inspect (t : Token) : String :=
  let fields :=
    [s!"kind: {t.kind.label}", s!"value: {Text.inspect t.value}",
      s!"line: {t.position.line.toNat}", s!"column: {t.position.column.toNat}"] ++
    (t.delimiter.map fun d => s!"delimiter: {Text.inspect d}").toList ++
    (t.modifier.map fun m => s!"modifier: {Text.inspect m}").toList ++
    (t.operator.map fun o => s!"precedence: {o.precedence}").toList
  "Token \x7b " ++ ", ".intercalate (fields ++ [".."]) ++ " \x7d"

end Token

end DualSql
