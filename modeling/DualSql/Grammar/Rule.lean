import DualSql.Dialect
import DualSql.Token

/-! # Rules

The grammar of a node type is a tree of rules with attributes. One and the
same tree is matched against tokens, matched against structured trees and
rendered as text. -/

namespace DualSql

/-- How operands and operators combine to a node. -/
structure Climb where
  /-- The type of the nodes that are made. -/
  node : String
  /-- The fields that hold the operands and the operator. -/
  left : String
  operator : String
  right : String
  deriving DecidableEq, Repr

/-- How many items a list may have. -/
structure Arity where
  least : Nat
  most : Option Nat
  deriving DecidableEq, Repr

namespace Arity

/-- Whether a list of some length may have one more item. -/
def admitsMore (a : Arity) (length : Nat) : Bool :=
  a.most.all (length < ·)

/-- Whether a list may have some length. -/
def admits (a : Arity) (length : Nat) : Bool :=
  a.least ≤ length && a.most.all (length ≤ ·)

end Arity

/-- Which items of a list count as repeated. -/
inductive Singletons where
  | unrestricted
  /-- No two items have the same type. -/
  | byType
  /-- No two items are equal. -/
  | byValue
  deriving DecidableEq, Repr

namespace Singletons

/-- The name used in descriptions of schemas. -/
def name : Singletons → String
  | unrestricted => "none"
  | byType => "type"
  | byValue => "value"

end Singletons

/-- When a rule applies, in terms of the fields set before it. -/
inductive Condition where
  | present (field : String)
  | absent (field : String)
  deriving DecidableEq, Repr

namespace Condition

/-- The field that a condition asks for. -/
def field : Condition → String
  | present f | absent f => f

/-- Whether a condition holds, given which fields are set. -/
def holds (c : Condition) (has : String → Bool) : Bool :=
  match c with
  | present f => has f
  | absent f => !has f

end Condition

/-- The attributes of a rule. -/
structure RuleAttrs where
  /-- The field that the match is stored in. -/
  name : Option String := none
  arity : Option Arity := none
  /-- A rule that need not match. -/
  optional : Bool := false
  /-- A rule whose mismatch is an error. -/
  asserted : Bool := false
  /-- The dialect that the rule belongs to, if not to all. -/
  dialect : Option Dialect := none
  /-- What stands between the items of a list. -/
  separator : Option String := none
  singletons : Singletons := .unrestricted
  condition : Option Condition := none
  /-- Written without a blank before it. -/
  tight : Bool := false
  /-- Written on a line of its own where there is room for lines. -/
  newline : Bool := false
  /-- Written with deeper indentation. -/
  indent : Bool := false
  /-- A block whose brackets may be left out where they change nothing. -/
  optionalParens : Bool := false
  /-- The least precedence of the operators in the match. -/
  minPrecedence : Option Nat := none
  deriving DecidableEq, Repr

/-- A rule of a grammar. -/
inductive Rule where
  /-- A token of one of the kinds, with one of the values if there are any. -/
  | token (attrs : RuleAttrs) (kinds : List TokenKind) (values : List String)
  /-- A node of one of the types, or operands of these types with operators between them. -/
  | node (attrs : RuleAttrs) (types : List String) (climb : Option Climb)
  | sequence (attrs : RuleAttrs) (parts : List Rule)
  | alternatives (attrs : RuleAttrs) (branches : List Rule)
  /-- A bracketed region whose contents match a rule completely. -/
  | block (attrs : RuleAttrs) (bracket : Bracket) (inner : Rule)
  deriving Repr

namespace Rule

/-- The attributes of a rule. -/
def attrs : Rule → RuleAttrs
  | token a _ _ | node a _ _ | sequence a _ | alternatives a _ | block a _ _ => a

/-- Changes the attributes of a rule. -/
def mapAttrs (f : RuleAttrs → RuleAttrs) : Rule → Rule
  | token a kinds values => token (f a) kinds values
  | node a types climb => node (f a) types climb
  | sequence a parts => sequence (f a) parts
  | alternatives a branches => alternatives (f a) branches
  | block a bracket inner => block (f a) bracket inner

/-- A token of one of several kinds. -/
def tok (kinds : List TokenKind) : Rule :=
  token {} kinds []

/-- A token of one kind with one of several values. -/
def tokValues (kind : TokenKind) (values : List String) : Rule :=
  token {} [kind] values

/-- A keyword. -/
def kw (keyword : String) : Rule :=
  tokValues .keyword [keyword]

/-- A punctuation mark. -/
def punct (symbol : String) : Rule :=
  tokValues .punctuation [symbol]

/-- An operator. -/
def op (symbol : String) : Rule :=
  tokValues .operator [symbol]

/-- A node of one of several types. -/
def ofTypes (types : List String) : Rule :=
  node {} types none

/-- Operands of several types with operators between them. -/
def expr (types : List String) (climb : Climb) : Rule :=
  node {} types (some climb)

/-- Rules that match one after the other. -/
def seq (parts : List Rule) : Rule :=
  sequence {} parts

/-- Rules of which the first that matches counts. -/
def alt (branches : List Rule) : Rule :=
  alternatives {} branches

/-- A rule inside brackets. -/
def within (bracket : Bracket) (inner : Rule) : Rule :=
  block {} bracket inner

/-- A rule inside round brackets. -/
def paren (inner : Rule) : Rule :=
  within .paren inner

/-- Stores the match in a field. -/
def named (r : Rule) (name : String) : Rule :=
  r.mapAttrs ({ · with name := some name })

/-- Lets the rule match nothing. -/
def optional (r : Rule) : Rule :=
  r.mapAttrs ({ · with optional := true })

/-- Makes a mismatch an error. -/
def asserted (r : Rule) : Rule :=
  r.mapAttrs ({ · with asserted := true })

/-- Restricts the rule to a dialect. -/
def onlyIn (r : Rule) (d : Dialect) : Rule :=
  r.mapAttrs ({ · with dialect := some d })

/-- Matches a list of items. -/
def repeated (r : Rule) (least : Nat) (most : Option Nat) : Rule :=
  r.mapAttrs ({ · with arity := some ⟨least, most⟩ })

/-- Sets what stands between the items of a list. -/
def separatedBy (r : Rule) (separator : String) : Rule :=
  r.mapAttrs ({ · with separator := some separator })

/-- Matches one or more items with a separator between them. -/
def many (r : Rule) (separator : String) : Rule :=
  (r.repeated 1 none).separatedBy separator

/-- Restricts the rule to nodes on which a condition holds. -/
def onlyIf (r : Rule) (c : Condition) : Rule :=
  r.mapAttrs ({ · with condition := some c })

/-- Writes the match without a blank before it. -/
def tight (r : Rule) : Rule :=
  r.mapAttrs ({ · with tight := true })

/-- Writes the match on a line of its own. -/
def newline (r : Rule) : Rule :=
  r.mapAttrs ({ · with newline := true })

/-- Lets the brackets of a block be left out where they change nothing. -/
def optionalParens (r : Rule) : Rule :=
  r.mapAttrs ({ · with optionalParens := true })

/-- Sets the least precedence of the operators in the match. -/
def minPrecedence (r : Rule) (precedence : Nat) : Rule :=
  r.mapAttrs ({ · with minPrecedence := some precedence })

mutual

/-- The names of all fields in a rule, in the order of their declaration. -/
def fieldNames : Rule → List String
  | token a _ _ | node a _ _ => a.name.toList
  | sequence a rules | alternatives a rules => a.name.toList ++ fieldNamesAll rules
  | block a _ inner => a.name.toList ++ inner.fieldNames

/-- The names of all fields in several rules. -/
def fieldNamesAll : List Rule → List String
  | [] => []
  | r :: rest => r.fieldNames ++ fieldNamesAll rest

/-- The number of rules in a rule, itself included, with the types that it
names and the items that a bounded list may have. -/
def size : Rule → Nat
  | token .. => 1
  | node a types _ => 1 + types.length + (a.arity.bind Arity.most).getD 0
  | sequence _ rules | alternatives _ rules => 1 + sizeAll rules
  | block _ _ inner => 1 + inner.size

/-- The number of rules in several rules. -/
def sizeAll : List Rule → Nat
  | [] => 0
  | r :: rest => 1 + r.size + sizeAll rest

end

end Rule

/-- A type of nodes and the rule for its shape. -/
inductive NodeType where
  /-- Parsed by matching its rule. -/
  | declared (rule : Rule)
  /-- Parsed by precedence climbing over operands; the rule gives its shape. -/
  | climbing (operands : List String) (climb : Climb) (rule : Rule)
  deriving Repr

namespace NodeType

/-- The rule for the shape of the nodes. -/
def rule : NodeType → Rule
  | declared r | climbing _ _ r => r

/-- How nodes of the type are made by climbing, if they are. -/
def climb? : NodeType → Option Climb
  | declared _ => none
  | climbing _ c _ => some c

/-- The number of rules and operand types that parsing a node may go through. -/
def size : NodeType → Nat
  | declared r => r.size
  | climbing operands _ r => operands.length + r.size

end NodeType

/-- The types of a grammar by tag. -/
abbrev Catalog := List (String × NodeType)

end DualSql
