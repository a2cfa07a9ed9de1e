import DualSql.Grammar.Rendering

/-! # Grammars whose trees can be written as they were read

What is written for a tree is read off the fields that the tree has. A
production is faithful if these fields tell which parts of it were matched:
an optional part sets a field, parts set different fields, of two alternatives
the later one sets a field that the earlier one has not, and a token without a
field has but one spelling.

Main definitions: `Production.sets`, `Production.musts` and
`Production.faithful`. -/

namespace DualSql

/-- Whether tokens of the kind are spelled as their value says. -/
def TokenKind.isFixed (kind : TokenKind) : Bool :=
  kind == .keyword || kind == .operator || kind == .punctuation

namespace Production

mutual

/-- The fields that a production can set. -/
def sets : Production → List String
  | token info _ _ | node info _ _ => info.attrs.name.toList
  | sequence _ parts => setsAll parts
  | alternatives info branches =>
    match info.attrs.name with
    | some name => [name]
    | none => setsAll branches
  | block _ _ inner => inner.sets

/-- The fields that several productions can set. -/
def setsAll : List Production → List String
  | [] => []
  | p :: rest => p.sets ++ setsAll rest

end

/-- Whether a production can be passed over in a match. -/
def isOpen (p : Production) : Bool :=
  p.attrs.optional || p.attrs.condition.isSome

mutual

/-- Fields that are set whenever a production matches something. -/
def musts : Production → List String
  | token info _ _ | node info _ _ | alternatives info _ => info.attrs.name.toList
  | sequence _ parts => mustsAll parts
  | block _ _ inner => if inner.isOpen then [] else inner.musts

/-- Fields that are set whenever several productions match. -/
def mustsAll : List Production → List String
  | [] => []
  | p :: rest => (if p.isOpen then [] else p.musts) ++ mustsAll rest

end

mutual

/-- The fields that conditions in a production ask for. -/
def asks : Production → List String
  | token info _ _ | node info _ _ => (info.attrs.condition.map Condition.field).toList
  | sequence info parts => (info.attrs.condition.map Condition.field).toList ++ asksAll parts
  | alternatives info branches =>
    (info.attrs.condition.map Condition.field).toList ++ asksAll branches
  | block info _ inner => (info.attrs.condition.map Condition.field).toList ++ inner.asks

/-- The fields that conditions in several productions ask for. -/
def asksAll : List Production → List String
  | [] => []
  | p :: rest => p.asks ++ asksAll rest

end

mutual

/-- Whether what follows a tree matters for how the production writes it. -/
def trails : Production → Bool
  | node info _ _ => info.attrs.arity.isNone && info.attrs.minPrecedence.isSome
  | sequence _ parts | alternatives _ parts => trailsAny parts
  | token .. | block .. => false

/-- Whether what follows a tree matters for one of several productions. -/
def trailsAny : List Production → Bool
  | [] => false
  | p :: rest => p.trails || trailsAny rest

end

/-- The least precedence in the operand that a production is. -/
def edge? : Production → Option Nat
  | node info _ (some _) => if info.attrs.arity.isNone then info.attrs.minPrecedence else none
  | _ => none

/-- The least precedence in the operand that several productions end in. -/
def lastEdge? : List Production → Option Nat
  | [] => none
  | [p] => if p.isOpen then none else p.edge?
  | _ :: rest => lastEdge? rest

/-- The least precedence in the operand that a production ends in. -/
def endEdge? : Production → Option Nat
  | sequence _ parts => lastEdge? parts
  | p => p.edge?

/-- Whether no name is in both lists. -/
def disjoint (names others : List String) : Bool :=
  names.all fun name => !others.contains name

/-- Whether every name of the first list is in the second. -/
def within (names others : List String) : Bool :=
  names.all others.contains

/-- Whether a separator is written as it was read, whatever kind of token it is. -/
def plainSeparator (separator : String) : Bool :=
  separator.toList.all (fun c => !c.isAlpha) &&
    [TokenKind.punctuation, .operator, .keyword].all fun kind =>
      fixedSpelling .upper kind separator == separator

/-- Whether each of several branches sets a field that those before it do not have. -/
def toldApart : List Production → Bool
  | [] => true
  | p :: rest =>
    rest.all (fun q => q.musts.any fun name => !p.info.fields.contains name) && toldApart rest

/-- Whether tokens of some kinds are never blocks. -/
def leaves (kinds : List TokenKind) : Bool :=
  kinds.all (!·.isBlock)

mutual

/-- Whether the fields of a tree tell which parts of the production were matched. -/
def faithful (operands : List String) (climb : Climb) (p : Production) : Bool :=
  within p.info.fields p.sets && within p.sets p.info.fields &&
  (!p.attrs.optional || !p.musts.isEmpty) &&
  p.attrs.condition.all (fun c => !p.sets.contains c.field) &&
  match p with
  | token info kinds values =>
    if info.attrs.name.isSome then leaves kinds
    else
      match kinds, values with
      | [kind], [_] => kind.isFixed
      | _, _ => false
  | node info types c =>
    info.attrs.name.isSome && info.attrs.separator.all plainSeparator &&
      match c with
      | none => info.attrs.minPrecedence.isNone
      | some c => types == operands && c == climb
  | sequence _ parts => faithfulAll operands climb parts
  | alternatives info branches =>
    if info.attrs.name.isSome then branches.all fun b => b.token?.all fun t => leaves t.1
    else faithfulEach operands climb branches && toldApart branches
  | block info _ inner =>
    inner.faithful operands climb &&
      (!info.attrs.optionalParens || (!inner.isOpen && !inner.musts.isEmpty))

/-- Whether productions that follow each other are faithful and set different fields. -/
def faithfulAll (operands : List String) (climb : Climb) : List Production → Bool
  | [] => true
  | p :: rest =>
    p.faithful operands climb && disjoint p.sets (setsAll rest) &&
      disjoint p.asks (p.sets ++ setsAll rest) && (!p.trails || rest.isEmpty) &&
      faithfulAll operands climb rest

/-- Whether branches are faithful and have to match. -/
def faithfulEach (operands : List String) (climb : Climb) : List Production → Bool
  | [] => true
  | p :: rest => p.faithful operands climb && !p.isOpen && faithfulEach operands climb rest

end

/-- Whether a production can be the whole of a declared type. -/
def faithfulRoot (operands : List String) (climb : Climb) (p : Production) : Bool :=
  p.faithful operands climb && !p.isOpen &&
    p.operandBinding? == p.endEdge?.map (· - 1)

/-- Whether a production is two operands with an operator between them. -/
def joins (climb : Climb) : Production → Bool
  | p@(sequence _ [left@(node ..), operator@(token ..), right@(node ..)]) =>
    [p, left, operator, right].all (fun q => !q.isOpen) &&
      left.attrs.name == some climb.left && operator.attrs.name == some climb.operator &&
      right.attrs.name == some climb.right
  | _ => false

end Production

/-- Whether climbing stores operands and operator in different fields. -/
def Climb.distinct (climb : Climb) : Bool :=
  climb.left != climb.operator && climb.left != climb.right && climb.operator != climb.right

end DualSql
