import DualSql.Error
import DualSql.Grammar.Rule

/-! # Schemas

Compiling checks the rule of a node type and cuts it down to one dialect. The
result is a tree of productions, which know their path and the fields they
set, and the list of shapes that a node of the type can have: which fields, in
which order, with which contents.

Main definition: `Schema.compile`. -/

namespace DualSql

/-- What a production knows of itself. -/
structure RuleInfo where
  attrs : RuleAttrs
  /-- The way to the rule from the root, such as `SelectStmt/3/1`. -/
  path : String
  /-- The fields that are set anywhere in the rule. -/
  fields : List String
  deriving DecidableEq, Repr

/-- A rule as it applies in one dialect. -/
inductive Production where
  | token (info : RuleInfo) (kinds : List TokenKind) (values : List String)
  | node (info : RuleInfo) (types : List String) (climb : Option Climb)
  | sequence (info : RuleInfo) (parts : List Production)
  | alternatives (info : RuleInfo) (branches : List Production)
  | block (info : RuleInfo) (bracket : Bracket) (inner : Production)
  deriving Repr

namespace Production

/-- What the production knows of itself. -/
def info : Production → RuleInfo
  | token i _ _ | node i _ _ | sequence i _ | alternatives i _ | block i _ _ => i

/-- The attributes of the production. -/
def attrs (p : Production) : RuleAttrs :=
  p.info.attrs

/-- Whether the production stores a field of its own. -/
def isNamed (p : Production) : Bool :=
  p.attrs.name.isSome

/-- The kinds and values of a token production. -/
def token? : Production → Option (List TokenKind × List String)
  | token _ kinds values => some (kinds, values)
  | _ => none

end Production

/-- The types that a node rule accepts, that of climbing included. -/
def acceptedTypes (types : List String) (climb : Option Climb) : List String :=
  match climb with
  | some c => if types.contains c.node then types else types ++ [c.node]
  | none => types

/-- What a field holds. -/
inductive FieldKind where
  | terminal (kinds : List TokenKind) (values : List String)
  | node (types : List String)
  | list (types : List String) (arity : Arity) (singletons : Singletons)
  deriving DecidableEq, Repr

/-- A field of a shape. -/
structure FieldSchema where
  name : String
  /-- The path of the rule that sets the field. -/
  rulePath : String
  kind : FieldKind
  /-- Whether the field may be missing. -/
  optional : Bool
  /-- When the field applies. -/
  condition : Option Condition
  deriving DecidableEq, Repr

namespace FieldSchema

/-- The fields that have to be known before this one. -/
def dependencies (f : FieldSchema) : List String :=
  (f.condition.map Condition.field).toList

end FieldSchema

/-- The fields that a node can have, in the order of their declaration. -/
abbrev Shape := List FieldSchema

namespace Shape

/-- The field with a name. -/
def field? (s : Shape) (name : String) : Option FieldSchema :=
  s.find? fun f => f.name == name

/-- The fields that must be present. -/
def required (s : Shape) : List FieldSchema :=
  s.filter fun f => !f.optional && f.condition.isNone

/-- What tells shapes apart: their fields and where these come from. -/
def key (s : Shape) : List (String × String) :=
  s.map fun f => (f.name, f.rulePath)

/-- The name of a field that occurs twice. -/
def repeatedField? : Shape → List String → Option String
  | [], _ => none
  | f :: rest, seen =>
    if seen.contains f.name then some f.name else repeatedField? rest (f.name :: seen)

end Shape

/-- The grammar of a node type in one dialect. -/
structure Schema where
  tag : String
  dialect : Dialect
  /-- The rule, unless the type does not exist in the dialect. -/
  root : Option Production
  /-- The shapes of its nodes; the first that fits counts. -/
  shapes : List Shape
  deriving Repr

namespace Schema

/-- The path of a rule inside another. -/
def childPath (path : String) (index : Nat) : String :=
  s!"{path}/{index}"

/-- Checks that the node of a climbing rule has the fields that climbing sets. -/
def checkClimb (catalog : Catalog) (path : String) (climb : Climb) : Except GrammarError Unit :=
  match catalog.lookup climb.node with
  | none => .error (.unknownType climb.node)
  | some nodeType =>
    match [climb.left, climb.operator, climb.right].find? fun field =>
      !nodeType.rule.fieldNames.contains field with
    | some field => .error (.badClimb path climb.node field)
    | none => .ok ()

/-- Checks that arity and separator stand where they can. -/
def checkArity (path : String) : Rule → Except GrammarError Unit
  | .node attrs _ _ =>
    if attrs.separator.isSome && attrs.arity.isNone then .error (.separatorWithoutArity path)
    else .ok ()
  | r =>
    if r.attrs.arity.isSome || r.attrs.separator.isSome then .error (.arityOnNonNode path)
    else .ok ()

/-- Whether a rule can be a branch of named alternatives. -/
def isPlainToken : Rule → Bool
  | .token attrs _ _ => attrs.name.isNone && !attrs.optional
  | _ => false

/-- Checks the branches of named alternatives from the given index on. -/
def checkPlain (path : String) : Nat → List Rule → Except GrammarError Unit
  | _, [] => .ok ()
  | index, .token _ [] _ :: _ => .error (.empty (childPath path index) "token kind list")
  | index, _ :: rest => checkPlain path (index + 1) rest

mutual

/-- Checks a rule before it is cut down to a dialect. -/
def check (catalog : Catalog) (path : String) (r : Rule) : Except GrammarError Unit := do
  checkArity path r
  match r with
  | .token attrs kinds values =>
    if kinds.isEmpty then throw (.empty path "token kind list")
    if attrs.name.isNone && values.length != 1 then throw (.fieldlessToken path)
  | .node attrs types climb =>
    if types.isEmpty then throw (.empty path "node type list")
    if attrs.name.isNone then throw (.unnamedNode path)
    match types.find? fun tag => (catalog.lookup tag).isNone with
    | some tag => throw (.unknownType tag)
    | none => pure ()
    match climb with
    | some climb => checkClimb catalog path climb
    | none => pure ()
  | .sequence attrs parts =>
    if parts.isEmpty then throw (.empty path "sequence")
    if attrs.name.isSome then throw (.namedComposite path)
    checkAll catalog path 0 parts
  | .alternatives attrs branches =>
    if branches.isEmpty then throw (.empty path "alternatives")
    if attrs.name.isSome then
      if !branches.all isPlainToken then throw (.namedComposite path)
      checkPlain path 0 branches
    else checkAll catalog path 0 branches
  | .block attrs _ inner =>
    if attrs.name.isSome then throw (.namedComposite path)
    check catalog (childPath path 0) inner

/-- Checks rules from the given index on. -/
def checkAll (catalog : Catalog) (path : String) (index : Nat) :
    List Rule → Except GrammarError Unit
  | [] => .ok ()
  | r :: rest => do
    check catalog (childPath path index) r
    checkAll catalog path (index + 1) rest

end

/-- Adds names that are not in a list yet. -/
def union (names more : List String) : List String :=
  more.foldl (fun acc name => if acc.contains name then acc else acc ++ [name]) names

/-- Cuts down a branch of named alternatives, which sets no field itself. -/
def cutPlain (d : Dialect) (path : String) : Rule → Option Production
  | .token attrs kinds values =>
    if attrs.dialect.any (· ≠ d) then none else some (.token ⟨attrs, path, []⟩ kinds values)
  | _ => none

/-- Cuts down branches of named alternatives from the given index on. -/
def cutPlainAll (d : Dialect) (path : String) : Nat → List Rule → List Production
  | _, [] => []
  | index, r :: rest =>
    (cutPlain d (childPath path index) r).toList ++ cutPlainAll d path (index + 1) rest

/-- The fields that several productions set. -/
def fieldsOf (parts : List Production) : List String :=
  parts.foldl (fun names p => union names p.info.fields) []

mutual

/-- Cuts a rule down to a dialect. What is left of a composite without parts
is nothing. `seen` are the fields declared before, which conditions may ask for. -/
def cut (d : Dialect) (path : String) (seen : List String) (r : Rule) :
    Except GrammarError (Option Production × List String) := do
  if r.attrs.dialect.any (· ≠ d) then return (none, seen)
  match r.attrs.condition with
  | some c => if !seen.contains c.field then throw (.unknownDependency path c.field)
  | none => pure ()
  let own (fields : List String) : RuleInfo := ⟨r.attrs, path, r.attrs.name.elim fields ([·])⟩
  let declared (seen : List String) := union seen r.attrs.name.toList
  match r with
  | .token _ kinds values => return (some (.token (own []) kinds values), declared seen)
  | .node _ types climb => return (some (.node (own []) types climb), declared seen)
  | .sequence _ parts =>
    let (parts, seen) ← cutAll d path 0 seen parts
    if parts.isEmpty then return (none, seen)
    return (some (.sequence (own (fieldsOf parts)) parts), declared seen)
  | .alternatives attrs branches =>
    let (branches, seen) ← if attrs.name.isSome then pure (cutPlainAll d path 0 branches, seen)
      else cutAll d path 0 seen branches
    if branches.isEmpty then return (none, seen)
    return (some (.alternatives (own (fieldsOf branches)) branches), declared seen)
  | .block _ bracket inner =>
    match ← cut d (childPath path 0) seen inner with
    | (none, seen) => return (none, seen)
    | (some inner, seen) =>
      return (some (.block (own inner.info.fields) bracket inner), declared seen)

/-- Cuts down rules from the given index on. -/
def cutAll (d : Dialect) (path : String) (index : Nat) (seen : List String) :
    List Rule → Except GrammarError (List Production × List String)
  | [] => return ([], seen)
  | r :: rest => do
    let (p, seen) ← cut d (childPath path index) seen r
    let (parts, seen) ← cutAll d path (index + 1) seen rest
    return (p.toList ++ parts, seen)

end

/-- What a field of named alternatives holds: the kinds of all branches, and
their values unless a branch takes any value. -/
def plainKind (branches : List Production) : FieldKind :=
  let tokens := branches.filterMap Production.token?
  let kinds := tokens.foldl (fun acc t =>
    t.1.foldl (fun acc kind => if acc.contains kind then acc else acc ++ [kind]) acc) []
  let values := if tokens.any fun t => t.2.isEmpty then [] else tokens.flatMap (·.2)
  .terminal kinds values

/-- The shapes of a production with at most one field. -/
def fieldShapes (info : RuleInfo) (optional : Bool) (condition : Option Condition)
    (kind : FieldKind) : List Shape :=
  match info.attrs.name with
  | some name => [[{ name, rulePath := info.path, kind, optional, condition }]]
  | none => [[]]

mutual

/-- The shapes of what a production matches. Fields of an optional production
are optional, and the innermost condition counts. -/
def shapesOf (optional : Bool) (condition : Option Condition) (p : Production) : List Shape :=
  let optional := optional || p.attrs.optional
  let condition := p.attrs.condition.or condition
  match p with
  | .token info kinds values => fieldShapes info optional condition (.terminal kinds values)
  | .node info types climb =>
    let types := acceptedTypes types climb
    fieldShapes info optional condition <|
      match info.attrs.arity with
      | some arity => .list types arity info.attrs.singletons
      | none => .node types
  | .alternatives info branches =>
    if info.attrs.name.isSome then fieldShapes info optional condition (plainKind branches)
    else branchShapes optional condition branches
  | .sequence _ parts => sequenceShapes optional condition parts
  | .block _ _ inner => shapesOf optional condition inner

/-- The shapes of alternatives, branch after branch. -/
def branchShapes (optional : Bool) (condition : Option Condition) :
    List Production → List Shape
  | [] => []
  | p :: rest => shapesOf optional condition p ++ branchShapes optional condition rest

/-- The shapes of a sequence: every combination of shapes of its parts. -/
def sequenceShapes (optional : Bool) (condition : Option Condition) :
    List Production → List Shape
  | [] => [[]]
  | p :: rest =>
    let tails := sequenceShapes optional condition rest
    (shapesOf optional condition p).flatMap fun head => tails.map (head ++ ·)

end

/-- Keeps the first of each group of shapes that are told apart by nothing,
and fails on a shape in which a field occurs twice. -/
def distinctShapes (tag : String) :
    List Shape → List Shape → Except GrammarError (List Shape)
  | known, [] => .ok known
  | known, s :: rest =>
    match s.repeatedField? [] with
    | some field => .error (.duplicateField tag field)
    | none =>
      if known.any fun k => k.key == s.key then distinctShapes tag known rest
      else distinctShapes tag (known ++ [s]) rest

/-- The grammar of a node type in a dialect. -/
def compile (catalog : Catalog) (tag : String) (r : Rule) (d : Dialect) :
    Except GrammarError Schema := do
  check catalog tag r
  let (root, _) ← cut d tag [] r
  let shapes ← distinctShapes tag [] (root.elim [] (shapesOf false none))
  return { tag, dialect := d, root, shapes }

end Schema

end DualSql
