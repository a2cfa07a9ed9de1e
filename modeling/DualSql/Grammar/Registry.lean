import DualSql.Grammar.Schema
import DualSql.Text.Inspect

/-! # Registries

A registry holds the node types of a grammar and remembers the schemas that
were compiled from them. Types refer to each other by tag, in any order. -/

namespace DualSql

/-- The types of a grammar, with the schemas compiled so far. -/
structure Registry where
  types : Catalog := []
  compiled : List ((String × Dialect) × Schema) := []
  deriving Repr

namespace Registry

/-- Sets the entry for a tag. -/
def setType (tag : String) (nodeType : NodeType) : Catalog → Catalog
  | [] => [(tag, nodeType)]
  | (t, n) :: rest => if t = tag then (t, nodeType) :: rest else (t, n) :: setType tag nodeType rest

/-- Adds a type in place of any other with its tag, whose schemas are forgotten. -/
def register (r : Registry) (tag : String) (nodeType : NodeType) : Registry where
  types := setType tag nodeType r.types
  compiled := r.compiled.filter fun entry => entry.1.1 ≠ tag

/-- Adds a type that is parsed by matching its rule. -/
def declare (r : Registry) (tag : String) (rule : Rule) : Registry :=
  r.register tag (.declared rule)

/-- Adds a type that is parsed by climbing. -/
def climbing (r : Registry) (operands : List String) (climb : Climb) (rule : Rule) : Registry :=
  r.register climb.node (.climbing operands climb rule)

/-- The type with a tag. -/
def type? (r : Registry) (tag : String) : Option NodeType :=
  r.types.lookup tag

/-- The tags of all types, in order. -/
def tags (r : Registry) : List String :=
  (r.types.map (·.1)).mergeSort (· ≤ ·)

/-- The schema of a type in a dialect, compiled when it is first asked for. -/
def schema (r : Registry) (tag : String) (d : Dialect) : Except Error Schema × Registry :=
  match r.type? tag with
  | none => (.error (.grammar (.unknownType tag)), r)
  | some nodeType =>
    match r.compiled.lookup (tag, d) with
    | some schema => (.ok schema, r)
    | none =>
      match Schema.compile r.types tag nodeType.rule d with
      | .error e => (.error (.grammar e), r)
      | .ok schema => (.ok schema, { r with compiled := ((tag, d), schema) :: r.compiled })

/-- Compiles the given types in the given dialects, up to the first error. -/
def compileAll (r : Registry) : List (String × Dialect) → Except Error Unit × Registry
  | [] => (.ok (), r)
  | (tag, d) :: rest =>
    match r.schema tag d with
    | (.error e, r) => (.error e, r)
    | (.ok _, r) => r.compileAll rest

/-- Compiles every type in every dialect, up to the first error. -/
def validate (r : Registry) : Except Error Unit × Registry :=
  r.compileAll (r.tags.flatMap fun tag => Dialect.all.map fun d => (tag, d))

/-- The number of rules and types that parsing can go through. -/
def size (r : Registry) : Nat :=
  r.types.foldr (fun entry total => 1 + entry.2.size + total) 0

/-- The registry in words, for diagnostics. -/
def inspect (r : Registry) : String :=
  "Registry \x7b types: [" ++ ", ".intercalate (r.tags.map Text.inspect) ++ "], .. \x7d"

end Registry

end DualSql
