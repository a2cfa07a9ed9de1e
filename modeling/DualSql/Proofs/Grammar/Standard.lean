import DualSql.Grammar.Standard
import DualSql.Proofs.Grammar.Inversion
import DualSql.Proofs.Lookup

/-! # The standard grammar can be written as it was read

Every type of the standard grammar is faithful in every dialect, and there is
one kind of expression in it. This is checked by evaluation, so that a change
to a rule is checked anew.

Main definition: `Standard.outline`. -/

namespace DualSql

namespace Registry

/-- Whether the types are faithful, with one kind of expression. -/
def isFaithful (r : Registry) (operands : List String) (climb : Climb) (d : Dialect) : Bool :=
  r.types.all fun entry =>
    match entry.2 with
    | .declared _ =>
      match (r.schema entry.1 d).1 with
      | .ok schema => schema.root.all (Production.faithfulRoot operands climb)
      | .error _ => true
    | .climbing types climb' _ => types == operands && climb' == climb

/-- Whether a type is matched by its own rule. -/
def isDeclared (r : Registry) (tag : String) : Bool :=
  (r.type? tag).any fun nodeType => nodeType matches .declared _

/-- Whether a type is made by climbing and has the shape of a binary expression. -/
def isJoined (r : Registry) (operands : List String) (climb : Climb) (d : Dialect) : Bool :=
  match r.type? climb.node, (r.schema climb.node d).1 with
  | some (.climbing types climb' _), .ok schema =>
    types == operands && climb' == climb && schema.root.any (Production.joins climb)
  | _, _ => false

variable {r : Registry} {operands : List String} {climb : Climb} {d : Dialect} {tag : String}

theorem mem_types {nodeType : NodeType} (h : r.type? tag = some nodeType) :
    (tag, nodeType) ∈ r.types :=
  mem_of_lookup h

theorem exists_declared (h : r.isDeclared tag = true) :
    ∃ rule, r.type? tag = some (.declared rule) := by
  unfold isDeclared at h
  cases ht : r.type? tag with
  | none => simp [ht] at h
  | some nodeType =>
      cases nodeType with
      | declared rule => exact ⟨rule, rfl⟩
      | climbing types climb rule => simp [ht] at h

theorem faithfulRoot_of_isFaithful (h : r.isFaithful operands climb d = true) {rule : Rule}
    {schema : Schema} {root : Production} (htype : r.type? tag = some (.declared rule))
    (hschema : (r.schema tag d).1 = .ok schema) (hroot : schema.root = some root) :
    root.faithfulRoot operands climb = true := by
  have hentry := List.all_eq_true.1 h _ (mem_types htype)
  simpa [hschema, hroot] using hentry

theorem climbs_of_isFaithful (h : r.isFaithful operands climb d = true) {types : List String}
    {climb' : Climb} {rule : Rule} (htype : r.type? tag = some (.climbing types climb' rule)) :
    types = operands ∧ climb' = climb := by
  have hentry := List.all_eq_true.1 h _ (mem_types htype)
  simpa using hentry

theorem joins_of_isJoined (h : r.isJoined operands climb d = true) :
    ∃ rule schema root, r.type? climb.node = some (.climbing operands climb rule) ∧
      (r.schema climb.node d).1 = .ok schema ∧ schema.root = some root ∧
      root.joins climb = true := by
  unfold isJoined at h
  split at h
  next types climb' rule schema htype hschema =>
    simp only [Bool.and_eq_true, beq_iff_eq, Option.any_eq_true] at h
    obtain ⟨⟨rfl, rfl⟩, root, hroot, hjoins⟩ := h
    exact ⟨rule, schema, root, htype, hschema, hroot, hjoins⟩
  next => cases h

end Registry

namespace Standard

/-- The facts are checked together, since they look at the same schemas. -/
theorem isFaithful_isJoined : ∀ d ∈ Dialect.all,
    (extend {}).isFaithful operands binary d = true ∧
      (extend {}).isJoined operands binary d = true := by
  decide +kernel

theorem isFaithful (d : Dialect) : (extend {}).isFaithful operands binary d = true :=
  (isFaithful_isJoined d d.mem_all).1

theorem isJoined (d : Dialect) : (extend {}).isJoined operands binary d = true :=
  (isFaithful_isJoined d d.mem_all).2

theorem isDeclared_operands : ∀ tag ∈ operands, (extend {}).isDeclared tag = true := by
  decide +kernel

/-- The standard grammar as an outline. -/
def outline (d : Dialect) : FaithfulOutline where
  registry := extend {}
  options := { dialect := d }
  operands := operands
  climb := binary
  distinct := by decide
  declared tag htag := Registry.exists_declared (isDeclared_operands tag htag)
  faithful _ _ _ _ := Registry.faithfulRoot_of_isFaithful (isFaithful d)
  climbs _ _ _ _ := Registry.climbs_of_isFaithful (isFaithful d)
  joins := Registry.joins_of_isJoined (isJoined d)

/-- Compiling every schema in advance changes no answer. -/
theorem agrees_registry (d : Dialect) : (outline d).registry.Agrees registry :=
  Registry.agrees_compileAll _ _

end Standard

end DualSql
