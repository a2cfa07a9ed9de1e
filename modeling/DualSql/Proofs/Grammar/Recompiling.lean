import DualSql.Proofs.Grammar.ShapeFields
import Mathlib.Data.List.Induction

/-! # Schemas of registries that change

A schema that is remembered is compiled from the rule that its type has now, but
with the types that there were when it was first asked for. Compiling looks at
other types in two ways only: whether they exist, which stays so, and whether the
node of a climbing rule has the fields that climbing sets. So a remembered schema
differs from one that is compiled now just where compiling fails now, on a field
that a climbing node had before.

Main definitions: `Registry.Request`, `Registry.after` and `Registry.Outdated`.
Main result: `Registry.schema_eq_fresh_iff`. -/

namespace DualSql

/-! ### Compiling with other types -/

namespace Schema

variable {catalog catalog' : Catalog}

/-- The types of a catalog are all in another. -/
def Persist (catalog catalog' : Catalog) : Prop :=
  ∀ tag, (catalog.lookup tag).isSome = true → (catalog'.lookup tag).isSome = true

/-- A type has a field in a catalog and is without it in another. -/
def Loses (catalog catalog' : Catalog) (node field : String) : Prop :=
  ∃ old new, catalog.lookup node = some old ∧ catalog'.lookup node = some new ∧
    field ∈ old.rule.fieldNames ∧ field ∉ new.rule.fieldNames

theorem Persist.refl (catalog : Catalog) : Persist catalog catalog :=
  fun _ h => h

theorem Persist.trans {catalog'' : Catalog} (h : Persist catalog catalog')
    (h' : Persist catalog' catalog'') : Persist catalog catalog'' :=
  fun tag htag => h' tag (h tag htag)

/-- Where one computation succeeds, another gives the same or fails on a field that
a climbing node has lost. -/
def Follows {α : Type} (catalog catalog' : Catalog) (x x' : Except GrammarError α) : Prop :=
  ∀ a, x = .ok a → x' = .ok a ∨ ∃ path node field,
    x' = .error (.badClimb path node field) ∧ Loses catalog catalog' node field

namespace Follows

variable {α β : Type} {x x' : Except GrammarError α}

theorem refl (x : Except GrammarError α) : Follows catalog catalog' x x :=
  fun _ h => .inl h

theorem bind {f f' : α → Except GrammarError β} (h : Follows catalog catalog' x x')
    (hf : ∀ a, Follows catalog catalog' (f a) (f' a)) :
    Follows catalog catalog' (x >>= f) (x' >>= f') := by
  intro b hb
  cases x with
  | error e => cases hb
  | ok a =>
      obtain rfl | ⟨path, node, field, rfl, hlost⟩ := h a rfl
      · exact hf a b hb
      · exact .inr ⟨path, node, field, rfl, hlost⟩

theorem ite {c : Prop} [Decidable c] {y y' : Except GrammarError α}
    (h : Follows catalog catalog' x x') (h' : Follows catalog catalog' y y') :
    Follows catalog catalog' (if c then x else y) (if c then x' else y') := by
  split
  · exact h
  · exact h'

theorem of_throw {e : GrammarError} {f : α → Except GrammarError β}
    {x' : Except GrammarError β} : Follows catalog catalog' (throw e >>= f) x' :=
  fun _ h => nomatch h

end Follows

theorem follows_checkClimb (persist : Persist catalog catalog') (path : String) (climb : Climb) :
    Follows catalog catalog' (checkClimb catalog path climb) (checkClimb catalog' path climb) := by
  intro _ h
  unfold checkClimb at h
  split at h
  · cases h
  next old hold =>
    split at h
    · cases h
    next hfields =>
      obtain ⟨new, hnew⟩ := Option.isSome_iff_exists.1 (persist _ (Option.isSome_of_eq_some hold))
      simp only [checkClimb, hnew]
      split
      next field hfield =>
        -- the field that is missed now was there when nothing was missed
        have hhad := List.find?_eq_none.1 hfields field (List.mem_of_find?_eq_some hfield)
        have hgone := List.find?_some hfield
        exact .inr ⟨path, climb.node, field, rfl, old, new, hold, hnew, by simpa using hhad,
          by simpa using hgone⟩
      next => exact .inl rfl

/-- The types of a node rule exist where they did before. -/
theorem find?_unknown (persist : Persist catalog catalog') {types : List String}
    (h : types.find? (fun tag => (catalog.lookup tag).isNone) = none) :
    types.find? (fun tag => (catalog'.lookup tag).isNone) = none := by
  refine List.find?_eq_none.2 fun tag htag => ?_
  have hold := List.find?_eq_none.1 h tag htag
  rw [Bool.not_eq_true, Option.isNone_eq_false_iff] at hold ⊢
  exact persist tag hold

theorem follows_node (persist : Persist catalog catalog') (path : String) (attrs : RuleAttrs)
    (types : List String) (climb : Option Climb) :
    Follows catalog catalog' (check catalog path (.node attrs types climb))
      (check catalog' path (.node attrs types climb)) := by
  simp only [check]
  refine .bind (.refl _) fun _ => .ite .of_throw (.ite .of_throw ?_)
  split
  · exact .of_throw
  next hknown =>
    rw [find?_unknown persist hknown]
    cases climb with
    | none => exact .refl _
    | some climb => exact follows_checkClimb persist path climb

mutual

/-- A rule that was in order is in order, or a climbing node has lost a field. -/
theorem follows_check (persist : Persist catalog catalog') :
    (r : Rule) → (path : String) →
    Follows catalog catalog' (check catalog path r) (check catalog' path r)
  | .token attrs kinds values, path => by
      simp only [check]
      exact .refl _
  | .node attrs types climb, path => follows_node persist path attrs types climb
  | .sequence attrs parts, path => by
      simp only [check]
      exact .bind (.refl _) fun _ =>
        .ite .of_throw (.ite .of_throw (follows_checkAll persist parts path 0))
  | .alternatives attrs branches, path => by
      simp only [check]
      exact .bind (.refl _) fun _ =>
        .ite .of_throw (.ite (.ite .of_throw (.refl _)) (follows_checkAll persist branches path 0))
  | .block attrs bracket inner, path => by
      simp only [check]
      exact .bind (.refl _) fun _ => .ite .of_throw (follows_check persist inner _)

theorem follows_checkAll (persist : Persist catalog catalog') :
    (rs : List Rule) → (path : String) → (index : Nat) →
    Follows catalog catalog' (checkAll catalog path index rs) (checkAll catalog' path index rs)
  | [], _, _ => by
      simp only [checkAll]
      exact .refl _
  | r :: rest, path, index => by
      simp only [checkAll]
      exact .bind (follows_check persist r _) fun _ => follows_checkAll persist rest path _

end

/-- A rule that compiled compiles to the same schema, or a climbing node has lost
a field. -/
theorem follows_compile (persist : Persist catalog catalog') (tag : String) (r : Rule)
    (d : Dialect) :
    Follows catalog catalog' (compile catalog tag r d) (compile catalog' tag r d) :=
  .bind (follows_check persist r tag) fun _ => .refl _

end Schema

/-! ### Registries over time -/

namespace Registry

open Schema (Persist Loses)

/-- What a registry is asked to do. -/
inductive Request where
  | declare (tag : String) (rule : Rule)
  | climbing (operands : List String) (climb : Climb) (rule : Rule)
  | schema (tag : String) (d : Dialect)
  | validate
  deriving Repr

/-- The registry after a request. -/
def Request.run (r : Registry) : Request → Registry
  | declare tag rule => r.declare tag rule
  | climbing operands climb rule => r.climbing operands climb rule
  | schema tag d => (r.schema tag d).2
  | validate => r.validate.2

/-- The registry after requests, which is empty at first. -/
def after (requests : List Request) : Registry :=
  requests.foldl Request.run {}

theorem after_append (requests : List Request) (request : Request) :
    after (requests ++ [request]) = request.run (after requests) := by
  rw [after, List.foldl_append]
  rfl

theorem built_after (requests : List Request) : (after requests).Built := by
  induction requests using List.reverseRecOn with
  | nil => exact .empty
  | append_singleton requests request ih =>
      rw [after_append]
      cases request with
      | declare tag rule => exact ih.declare tag rule
      | climbing operands climb rule => exact ih.climbing operands climb rule
      | schema tag d => exact ih.schema tag d
      | validate => exact ih.compileAll _

variable {r : Registry} {tag : String} {d : Dialect} {known : Schema}

/-- The schema of a type as its rule compiles now. -/
def fresh (r : Registry) (tag : String) (d : Dialect) : Except Error Schema :=
  match r.type? tag with
  | none => .error (.grammar (.unknownType tag))
  | some nodeType => (Schema.compile r.types tag nodeType.rule d).mapError .grammar

/-- A schema that is not remembered is compiled. -/
theorem schema_eq_fresh (h : r.compiled.lookup (tag, d) = none) :
    (r.schema tag d).1 = r.fresh tag d := by
  cases htype : r.type? tag with
  | none => simp only [schema, fresh, htype]
  | some nodeType =>
      simp only [schema, fresh, htype, h]
      cases Schema.compile r.types tag nodeType.rule d with
      | error e => rfl
      | ok compiled => rfl

/-- A schema that is remembered is answered. -/
theorem schema_eq_known {nodeType : NodeType} (htype : r.type? tag = some nodeType)
    (h : r.compiled.lookup (tag, d) = some known) : (r.schema tag d).1 = .ok known := by
  simp only [schema, htype, h]

theorem lookup_compileAll {wanted : List (String × Dialect)}
    (h : (r.compileAll wanted).2.compiled.lookup (tag, d) = some known) :
    r.compiled.lookup (tag, d) = some known ∨
      ∃ nodeType, r.type? tag = some nodeType ∧
        Schema.compile r.types tag nodeType.rule d = .ok known := by
  induction wanted generalizing r with
  | nil => exact .inl h
  | cons asked rest ih =>
      have agrees := agrees_schema r asked.1 asked.2
      have hnew := @lookup_schema r tag asked.1 d asked.2 known
      rw [compileAll] at h
      rcases hs : r.schema asked.1 asked.2 with ⟨_ | schema, r'⟩ <;> rw [hs] at h agrees hnew
      · exact hnew h
      · rcases ih h with hlookup | ⟨nodeType, htype, hcompile⟩
        · exact hnew hlookup
        · exact .inr ⟨nodeType, (agrees.type? tag).symm.trans htype, agrees.types ▸ hcompile⟩

/-- Registered types stay registered. -/
theorem persist_run (r : Registry) (request : Request) : Persist r.types (request.run r).types := by
  have register : ∀ changed nodeType, Persist r.types (r.register changed nodeType).types := by
    intro changed nodeType tag htag
    change ((setType changed nodeType r.types).lookup tag).isSome = true
    rw [lookup_setType]
    split
    · rfl
    · exact htag
  cases request with
  | declare tag rule => exact register tag _
  | climbing operands climb rule => exact register climb.node _
  | schema tag d => exact (agrees_schema r tag d).types ▸ .refl _
  | validate => exact (agrees_compileAll r _).types ▸ .refl _

/-- A request leaves the types alone whose schemas it leaves remembered, and
compiles new ones from the types that are there. -/
theorem lookup_run {request : Request}
    (h : (request.run r).compiled.lookup (tag, d) = some known) :
    (request.run r).type? tag = r.type? tag ∧
      (r.compiled.lookup (tag, d) = some known ∨
        ∃ nodeType, r.type? tag = some nodeType ∧
          Schema.compile r.types tag nodeType.rule d = .ok known) := by
  have registered : ∀ changed nodeType,
      (r.register changed nodeType).compiled.lookup (tag, d) = some known →
      (r.register changed nodeType).type? tag = r.type? tag ∧
        r.compiled.lookup (tag, d) = some known := by
    intro changed nodeType hlookup
    have hkept := (lookup_forget changed r.compiled).symm.trans hlookup
    by_cases htag : tag = changed
    · rw [if_pos htag] at hkept
      cases hkept
    · rw [if_neg htag] at hkept
      exact ⟨type?_register.trans (if_neg htag), hkept⟩
  cases request with
  | declare changed rule => exact (registered changed _ h).imp_right .inl
  | climbing operands climb rule => exact (registered climb.node _ h).imp_right .inl
  | schema asked d' => exact ⟨(agrees_schema r asked d').type? tag, lookup_schema h⟩
  | validate => exact ⟨(agrees_compileAll r _).type? tag, lookup_compileAll h⟩

/-- A remembered schema was compiled at an earlier moment, from the rule that its
type still has. -/
theorem exists_earlier {requests : List Request}
    (h : (after requests).compiled.lookup (tag, d) = some known) :
    ∃ earlier nodeType, earlier <+: requests ∧ (after requests).type? tag = some nodeType ∧
      Schema.compile (after earlier).types tag nodeType.rule d = .ok known ∧
      Persist (after earlier).types (after requests).types := by
  induction requests using List.reverseRecOn with
  | nil => cases h
  | append_singleton requests request ih =>
      have persist := persist_run (after requests) request
      have hlonger : requests <+: requests ++ [request] := List.prefix_append _ _
      rw [after_append] at h ⊢
      obtain ⟨hsame, hlookup | ⟨nodeType, htype, hcompile⟩⟩ := lookup_run h
      · obtain ⟨earlier, nodeType, hearlier, htype, hcompile, hpersist⟩ := ih hlookup
        exact ⟨earlier, nodeType, hearlier.trans hlonger, hsame.trans htype, hcompile,
          hpersist.trans persist⟩
      · exact ⟨requests, nodeType, hlonger, hsame.trans htype, hcompile, persist⟩

/-- A schema is remembered that would no longer compile: its type climbs to nodes
of a type that had a field at an earlier moment and is without it now. -/
def Outdated (requests : List Request) (tag : String) (d : Dialect) : Prop :=
  ((after requests).compiled.lookup (tag, d)).isSome = true ∧
    ∃ path node field,
      (after requests).fresh tag d = .error (.grammar (.badClimb path node field)) ∧
      ∃ earlier, earlier <+: requests ∧
        Loses (after earlier).types (after requests).types node field

/-- A remembered schema is what its type compiles to now, or it is outdated. -/
theorem fresh_of_known {requests : List Request}
    (h : (after requests).compiled.lookup (tag, d) = some known) :
    (after requests).fresh tag d = .ok known ∨ Outdated requests tag d := by
  obtain ⟨earlier, nodeType, hearlier, htype, hcompile, persist⟩ := exists_earlier h
  have hfresh : (after requests).fresh tag d =
      (Schema.compile (after requests).types tag nodeType.rule d).mapError .grammar := by
    simp only [fresh, htype]
  rcases Schema.follows_compile persist tag nodeType.rule d known hcompile with
    hsame | ⟨path, node, field, hbad, hloses⟩
  · left
    rw [hfresh, hsame]
    rfl
  · right
    refine ⟨Option.isSome_of_eq_some h, path, node, field, ?_, earlier, hearlier, hloses⟩
    rw [hfresh, hbad]
    rfl

theorem schema_of_current {requests : List Request} (hcurrent : ¬ Outdated requests tag d) :
    ((after requests).schema tag d).1 = (after requests).fresh tag d := by
  cases hlookup : (after requests).compiled.lookup (tag, d) with
  | none => exact schema_eq_fresh hlookup
  | some known =>
      obtain ⟨-, nodeType, -, htype, -, -⟩ := exists_earlier hlookup
      rw [schema_eq_known htype hlookup]
      exact ((fresh_of_known hlookup).resolve_right hcurrent).symm

/-- After any requests, a schema that is asked for is the one that its type
compiles to now, unless an outdated one is remembered. -/
theorem schema_eq_fresh_iff (requests : List Request) (tag : String) (d : Dialect) :
    ((after requests).schema tag d).1 = (after requests).fresh tag d ↔
      ¬ Outdated requests tag d := by
  constructor
  · rintro hfresh ⟨hknown, path, node, field, hbad, -⟩
    obtain ⟨known, hlookup⟩ := Option.isSome_iff_exists.1 hknown
    obtain ⟨-, nodeType, -, htype, -, -⟩ := exists_earlier hlookup
    -- an answer cannot be the error that compiling gives now
    rw [schema_eq_known htype hlookup, hbad] at hfresh
    cases hfresh
  · exact schema_of_current

/-- Sums of names, then sums without fields, and what climbs to them in between. -/
def lostOperands : List Request :=
  [.declare "Name" ((Rule.tok [.identifier]).named "name"),
    .declare "Sum" (Rule.seq [(Rule.ofTypes ["Name"]).named "left",
      (Rule.tok [.operator]).named "operator", (Rule.ofTypes ["Name"]).named "right"]),
    .declare "Item"
      ((Rule.expr ["Name"] ⟨"Sum", "left", "operator", "right"⟩).named "value"),
    .schema "Item" .postgres,
    .declare "Sum" (Rule.kw "SUM")]

/-- The schema that was compiled with the fields is answered without them. -/
theorem lostOperands_outdated :
    ((after lostOperands).schema "Item" .postgres).1 ≠
      (after lostOperands).fresh "Item" .postgres := by
  have hschema : ((after lostOperands).schema "Item" .postgres).1.toOption.isSome = true := by
    decide +kernel
  have hfresh : ((after lostOperands).fresh "Item" .postgres).toOption.isSome = false := by
    decide +kernel
  intro h
  rw [h, hfresh] at hschema
  cases hschema

/-- A type that was registered just now has the schemas that it compiles to. -/
theorem schema_register (r : Registry) (tag : String) (nodeType : NodeType) (d : Dialect) :
    ((r.register tag nodeType).schema tag d).1 = (r.register tag nodeType).fresh tag d :=
  schema_eq_fresh ((lookup_forget tag r.compiled).trans (if_pos rfl))

/-- As long as no type loses a field, every schema is the one that its type
compiles to now. -/
theorem schema_eq_fresh_of_kept {requests : List Request}
    (kept : ∀ earlier node field, earlier <+: requests →
      ¬ Loses (after earlier).types (after requests).types node field)
    (tag : String) (d : Dialect) :
    ((after requests).schema tag d).1 = (after requests).fresh tag d := by
  apply schema_of_current
  rintro ⟨-, path, node, field, -, earlier, hearlier, hloses⟩
  exact kept earlier node field hearlier hloses

end Registry

end DualSql
