import DualSql.Proofs.Grammar.Paths
import DualSql.Proofs.Grammar.Setting

/-! # Parsed nodes and their shapes

What a match of a production adds are the fields of one of its shapes, in their
order; those that are missing need not be there. As a schema has all shapes of its
production, every node that is parsed by a schema has one of the shapes in it.

Main definitions: `FieldKind.Holds` and `Shape.FilledBy`. Main results:
`Production.exists_filled` and `Parsing.exists_shape_of_parseType`. -/

namespace DualSql

/-- The value of a field is what the field is to hold: a token of its kinds and
values, a node of its types, or a list of as many such nodes as it may have. -/
def FieldKind.Holds (f : Forest) : FieldKind → FieldValue → Prop
  | terminal kinds values, .terminal t =>
    ∃ token, t = .ofToken token ∧ Parsing.fits kinds values token = true
  | node types, .node id => f.IsOf types id
  | list types arity _, .list ids =>
    arity.admits ids.length = true ∧ ∀ id ∈ ids, f.IsOf types id
  | _, _ => False

/-- The items of a list in a field are different in the way that the field asks for. -/
def FieldKind.Different : FieldKind → Content → Prop
  | list _ _ singletons, .list items => singletons.Different items
  | _, _ => True

namespace Shape

/-- Fields fill a shape: they are fields of it in their order, each with a value
that it is to hold, and those that are missing need not be there. -/
inductive FilledBy (f : Forest) : Shape → Fields → Prop
  | nil : FilledBy f [] []
  | missing {field : FieldSchema} {shape : Shape} {fields : Fields}
      (hfield : field.optional = true ∨ field.condition.isSome = true)
      (hshape : FilledBy f shape fields) : FilledBy f (field :: shape) fields
  | present {field : FieldSchema} {shape : Shape} {fields : Fields} {value : FieldValue}
      (hvalue : field.kind.Holds f value)
      (hdifferent : field.kind.Different (value.content f.content))
      (hshape : FilledBy f shape fields) :
      FilledBy f (field :: shape) ((field.name, value) :: fields)

variable {f : Forest} {shape other : Shape} {fields more : Fields}

theorem filledBy_nil
    (h : ∀ field ∈ shape, field.optional = true ∨ field.condition.isSome = true) :
    shape.FilledBy f [] := by
  induction shape with
  | nil => exact .nil
  | cons field shape ih =>
      obtain ⟨hfield, hshape⟩ := List.forall_mem_cons.1 h
      exact .missing hfield (ih hshape)

namespace FilledBy

theorem append (h : shape.FilledBy f fields) (h' : other.FilledBy f more) :
    FilledBy f (shape ++ other) (fields ++ more) := by
  induction h with
  | nil => exact h'
  | missing hfield _ ih => exact .missing hfield ih
  | present hvalue hdifferent _ ih => exact .present hvalue hdifferent ih

theorem names (h : shape.FilledBy f fields) :
    (fields.map Prod.fst).Sublist (shape.map FieldSchema.name) := by
  induction h with
  | nil => exact .slnil
  | missing _ _ ih => exact ih.cons _
  | present _ _ _ ih => exact ih.cons_cons _

theorem required (h : shape.FilledBy f fields) :
    ∀ field ∈ shape.required, field.name ∈ fields.map Prod.fst := by
  induction h with
  | nil => simp [Shape.required]
  | @missing field shape fields hfield hshape ih =>
      intro needed hneeded
      obtain ⟨hmem, hmust⟩ := List.mem_filter.1 hneeded
      simp only [Bool.and_eq_true, Bool.not_eq_true', Option.isNone_iff_eq_none] at hmust
      rcases List.mem_cons.1 hmem with rfl | hmem
      · -- the field that is missing is optional or has a condition
        rcases hfield with hfield | hfield
        · rw [hmust.1] at hfield
          cases hfield
        · rw [hmust.2] at hfield
          cases hfield
      · exact ih needed (List.mem_filter.2 ⟨hmem, by simpa using hmust⟩)
  | present _ _ _ ih =>
      intro needed hneeded
      obtain ⟨hmem, hmust⟩ := List.mem_filter.1 hneeded
      rw [List.map_cons, List.mem_cons]
      rcases List.mem_cons.1 hmem with rfl | hmem
      · exact .inl rfl
      · exact .inr (ih needed (List.mem_filter.2 ⟨hmem, hmust⟩))

/-- What a field is to hold is said by the only field of its name in the shape. -/
theorem value (h : shape.FilledBy f fields) (hnodup : (shape.map FieldSchema.name).Nodup) :
    ∀ field ∈ shape, ∀ value, (field.name, value) ∈ fields →
      field.kind.Holds f value ∧ field.kind.Different (value.content f.content) := by
  induction h with
  | nil => simp
  | @missing field shape fields hfield hshape ih =>
      obtain ⟨hfresh, hnodup⟩ := List.nodup_cons.1 hnodup
      refine List.forall_mem_cons.2 ⟨fun value hmem => ?_, ih hnodup⟩
      exact absurd (hshape.names.subset (List.mem_map_of_mem hmem)) hfresh
  | @present field shape fields value hvalue hdifferent hshape ih =>
      obtain ⟨hfresh, hnodup⟩ := List.nodup_cons.1 hnodup
      refine List.forall_mem_cons.2 ⟨fun value' hmem => ?_, fun other hother value' hmem => ?_⟩
      · rcases List.mem_cons.1 hmem with heq | hmem
        · cases heq
          exact ⟨hvalue, hdifferent⟩
        · exact absurd (hshape.names.subset (List.mem_map_of_mem hmem)) hfresh
      · rcases List.mem_cons.1 hmem with heq | hmem
        · obtain ⟨hname, -⟩ := Prod.mk.inj heq
          exact absurd (hname ▸ List.mem_map_of_mem hother) hfresh
        · exact ih hnodup other hother value' hmem

theorem holds (h : shape.FilledBy f fields) (hnodup : (shape.map FieldSchema.name).Nodup) :
    ∀ field ∈ shape, ∀ value, (field.name, value) ∈ fields → field.kind.Holds f value :=
  fun field hfield value hmem => (h.value hnodup field hfield value hmem).1

end FilledBy

end Shape

namespace Production

open Schema

variable {f : Forest}

/-- The fields of an optional production are optional. -/
theorem HasField.isOptional (p : Production) {optional : Bool} {condition : Option Condition}
    {field : FieldSchema} (h : p.HasField optional condition field)
    (hoptional : (optional || p.attrs.optional) = true) : field.optional = true := by
  rcases h.own_or_part with ⟨-, kind, -, heq⟩ | ⟨q, hq, hhas⟩
  · rw [heq]
    exact hoptional
  · exact isOptional q hhas (by rw [hoptional, Bool.true_or])
termination_by sizeOf p
decreasing_by exact sizeOf_lt_of_mem_parts hq

/-- The fields of a production with a condition have a condition. -/
theorem HasField.isConditional (p : Production) {optional : Bool} {condition : Option Condition}
    {field : FieldSchema} (h : p.HasField optional condition field)
    (hcondition : (p.attrs.condition.or condition).isSome = true) :
    field.condition.isSome = true := by
  rcases h.own_or_part with ⟨-, kind, -, heq⟩ | ⟨q, hq, hhas⟩
  · rw [heq]
    exact hcondition
  · exact isConditional q hhas (by rw [Option.isSome_or, hcondition, Bool.or_true])
termination_by sizeOf p
decreasing_by exact sizeOf_lt_of_mem_parts hq

theorem fieldShapes_ne_nil (info : RuleInfo) (optional : Bool) (condition : Option Condition)
    (kind : FieldKind) : fieldShapes info optional condition kind ≠ [] := by
  unfold fieldShapes
  split <;> simp

mutual

/-- Every production that is left of a rule has a shape. -/
theorem shapesOf_ne_nil : (p : Production) → {path : String} → p.Placed path →
    (optional : Bool) → (condition : Option Condition) → shapesOf optional condition p ≠ []
  | token info kinds values, _, _, _, _ => fieldShapes_ne_nil _ _ _ _
  | node info types climb, _, _, _, _ => fieldShapes_ne_nil _ _ _ _
  | sequence info parts, _, h, optional, condition => by
      rw [shapesOf]
      exact sequenceShapes_ne_nil parts h.2 _ _
  | alternatives info branches, _, h, optional, condition => by
      rw [shapesOf]
      split
      · exact fieldShapes_ne_nil _ _ _ _
      next hnone =>
        exact branchShapes_ne_nil branches h.2.1
          (h.2.2 (Option.not_isSome_iff_eq_none.1 hnone)) _ _
  | block info bracket inner, _, h, optional, condition => by
      rw [shapesOf]
      exact shapesOf_ne_nil inner h.2 _ _

theorem branchShapes_ne_nil : (branches : List Production) → {path : String} → {index : Nat} →
    branches ≠ [] → PlacedAll path index branches → (optional : Bool) →
    (condition : Option Condition) → branchShapes optional condition branches ≠ []
  | [], _, _, hsome, _, _, _ => absurd rfl hsome
  | p :: rest, _, _, _, ⟨_, _, h, _⟩, optional, condition => by
      rw [branchShapes]
      exact List.append_ne_nil_of_left_ne_nil (shapesOf_ne_nil p h optional condition) _

theorem sequenceShapes_ne_nil : (parts : List Production) → {path : String} → {index : Nat} →
    PlacedAll path index parts → (optional : Bool) → (condition : Option Condition) →
    sequenceShapes optional condition parts ≠ []
  | [], _, _, _, _, _ => by simp [sequenceShapes]
  | p :: rest, _, _, ⟨_, _, h, hrest⟩, optional, condition => by
      obtain ⟨head, hhead⟩ := List.exists_mem_of_ne_nil _ (shapesOf_ne_nil p h optional condition)
      obtain ⟨tail, htail⟩ :=
        List.exists_mem_of_ne_nil _ (sequenceShapes_ne_nil rest hrest optional condition)
      apply List.ne_nil_of_mem (a := head ++ tail)
      simp only [sequenceShapes, List.mem_flatMap, List.mem_map]
      exact ⟨head, hhead, tail, htail, rfl⟩

end

/-- A production that is passed over leaves the fields of its shapes out. -/
theorem exists_filled_nil {p : Production} {path : String} {optional : Bool}
    {condition : Option Condition} (hplaced : p.Placed path)
    (h : p.attrs.optional = true ∨ p.attrs.condition.isSome = true) :
    ∃ shape ∈ shapesOf optional condition p, shape.FilledBy f [] := by
  obtain ⟨shape, hshape⟩ :=
    List.exists_mem_of_ne_nil _ (shapesOf_ne_nil p hplaced optional condition)
  refine ⟨shape, hshape, Shape.filledBy_nil fun field hfield => ?_⟩
  have hhas : p.HasField optional condition field := ⟨shape, hshape, hfield⟩
  rcases h with h | h
  · left
    exact hhas.isOptional p (by rw [h, Bool.or_true])
  · right
    exact hhas.isConditional p (by rw [Option.isSome_or, h, Bool.true_or])

/-- A production with a field of its own is filled by a value of its kind. -/
theorem filledBy_own {info : RuleInfo} {kind : FieldKind} {name : String} {value : FieldValue}
    {optional : Bool} {condition : Option Condition} (hname : info.attrs.name = some name)
    (hvalue : kind.Holds f value) (hdifferent : kind.Different (value.content f.content)) :
    ∃ shape ∈ fieldShapes info optional condition kind, shape.FilledBy f [(name, value)] := by
  refine ⟨[⟨name, info.path, kind, optional, condition⟩], ?_, .present hvalue hdifferent .nil⟩
  rw [fieldShapes, hname]
  exact List.mem_singleton_self _

/-- A token fills the field of a production, if there is one. -/
theorem filledBy_token {info : RuleInfo} {kinds : List TokenKind} {values : List String}
    {t : Token} {optional : Bool} {condition : Option Condition}
    (hfits : Parsing.fits kinds values t = true) :
    ∃ shape ∈ fieldShapes info optional condition (.terminal kinds values),
      shape.FilledBy f (info.attrs.name.map fun name => (name, .terminal (.ofToken t))).toList := by
  cases hname : info.attrs.name with
  | some name => exact filledBy_own hname ⟨t, rfl, hfits⟩ trivial
  | none =>
      refine ⟨[], ?_, .nil⟩
      rw [fieldShapes, hname]
      exact List.mem_singleton_self _

/-- A token that fits a branch fits the field of all branches. -/
theorem fits_plainKind {branches : List Production} {p : Production} {kinds : List TokenKind}
    {values : List String} {t : Token} (hp : p ∈ branches)
    (htoken : p.token? = some (kinds, values)) (hfits : Parsing.fits kinds values t = true) :
    ∃ kinds' values', plainKind branches = .terminal kinds' values' ∧
      Parsing.fits kinds' values' t = true := by
  refine ⟨_, _, rfl, ?_⟩
  have hmem : (kinds, values) ∈ branches.filterMap token? := List.mem_filterMap.2 ⟨p, hp, htoken⟩
  rw [Parsing.fits, Bool.and_eq_true, List.contains_iff_mem] at hfits ⊢
  refine ⟨mem_pooled.2 (.inr ⟨_, hmem, hfits.1⟩), ?_⟩
  split
  · rfl
  next hvalues =>
    have hsome : values.isEmpty = false := by
      rw [List.any_eq_true] at hvalues
      exact Bool.eq_false_iff.2 fun hempty => hvalues ⟨_, hmem, hempty⟩
    rw [hsome, Bool.false_or] at hfits
    obtain ⟨v, hv, his⟩ := List.any_eq_true.1 hfits.2
    rw [Bool.or_eq_true]
    right
    exact List.any_eq_true.2 ⟨v, List.mem_flatMap.2 ⟨_, hmem, hv⟩, his⟩

theorem mem_branchShapes {branches : List Production} {p : Production} {optional : Bool}
    {condition : Option Condition} {shape : Shape} (hp : p ∈ branches)
    (hshape : shape ∈ shapesOf optional condition p) :
    shape ∈ branchShapes optional condition branches := by
  induction branches with
  | nil => cases hp
  | cons q rest ih =>
      rw [branchShapes, List.mem_append]
      rcases List.mem_cons.1 hp with rfl | hp
      · exact .inl hshape
      · exact .inr (ih hp)

mutual

/-- What a production adds fills one of its shapes. -/
theorem exists_filled : {p : Production} → {before more : Fields} → Adds f p before more →
    {path : String} → p.Placed path → (optional : Bool) → (condition : Option Condition) →
    ∃ shape ∈ shapesOf optional condition p, shape.FilledBy f more
  | p, _, _, .skipped happlies, _, hplaced, optional, condition => by
      apply exists_filled_nil hplaced
      right
      rw [applies] at happlies
      cases hc : p.attrs.condition with
      | none => simp [hc] at happlies
      | some c => rfl
  | _, _, _, .omitted hoptional, _, hplaced, optional, condition =>
      exists_filled_nil hplaced (.inl hoptional)
  | _, _, _, .matched _ hmatches, _, hplaced, optional, condition =>
      exists_filled_matches hmatches hplaced optional condition

theorem exists_filled_matches : {p : Production} → {before more : Fields} →
    Matches f p before more → {path : String} → p.Placed path → (optional : Bool) →
    (condition : Option Condition) → ∃ shape ∈ shapesOf optional condition p, shape.FilledBy f more
  | _, _, _, .token hfits, _, _, _, _ => filledBy_token hfits
  | _, _, _, .tokens hnamed hp htoken hfits, _, _, _, _ => by
      obtain ⟨kinds, values, hkind, hfits⟩ := fits_plainKind hp htoken hfits
      rw [shapesOf, if_pos hnamed, hkind]
      exact filledBy_token hfits
  | _, _, _, .node hname harity hid, _, _, _, _ => by
      rw [shapesOf, harity]
      exact filledBy_own hname hid trivial
  | _, _, _, .list hname harity hlength hids hdifferent, _, _, _, _ => by
      rw [shapesOf, harity]
      exact filledBy_own hname ⟨hlength, hids⟩ hdifferent
  | _, _, _, .sequence hparts, _, hplaced, optional, condition => by
      rw [shapesOf]
      exact exists_filled_all hparts hplaced.2 _ _
  | _, _, _, .branch hname hp hadds, _, hplaced, optional, condition => by
      obtain ⟨i, -, hplaced⟩ := exists_placed (hplaced.2.2 hname) hp
      rw [shapesOf, if_neg (by simp [hname])]
      obtain ⟨shape, hshape, hfilled⟩ := exists_filled hadds hplaced _ _
      exact ⟨shape, mem_branchShapes hp hshape, hfilled⟩
  | _, _, _, .block hinner, _, hplaced, optional, condition => by
      rw [shapesOf]
      exact exists_filled hinner hplaced.2 _ _

theorem exists_filled_all : {parts : List Production} → {before more : Fields} →
    AddsAll f parts before more → {path : String} → {index : Nat} →
    PlacedAll path index parts → (optional : Bool) → (condition : Option Condition) →
    ∃ shape ∈ sequenceShapes optional condition parts, shape.FilledBy f more
  | _, _, _, .nil, _, _, _, _, _ => ⟨[], by simp [sequenceShapes], .nil⟩
  | _, _, _, .cons hfirst hothers, _, _, ⟨_, _, hplaced, hrest⟩, optional, condition => by
      obtain ⟨head, hhead, hfilled⟩ := exists_filled hfirst hplaced optional condition
      obtain ⟨tail, htail, hfilled'⟩ := exists_filled_all hothers hrest optional condition
      refine ⟨head ++ tail, ?_, hfilled.append hfilled'⟩
      simp only [sequenceShapes, List.mem_flatMap, List.mem_map]
      exact ⟨head, hhead, tail, htail, rfl⟩

end

end Production

namespace Parsing

open Production

variable {options : ParseOptions} {fuel : Nat} {tag : String} {s s' : ParseState} {id : NodeId}

/-- A node that is parsed was made of what the production of its type adds. -/
theorem adds_of_parseType (requests : List Registry.Request) (hl : s.forest.Linked)
    (hregistry : s.registry = .after requests)
    (h : parseType options fuel tag s = (.ok (some id), s')) :
    ∃ schema root, ((Registry.after requests).schema tag options.dialect).1 = .ok schema ∧
      schema.root = some root ∧ root.Placed tag ∧
      (∀ shape, shape ∈ schema.shapes ↔ shape ∈ Schema.shapesOf false none root) ∧
      (∀ shape ∈ schema.shapes, (shape.map FieldSchema.name).Nodup) ∧
      s'.forest.tag id = tag ∧ Adds s'.forest root [] (s'.forest.fields id) := by
  have agrees : (Registry.after requests).Agrees s.registry := by
    rw [hregistry]
    exact .refl _
  obtain ⟨schema, root, hschema, hroot, htag, hadds⟩ :=
    (conveys (Registry.titled_after requests) options fuel).type hl agrees h
  obtain ⟨nodeType, catalog, -, hcompile⟩ :=
    (Registry.built_after requests).exists_compile hschema
  obtain ⟨⟨seen, hcut⟩, -⟩ := Schema.root_of_compile hcompile hroot
  exact ⟨schema, root, hschema, hroot, Schema.placed_of_cut _ hcut,
    Schema.mem_shapes_iff hcompile hroot,
    fun shape hshape => (Schema.fields_of_compile hcompile hshape).1, htag, hadds⟩

/-- Every node that is parsed by a schema has a shape of the schema: its fields are
different fields of the shape in their order, all that are required are there, and
each holds what it is to hold. -/
theorem exists_shape_of_parseType (requests : List Registry.Request) (source : Source)
    (forest : Forest) (hl : forest.Linked)
    (h : parseType options fuel tag ⟨source, forest, .after requests⟩ = (.ok (some id), s')) :
    s'.forest.tag id = tag ∧
      ∃ schema, ((Registry.after requests).schema tag options.dialect).1 = .ok schema ∧
        ∃ shape ∈ schema.shapes,
          ((s'.forest.fields id).map Prod.fst).Sublist (shape.map FieldSchema.name) ∧
          ((s'.forest.fields id).map Prod.fst).Nodup ∧
          (∀ field ∈ shape.required, field.name ∈ (s'.forest.fields id).map Prod.fst) ∧
          ∀ field ∈ shape, ∀ value, (field.name, value) ∈ s'.forest.fields id →
            field.kind.Holds s'.forest value := by
  obtain ⟨schema, root, hschema, -, hplaced, hshapes, hnodup, htag, hadds⟩ :=
    adds_of_parseType requests hl rfl h
  obtain ⟨shape, hshape, hfilled⟩ := exists_filled hadds hplaced false none
  have hmem := (hshapes shape).2 hshape
  exact ⟨htag, schema, hschema, shape, hmem, hfilled.names,
    hfilled.names.nodup (hnodup shape hmem), hfilled.required, hfilled.holds (hnodup shape hmem)⟩

/-- A type with a list, an optional token and alternatives that are told apart by a
condition. -/
def listGrammar : List Registry.Request :=
  [.declare "Name" ((Rule.tok [.identifier]).named "name"),
    .declare "Row" (Rule.seq [((Rule.ofTypes ["Name"]).named "names").many ",",
      ((Rule.tok [.numberLiteral]).named "count").optional,
      Rule.alt [
        ((Rule.tok [.stringLiteral]).named "note").onlyIf (.present "count"),
        Rule.kw "END"]]),
    .schema "Row" .postgres]

/-- The parse of a row with two names and without a count. -/
def rowRead : Except Error (Option NodeId) × ParseState :=
  parseType { dialect := .postgres } 40 "Row"
    ⟨.ofChunks .postgres (.ofDialect .postgres) ["a, b end"], { dialect := .postgres },
      .after listGrammar⟩

theorem row_shaped : rowRead.1.toOption = some (some 2) ∧
    ∃ schema, ((Registry.after listGrammar).schema "Row" .postgres).1 = .ok schema ∧
      ∃ shape ∈ schema.shapes,
        ((rowRead.2.forest.fields 2).map Prod.fst).Sublist (shape.map FieldSchema.name) := by
  have hread : rowRead.1.toOption = some (some 2) := by decide +kernel
  obtain ⟨-, schema, hschema, shape, hshape, hnames, -⟩ :=
    exists_shape_of_parseType listGrammar _ _ (Forest.closed_empty .postgres).linked
      (ok_of_toOption hread)
  exact ⟨hread, schema, hschema, shape, hshape, hnames⟩

end Parsing

end DualSql
