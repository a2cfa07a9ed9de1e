import DualSql.Grammar.Standard
import DualSql.Grammar.Structured
import DualSql.Proofs.Grammar.Conforming
import DualSql.Proofs.Lookup
import DualSql.Proofs.Vocabulary

/-! # Conditions in parsing and in reading

A match asks whether a condition holds when it comes to the production, given the
fields set before. Reading a structured node asks for each field of a shape whether
the condition of the field holds, given all fields of the node. A shape has one
condition for a field, the innermost, and a field that is asked for may be set later.
Where neither of the two happens, no production with a condition inside another one
and no field behind one that asks for it, both ways of asking give the same: every
node that is parsed is accepted by the reader's test on the fields of a shape.

Main definitions: `Shape.accepts`, `Production.isUnnested` and `Shape.isOrdered`.
Main results: `Structured.accepts_eq`, which says that the test is that of the
reader, and `Parsing.exists_accepting`. -/

namespace DualSql

/-! ### The test of the reader -/

namespace Shape

/-- The reader's test on the names of the fields of a node: every name is that of a
field, a field that is there applies, and one that is missing is optional or does
not apply. -/
def accepts (shape : Shape) (names : List String) : Bool :=
  (names.all fun name => (shape.field? name).isSome) &&
  shape.all fun field =>
    let applies := field.condition.all (·.holds names.contains)
    if names.contains field.name then applies else field.optional || !applies

end Shape

namespace Structured

open Fallible

/-- The names that a shape looks for in an object. -/
def lookedFor (shape : Shape) : List String :=
  shape.flatMap fun field => field.name :: field.dependencies

/-- What reading the fields of a shape asks of a field, before it reads its value. -/
def admits (members : List (String × Json)) (field : FieldSchema) : Bool :=
  if (members.lookup field.name).isSome then applies field members
  else field.optional || !applies field members

/-- The test is that of reading: that every member has a field, and what reading the
fields asks of each of them. -/
theorem accepts_eq {shape : Shape} {names : List String} {members : List (String × Json)}
    (hnode : nodeName ∉ lookedFor shape) (hnames : nodeName ∉ names)
    (hmembers : ∀ name, name ∈ members.map Prod.fst ↔ name = nodeName ∨ name ∈ names) :
    shape.accepts names = (isCovered shape members && shape.all (admits members)) := by
  have hlookup : ∀ name ∈ lookedFor shape, (members.lookup name).isSome = names.contains name := by
    intro name hname
    have hne : name ≠ nodeName := fun heq => hnode (heq ▸ hname)
    rw [Bool.eq_iff_iff, isSome_lookup_iff, hmembers, List.contains_iff_mem]
    simp [hne]
  have hcovered : isCovered shape members =
      names.all fun name => (shape.field? name).isSome := by
    rw [Bool.eq_iff_iff, isCovered, List.all_eq_true, List.all_eq_true]
    constructor
    · intro h name hname
      obtain ⟨m, hm, rfl⟩ := List.mem_map.1 ((hmembers name).2 (.inr hname))
      have hfield := h m hm
      rw [Bool.or_eq_true, beq_iff_eq] at hfield
      exact hfield.resolve_left fun heq => hnames (heq ▸ hname)
    · intro h m hm
      rw [Bool.or_eq_true, beq_iff_eq]
      exact ((hmembers m.1).1 (List.mem_map_of_mem hm)).imp_right (h m.1)
  have happlies : ∀ field ∈ shape,
      applies field members = field.condition.all (·.holds names.contains) := by
    intro field hfield
    rw [applies]
    cases hc : field.condition with
    | none => rfl
    | some c =>
        have hasked : c.field ∈ lookedFor shape := by
          refine List.mem_flatMap.2 ⟨field, hfield, List.mem_cons_of_mem _ ?_⟩
          simp [FieldSchema.dependencies, hc]
        cases c with
        | present name => exact hlookup name hasked
        | absent name => exact congrArg (!·) (hlookup name hasked)
  rw [Shape.accepts, hcovered]
  congr 1
  rw [Bool.eq_iff_iff, List.all_eq_true, List.all_eq_true]
  refine forall₂_congr fun field hfield => ?_
  have hname : field.name ∈ lookedFor shape :=
    List.mem_flatMap.2 ⟨field, hfield, List.mem_cons_self⟩
  rw [admits, hlookup _ hname, happlies field hfield]

variable {d : Dialect} {child : List String → Json → Structured (Option NodeId)}
  {members : List (String × Json)} {shape : Shape}

/-- Fields are read only from an object that the fields of the shape admit. -/
theorem admits_of_readFields {fields fields' : Fields} {s s' : ReadState}
    (h : readFields d child members fields shape s = (.ok (some fields'), s')) :
    shape.all (admits members) = true := by
  induction shape generalizing fields s with
  | nil => rfl
  | cons field rest ih =>
      rw [List.all_cons, Bool.and_eq_true, admits]
      rw [readFields] at h
      cases hvalue : members.lookup field.name with
      | none =>
          simp only [hvalue] at h
          split at h
          next hskip => exact ⟨by simpa using hskip, ih h⟩
          next => simp [pure_eq_ok] at h
      | some value =>
          simp only [hvalue] at h
          split at h
          · simp [pure_eq_ok] at h
          next happlies =>
            simp only [bind_eq_ok] at h
            obtain ⟨v, s₁, -, h⟩ := h
            cases v with
            | none => simp [pure_eq_ok] at h
            | some v => exact ⟨by simpa using happlies, ih h⟩

/-- From an object that the fields of the shape admit the fields are read, if their
values are. -/
theorem exists_readFields (hadmits : shape.all (admits members) = true)
    (hread : ∀ field ∈ shape, ∀ value, members.lookup field.name = some value →
      ∀ s, ∃ v s', readValue d child field.kind value s = (.ok (some v), s'))
    (fields : Fields) (s : ReadState) :
    ∃ fields' s', readFields d child members fields shape s = (.ok (some fields'), s') := by
  induction shape generalizing fields s with
  | nil => exact ⟨fields, s, rfl⟩
  | cons field rest ih =>
      rw [List.all_cons, Bool.and_eq_true, admits] at hadmits
      obtain ⟨hfield, hrest⟩ := hadmits
      obtain ⟨hfirst, hothers⟩ := List.forall_mem_cons.1 hread
      rw [readFields]
      cases hvalue : members.lookup field.name with
      | none =>
          rw [hvalue] at hfield
          simp only [Option.isSome_none, Bool.false_eq_true, if_false] at hfield
          simp only [hfield, if_true]
          exact ih hrest hothers fields s
      | some value =>
          rw [hvalue] at hfield
          simp only [Option.isSome_some, if_true] at hfield
          obtain ⟨v, s₁, hv⟩ := hfirst value hvalue s
          simp only [hfield, Bool.not_true, Bool.false_eq_true, if_false]
          rw [bind_of_ok hv]
          exact ih hrest hothers _ s₁

end Structured

/-! ### Conditions that are told by the fields of a node -/

/-- Whether a field applies, given the fields set so far. -/
def FieldSchema.holdsOn (field : FieldSchema) (fields : Fields) : Bool :=
  field.condition.all (·.holds fun name => (fields.lookup name).isSome)

/-- A condition holds as before while the field that it asks for is not set. -/
theorem Condition.holds_append {c : Condition} {before more : Fields}
    (h : c.field ∉ more.map Prod.fst) :
    (c.holds fun name => ((before ++ more).lookup name).isSome) =
      c.holds fun name => (before.lookup name).isSome := by
  have hnone : more.lookup c.field = none := by
    rw [← Option.not_isSome_iff_eq_none, isSome_lookup_iff]
    exact h
  cases c with
  | present name =>
      simp only [Condition.holds, Condition.field] at hnone ⊢
      rw [List.lookup_append, hnone, Option.or_none]
  | absent name =>
      simp only [Condition.holds, Condition.field] at hnone ⊢
      rw [List.lookup_append, hnone, Option.or_none]

namespace Shape

/-- No field asks for itself or for a field behind it. -/
def isOrdered : Shape → Bool
  | [] => true
  | field :: rest =>
    (field.condition.all fun c => !((field :: rest).map FieldSchema.name).contains c.field) &&
      isOrdered rest

/-- The fields of a shape that are set apply where they are set, and those that are
missing are optional or do not apply where they would be set. -/
inductive Told : Fields → Shape → Fields → Prop
  | nil {before : Fields} : Told before [] []
  | missing {before fields : Fields} {field : FieldSchema} {shape : Shape}
      (hfield : field.optional = true ∨ field.holdsOn before = false)
      (hshape : Told before shape fields) : Told before (field :: shape) fields
  | present {before fields : Fields} {field : FieldSchema} {shape : Shape} {value : FieldValue}
      (hfield : field.holdsOn before = true)
      (hshape : Told (before ++ [(field.name, value)]) shape fields) :
      Told before (field :: shape) ((field.name, value) :: fields)

variable {before fields more : Fields} {shape other : Shape}

theorem told_nil
    (h : ∀ field ∈ shape, field.optional = true ∨ field.holdsOn before = false) :
    Told before shape [] := by
  induction shape with
  | nil => exact .nil
  | cons field shape ih =>
      obtain ⟨hfield, hshape⟩ := List.forall_mem_cons.1 h
      exact .missing hfield (ih hshape)

theorem isOrdered_append (h : isOrdered (shape ++ other) = true) :
    shape.isOrdered = true ∧ other.isOrdered = true := by
  induction shape with
  | nil => exact ⟨rfl, h⟩
  | cons field shape ih =>
      rw [List.cons_append, isOrdered, Bool.and_eq_true] at h
      obtain ⟨hshape, hother⟩ := ih h.2
      refine ⟨?_, hother⟩
      rw [isOrdered, hshape, Bool.and_true]
      cases hc : field.condition with
      | none => rfl
      | some c =>
          have hfield := h.1
          rw [hc] at hfield
          simp only [Option.all_some, Bool.not_eq_true', List.contains_eq_mem,
            decide_eq_false_iff_not, List.map_cons, List.map_append, List.mem_cons,
            List.mem_append, not_or] at hfield ⊢
          exact ⟨hfield.1, hfield.2.1⟩

namespace Told

theorem names (h : Told before shape fields) :
    (fields.map Prod.fst).Sublist (shape.map FieldSchema.name) := by
  induction h with
  | nil => exact .slnil
  | missing _ _ ih => exact ih.cons _
  | present _ _ ih => exact ih.cons_cons _

theorem append (h : Told before shape fields) (h' : Told (before ++ fields) other more) :
    Told before (shape ++ other) (fields ++ more) := by
  induction h with
  | nil => simpa using h'
  | missing hfield _ ih => exact .missing hfield (ih h')
  | present hfield _ ih => exact .present hfield (ih (by simpa using h'))

/-- In an ordered shape a condition holds on the whole node where it held on the
fields before. -/
theorem holdsOn_append {field : FieldSchema} (hordered : isOrdered (field :: shape) = true)
    (hfields : fields.map Prod.fst ⊆ (field :: shape).map FieldSchema.name) :
    field.holdsOn (before ++ fields) = field.holdsOn before := by
  rw [isOrdered, Bool.and_eq_true] at hordered
  rw [FieldSchema.holdsOn, FieldSchema.holdsOn]
  cases hc : field.condition with
  | none => rfl
  | some c =>
      have hbehind : c.field ∉ (field :: shape).map FieldSchema.name := by
        have := hordered.1
        rw [hc] at this
        simpa using this
      exact Condition.holds_append fun hmem => hbehind (hfields hmem)

/-- Every field of an ordered shape is told by the whole node. -/
theorem whole (h : Told before shape fields) (hordered : shape.isOrdered = true)
    (hnodup : (shape.map FieldSchema.name).Nodup) :
    ∀ field ∈ shape, (field.name ∈ fields.map Prod.fst ∧ field.holdsOn (before ++ fields) = true) ∨
      (field.name ∉ fields.map Prod.fst ∧
        (field.optional = true ∨ field.holdsOn (before ++ fields) = false)) := by
  induction h with
  | nil => simp
  | @missing before fields field shape hfield hshape ih =>
      obtain ⟨hfresh, hnodup⟩ := List.nodup_cons.1 hnodup
      have hsub := hshape.names.subset
      have hsame : field.holdsOn (before ++ fields) = field.holdsOn before :=
        holdsOn_append hordered fun name hname => List.mem_cons_of_mem _ (hsub hname)
      rw [isOrdered, Bool.and_eq_true] at hordered
      refine List.forall_mem_cons.2 ⟨.inr ⟨fun hmem => hfresh (hsub hmem), ?_⟩,
        ih hordered.2 hnodup⟩
      rw [hsame]
      exact hfield
  | @present before fields field shape value hfield hshape ih =>
      obtain ⟨hfresh, hnodup⟩ := List.nodup_cons.1 hnodup
      have hsub := hshape.names.subset
      have hsame : field.holdsOn (before ++ (field.name, value) :: fields) = field.holdsOn before :=
        holdsOn_append hordered (List.cons_subset_cons _ hsub)
      rw [isOrdered, Bool.and_eq_true] at hordered
      refine List.forall_mem_cons.2 ⟨.inl ⟨List.mem_cons_self, hsame.trans hfield⟩,
        fun other hother => ?_⟩
      have hne : other.name ≠ field.name := fun heq =>
        hfresh (heq ▸ List.mem_map_of_mem hother)
      have htold := ih hordered.2 hnodup other hother
      rw [List.append_assoc, List.singleton_append] at htold
      simpa [hne] using htold

/-- A node whose fields tell an ordered shape is accepted by it. -/
theorem accepts (h : Told [] shape fields) (hordered : shape.isOrdered = true)
    (hnodup : (shape.map FieldSchema.name).Nodup) :
    shape.accepts (fields.map Prod.fst) = true := by
  have hcontains : (fields.map Prod.fst).contains = fun name => (fields.lookup name).isSome := by
    funext name
    rw [Bool.eq_iff_iff, List.contains_iff_mem, isSome_lookup_iff]
  rw [Shape.accepts, Bool.and_eq_true, List.all_eq_true, List.all_eq_true]
  constructor
  · intro name hname
    obtain ⟨field, hfield, heq⟩ := List.mem_map.1 (h.names.subset hname)
    rw [Shape.field?, List.find?_isSome]
    exact ⟨field, hfield, beq_iff_eq.2 heq⟩
  · intro field hfield
    have hwhole := h.whole hordered hnodup field hfield
    rw [List.nil_append] at hwhole
    dsimp only
    rw [show (field.condition.all fun c => c.holds (fields.map Prod.fst).contains) =
      field.holdsOn fields by rw [hcontains]; rfl]
    rcases hwhole with ⟨hmem, happlies⟩ | ⟨hmem, hmissing⟩
    · rw [if_pos (List.contains_iff_mem.2 hmem)]
      exact happlies
    · rw [if_neg (by rwa [List.contains_iff_mem])]
      simpa using hmissing

end Told

end Shape

/-! ### Conditions of productions -/

namespace Production

open Schema

mutual

/-- Whether no production with a condition is inside another one. -/
def isUnnested : Production → Bool
  | token .. | node .. => true
  | sequence info parts =>
    (info.attrs.condition.isNone || (asksAll parts).isEmpty) && areUnnested parts
  | alternatives info branches =>
    info.attrs.name.isSome ||
      ((info.attrs.condition.isNone || (asksAll branches).isEmpty) && areUnnested branches)
  | block info _ inner =>
    (info.attrs.condition.isNone || inner.asks.isEmpty) && inner.isUnnested

/-- Whether this is so in each of several productions. -/
def areUnnested : List Production → Bool
  | [] => true
  | p :: rest => p.isUnnested && areUnnested rest

end

variable {p q : Production} {ps : List Production}

theorem isUnnested_of_mem (h : areUnnested ps = true) (hq : q ∈ ps) : q.isUnnested = true := by
  induction ps with
  | nil => cases hq
  | cons p rest ih =>
      rw [areUnnested, Bool.and_eq_true] at h
      rcases List.mem_cons.1 hq with rfl | hq
      · exact h.1
      · exact ih h.2 hq

theorem asks_of_mem (h : asksAll ps = []) (hq : q ∈ ps) : q.asks = [] := by
  induction ps with
  | nil => cases hq
  | cons p rest ih =>
      rw [asksAll, List.append_eq_nil_iff] at h
      rcases List.mem_cons.1 hq with rfl | hq
      · exact h.1
      · exact ih h.2 hq

/-- The parts of a production that asks for nothing ask for nothing. -/
theorem asks_parts (h : p.asks = []) : p.attrs.condition = none ∧ asksAll p.parts = [] := by
  have hnone : ∀ {c : Option Condition}, (c.map Condition.field).toList = [] → c = none := by
    intro c hc
    cases c with
    | none => rfl
    | some c => cases hc
  cases p with
  | token | node => exact ⟨hnone h, rfl⟩
  | sequence info parts =>
      rw [asks, List.append_eq_nil_iff] at h
      exact ⟨hnone h.1, h.2⟩
  | alternatives info branches =>
      rw [asks, List.append_eq_nil_iff] at h
      refine ⟨hnone h.1, ?_⟩
      rw [parts]
      split
      · rfl
      · exact h.2
  | block info bracket inner =>
      rw [asks, List.append_eq_nil_iff] at h
      exact ⟨hnone h.1, by rw [parts, asksAll, h.2]; rfl⟩

/-- Inside a production with a condition nothing more is asked for. -/
theorem unnested_parts (h : p.isUnnested = true) :
    (p.attrs.condition.isSome = true → asksAll p.parts = []) ∧ areUnnested p.parts = true := by
  have hempty : ∀ {c : Option Condition} {names : List String},
      (c.isNone || names.isEmpty) = true → c.isSome = true → names = [] := by
    intro c names hor hsome
    cases c with
    | none => cases hsome
    | some c => simpa using hor
  cases p with
  | token | node => exact ⟨fun _ => rfl, rfl⟩
  | sequence info parts =>
      rw [isUnnested, Bool.and_eq_true] at h
      exact ⟨hempty h.1, h.2⟩
  | alternatives info branches =>
      rw [isUnnested] at h
      rw [parts]
      split
      · exact ⟨fun _ => rfl, rfl⟩
      next hnone =>
        rw [Bool.not_eq_true] at hnone
        rw [hnone, Bool.false_or, Bool.and_eq_true] at h
        exact ⟨hempty h.1, h.2⟩
  | block info bracket inner =>
      rw [isUnnested, Bool.and_eq_true] at h
      refine ⟨fun hsome => ?_, ?_⟩
      · rw [parts, asksAll, hempty h.1 hsome]
        rfl
      · rw [parts, areUnnested, h.2]
        rfl

/-- The fields of a production without conditions have the condition around it. -/
theorem HasField.condition_eq (p : Production) {optional : Bool} {condition : Option Condition}
    {field : FieldSchema} (h : p.HasField optional condition field) (hasks : p.asks = []) :
    field.condition = condition := by
  obtain ⟨hnone, hparts⟩ := asks_parts hasks
  rcases h.own_or_part with ⟨-, kind, -, heq⟩ | ⟨q, hq, hhas⟩
  · rw [heq, hnone, Option.none_or]
  · rw [hnone, Option.none_or] at hhas
    exact condition_eq q hhas (asks_of_mem hparts hq)
termination_by sizeOf p
decreasing_by exact sizeOf_lt_of_mem_parts hq

/-- The condition around a production holds on some fields, and where there is one
the production asks for nothing itself. -/
structure Guarded (condition : Option Condition) (asks : List String) (before : Fields) : Prop where
  holds : condition.all (·.holds fun name => (before.lookup name).isSome) = true
  alone : condition = none ∨ asks = []

variable {f : Forest} {optional : Bool} {condition : Option Condition} {before more : Fields}

/-- What is around the parts of a production that applies. -/
theorem Guarded.parts (h : Guarded condition p.asks before) (hunnested : p.isUnnested = true)
    (happlies : p.applies before = true) :
    Guarded (p.attrs.condition.or condition) (asksAll p.parts) before := by
  cases hc : p.attrs.condition with
  | some c =>
      rw [applies, hc] at happlies
      exact ⟨happlies, .inr ((unnested_parts hunnested).1 (Option.isSome_of_eq_some hc))⟩
  | none =>
      rw [Option.none_or]
      exact ⟨h.holds, h.alone.imp_right fun hasks => (asks_parts hasks).2⟩

/-- What is around a part. -/
theorem Guarded.of_mem (h : Guarded condition (asksAll ps) before) (hq : q ∈ ps) :
    Guarded condition q.asks before :=
  ⟨h.holds, h.alone.imp_right fun hasks => asks_of_mem hasks hq⟩

/-- A condition around a production holds on after it, if its shapes are ordered. -/
theorem Guarded.after {shape : Shape} {first : Fields} (h : Guarded condition p.asks before)
    (hshape : shape ∈ shapesOf optional condition p) (hordered : shape.isOrdered = true)
    (htold : shape.Told before first) :
    condition.all (·.holds fun name => ((before ++ first).lookup name).isSome) = true := by
  rcases h.alone with rfl | hasks
  · rfl
  · cases hcondition : condition with
    | none => rfl
    | some c =>
        have hfree : c.field ∉ shape.map FieldSchema.name := by
          cases shape with
          | nil => simp
          | cons field rest =>
              have hhas : p.HasField optional condition field :=
                ⟨_, hshape, List.mem_cons_self⟩
              have hfield := hhas.condition_eq p hasks
              rw [Shape.isOrdered, hfield, hcondition, Bool.and_eq_true] at hordered
              simpa using hordered.1
        have hheld := h.holds
        rw [hcondition, Option.all_some] at hheld
        rw [Option.all_some, Condition.holds_append fun hmem => hfree (htold.names.subset hmem)]
        exact hheld

/-- A production that does not apply is told by the condition of its fields. -/
theorem told_of_skipped {path : String} (hplaced : p.Placed path) (hunnested : p.isUnnested = true)
    (happlies : p.applies before = false) :
    ∃ shape ∈ shapesOf optional condition p, shape.Told before [] := by
  obtain ⟨shape, hshape⟩ :=
    List.exists_mem_of_ne_nil _ (shapesOf_ne_nil p hplaced optional condition)
  refine ⟨shape, hshape, Shape.told_nil fun field hfield => .inr ?_⟩
  have hhas : p.HasField optional condition field := ⟨shape, hshape, hfield⟩
  cases hc : p.attrs.condition with
  | none => simp [applies, hc] at happlies
  | some c =>
      have hinner := (unnested_parts hunnested).1 (Option.isSome_of_eq_some hc)
      have hcondition : field.condition = some c := by
        rcases hhas.own_or_part with ⟨-, kind, -, heq⟩ | ⟨q, hq, hhas⟩
        · rw [heq, hc, Option.some_or]
        · rw [hhas.condition_eq q (asks_of_mem hinner hq), hc, Option.some_or]
      rw [applies, hc] at happlies
      rw [FieldSchema.holdsOn, hcondition]
      exact happlies

/-- A production that need not match leaves out fields that are optional. -/
theorem told_of_omitted {path : String} (hplaced : p.Placed path)
    (hoptional : p.attrs.optional = true) :
    ∃ shape ∈ shapesOf optional condition p, shape.Told before [] := by
  obtain ⟨shape, hshape⟩ :=
    List.exists_mem_of_ne_nil _ (shapesOf_ne_nil p hplaced optional condition)
  refine ⟨shape, hshape, Shape.told_nil fun field hfield => .inl ?_⟩
  exact HasField.isOptional p ⟨shape, hshape, hfield⟩ (by rw [hoptional, Bool.or_true])

theorem told_own {info : RuleInfo} {kind : FieldKind} {name : String} {value : FieldValue}
    (hname : info.attrs.name = some name)
    (holds : condition.all (·.holds fun name => (before.lookup name).isSome) = true) :
    ∃ shape ∈ fieldShapes info optional condition kind, shape.Told before [(name, value)] := by
  refine ⟨[⟨name, info.path, kind, optional, condition⟩], ?_, .present holds .nil⟩
  rw [fieldShapes, hname]
  exact List.mem_singleton_self _

theorem told_token {info : RuleInfo} {kind : FieldKind} {t : Token}
    (holds : condition.all (·.holds fun name => (before.lookup name).isSome) = true) :
    ∃ shape ∈ fieldShapes info optional condition kind,
      shape.Told before
        (info.attrs.name.map fun name => (name, .terminal (.ofToken t))).toList := by
  cases hname : info.attrs.name with
  | some name => exact told_own hname holds
  | none =>
      refine ⟨[], ?_, .nil⟩
      rw [fieldShapes, hname]
      exact List.mem_singleton_self _

/-- All of some shapes are ordered. -/
def Ordered (shapes : List Shape) : Prop :=
  ∀ shape ∈ shapes, shape.isOrdered = true

theorem Ordered.head {path : String} {index : Nat} {rest : List Production}
    (hplaced : PlacedAll path index rest)
    (h : Ordered (sequenceShapes optional condition (p :: rest))) :
    Ordered (shapesOf optional condition p) := by
  intro shape hshape
  obtain ⟨tail, htail⟩ :=
    List.exists_mem_of_ne_nil _ (sequenceShapes_ne_nil rest hplaced optional condition)
  refine (Shape.isOrdered_append (h (shape ++ tail) ?_)).1
  simp only [sequenceShapes, List.mem_flatMap, List.mem_map]
  exact ⟨shape, hshape, tail, htail, rfl⟩

theorem Ordered.tail {path : String} {rest : List Production} (hplaced : p.Placed path)
    (h : Ordered (sequenceShapes optional condition (p :: rest))) :
    Ordered (sequenceShapes optional condition rest) := by
  intro shape hshape
  obtain ⟨head, hhead⟩ :=
    List.exists_mem_of_ne_nil _ (shapesOf_ne_nil p hplaced optional condition)
  refine (Shape.isOrdered_append (h (head ++ shape) ?_)).2
  simp only [sequenceShapes, List.mem_flatMap, List.mem_map]
  exact ⟨head, hhead, shape, hshape, rfl⟩

mutual

/-- What a production adds is told by one of its shapes. -/
theorem exists_told : {p : Production} → {before more : Fields} → Adds f p before more →
    {path : String} → p.Placed path → p.isUnnested = true → {optional : Bool} →
    {condition : Option Condition} → Guarded condition p.asks before →
    Ordered (shapesOf optional condition p) →
    ∃ shape ∈ shapesOf optional condition p, shape.Told before more
  | _, _, _, .skipped happlies, _, hplaced, hunnested, _, _, _, _ =>
      told_of_skipped hplaced hunnested happlies
  | _, _, _, .omitted hoptional, _, hplaced, _, _, _, _, _ => told_of_omitted hplaced hoptional
  | _, _, _, .matched happlies hmatches, _, hplaced, hunnested, _, _, guarded, ordered =>
      exists_told_matches hmatches hplaced (unnested_parts hunnested).2
        (guarded.parts hunnested happlies) ordered

theorem exists_told_matches : {p : Production} → {before more : Fields} →
    Matches f p before more → {path : String} → p.Placed path → areUnnested p.parts = true →
    {optional : Bool} → {condition : Option Condition} →
    Guarded (p.attrs.condition.or condition) (asksAll p.parts) before →
    Ordered (shapesOf optional condition p) →
    ∃ shape ∈ shapesOf optional condition p, shape.Told before more
  | _, _, _, .token _, _, _, _, _, _, guarded, _ => told_token guarded.holds
  | _, _, _, .tokens hnamed _ _ _, _, _, _, _, _, guarded, _ => by
      rw [shapesOf, if_pos hnamed]
      exact told_token guarded.holds
  | _, _, _, .node hname _ _, _, _, _, _, _, guarded, _ => by
      rw [shapesOf]
      exact told_own hname guarded.holds
  | _, _, _, .list hname _ _ _ _, _, _, _, _, _, guarded, _ => by
      rw [shapesOf]
      exact told_own hname guarded.holds
  | _, _, _, .sequence hparts, _, hplaced, hunnested, _, _, guarded, ordered => by
      rw [shapesOf] at ordered ⊢
      exact exists_told_all hparts hplaced.2 hunnested guarded ordered
  | _, _, _, .branch hname hp hadds, _, hplaced, hunnested, _, _, guarded, ordered => by
      rw [parts, if_neg (by simp [hname])] at hunnested guarded
      rw [shapesOf, if_neg (by simp [hname])] at ordered ⊢
      obtain ⟨i, -, hplaced⟩ := exists_placed (hplaced.2.2 hname) hp
      obtain ⟨shape, hshape, htold⟩ := exists_told hadds hplaced (isUnnested_of_mem hunnested hp)
        (guarded.of_mem hp) fun shape hshape => ordered shape (mem_branchShapes hp hshape)
      exact ⟨shape, mem_branchShapes hp hshape, htold⟩
  | _, _, _, .block hinner, _, hplaced, hunnested, _, _, guarded, ordered => by
      rw [shapesOf] at ordered ⊢
      exact exists_told hinner hplaced.2 (isUnnested_of_mem hunnested (List.mem_singleton_self _))
        (guarded.of_mem (List.mem_singleton_self _)) ordered

theorem exists_told_all : {ps : List Production} → {before more : Fields} →
    AddsAll f ps before more → {path : String} → {index : Nat} → PlacedAll path index ps →
    areUnnested ps = true → {optional : Bool} → {condition : Option Condition} →
    Guarded condition (asksAll ps) before → Ordered (sequenceShapes optional condition ps) →
    ∃ shape ∈ sequenceShapes optional condition ps, shape.Told before more
  | _, _, _, .nil, _, _, _, _, _, _, _, _ => ⟨[], by simp [sequenceShapes], .nil⟩
  | _, _, _, .cons hfirst hothers, _, _, ⟨_, _, hplaced, hrest⟩, hunnested, _, _, guarded,
      ordered => by
      have hhead := ordered.head hrest
      rw [areUnnested, Bool.and_eq_true] at hunnested
      have guardedHead := guarded.of_mem List.mem_cons_self
      obtain ⟨head, hmem, htold⟩ := exists_told hfirst hplaced hunnested.1 guardedHead hhead
      have guardedTail : Guarded _ (asksAll _) _ :=
        ⟨guardedHead.after hmem (hhead head hmem) htold, guarded.alone.imp_right fun hasks =>
          (List.append_eq_nil_iff.1 hasks).2⟩
      obtain ⟨tail, htail, htold'⟩ :=
        exists_told_all hothers hrest hunnested.2 guardedTail (ordered.tail hplaced)
      refine ⟨head ++ tail, ?_, htold.append htold'⟩
      simp only [sequenceShapes, List.mem_flatMap, List.mem_map]
      exact ⟨head, hmem, tail, htail, rfl⟩

end

end Production

/-- Whether the fields of a node tell which conditions held when it was parsed. -/
def Schema.tellsConditions (schema : Schema) : Bool :=
  schema.root.all Production.isUnnested && schema.shapes.all Shape.isOrdered

/-- The conditions of the standard grammar are told by the fields. -/
theorem Standard.tellsConditions {tag : String} {d : Dialect} {schema : Schema}
    (h : ((extend {}).schema tag d).1 = .ok schema) : schema.tellsConditions = true := by
  have hall : ∀ d ∈ Dialect.all, ((extend {}).types.all fun entry =>
      ((extend {}).schema entry.1 d).1.toOption.all Schema.tellsConditions) = true := by
    decide +kernel
  obtain ⟨nodeType, htype⟩ := Registry.exists_type_of_schema h
  have hentry := List.all_eq_true.1 (hall d d.mem_all) _ (mem_of_lookup htype)
  rwa [h] at hentry

namespace Parsing

open Production

variable {options : ParseOptions} {fuel : Nat} {tag : String} {s' : ParseState} {id : NodeId}

/-- Every node that is parsed by a schema whose conditions are told by the fields is
accepted by the reader's test on the fields of a shape of the schema. -/
theorem exists_accepting (requests : List Registry.Request) (source : Source) (forest : Forest)
    (hl : forest.Linked) {schema : Schema}
    (hschema : ((Registry.after requests).schema tag options.dialect).1 = .ok schema)
    (htells : schema.tellsConditions = true)
    (h : parseType options fuel tag ⟨source, forest, .after requests⟩ = (.ok (some id), s')) :
    ∃ shape ∈ schema.shapes, shape.accepts ((s'.forest.fields id).map Prod.fst) = true := by
  obtain ⟨schema', root, hschema', hroot, hplaced, hshapes, hnodup, -, hadds⟩ :=
    adds_of_parseType requests hl rfl h
  rw [hschema] at hschema'
  cases hschema'
  rw [Schema.tellsConditions, hroot, Bool.and_eq_true, List.all_eq_true] at htells
  obtain ⟨hunnested, hordered⟩ := htells
  have ordered : Ordered (Schema.shapesOf false none root) := fun shape hshape =>
    hordered shape ((hshapes shape).2 hshape)
  obtain ⟨shape, hshape, htold⟩ :=
    exists_told hadds hplaced hunnested ⟨rfl, .inl rfl⟩ ordered
  have hmem := (hshapes shape).2 hshape
  exact ⟨shape, hmem, htold.accepts (hordered shape hmem) (hnodup shape hmem)⟩

/-- A row whose note applies only where there is a count. -/
theorem row_accepted : rowRead.1.toOption = some (some 2) ∧
    ∃ schema, ((Registry.after listGrammar).schema "Row" .postgres).1 = .ok schema ∧
      schema.tellsConditions = true ∧
      ∃ shape ∈ schema.shapes,
        shape.accepts ((rowRead.2.forest.fields 2).map Prod.fst) = true := by
  have hread : rowRead.1.toOption = some (some 2) := by decide +kernel
  have htells : (((Registry.after listGrammar).schema "Row" .postgres).1.toOption.any
      Schema.tellsConditions) = true := by decide +kernel
  cases hschema : ((Registry.after listGrammar).schema "Row" .postgres).1 with
  | error e =>
      rw [hschema] at htells
      cases htells
  | ok schema =>
      rw [hschema] at htells
      exact ⟨hread, schema, rfl, htells, exists_accepting listGrammar _ _
        (Forest.closed_empty .postgres).linked hschema htells (ok_of_toOption hread)⟩

/-- A condition inside another one: the part inside applies only where the part
around it does not. -/
def nestedGrammar : List Registry.Request :=
  [.declare "Item" (Rule.seq [(Rule.tok [.identifier]).named "a",
    ((Rule.tok [.numberLiteral]).named "b").optional,
    (Rule.seq [((Rule.tok [.stringLiteral]).named "c").onlyIf (.absent "b")]).onlyIf
      (.present "b")])]

/-- A condition that asks for a field which is set behind it. -/
def laterGrammar : List Registry.Request :=
  [.declare "Item" (Rule.alt [
    Rule.seq [(Rule.tok [.numberLiteral]).named "b", Rule.kw "END"],
    Rule.seq [((Rule.tok [.identifier]).named "a").onlyIf (.absent "b"),
      (Rule.tok [.numberLiteral]).named "b"]])]

/-- The parse of an item in a grammar. -/
def itemRead (requests : List Registry.Request) (text : String) :
    Except Error (Option NodeId) × ParseState :=
  parseType { dialect := .postgres } 40 "Item"
    ⟨.ofChunks .postgres (.ofDialect .postgres) [text], { dialect := .postgres }, .after requests⟩

/-- Whether every shape of an item refuses some names. -/
def itemRefuses (requests : List Registry.Request) (names : List String) : Bool :=
  ((Registry.after requests).schema "Item" .postgres).1.toOption.any fun schema =>
    schema.shapes.all fun shape => !shape.accepts names

/-- Nodes that are parsed with such conditions are refused by every shape. -/
theorem parsed_refused :
    (∃ id, (itemRead nestedGrammar "x").1.toOption = some (some id) ∧
      itemRefuses nestedGrammar
        (((itemRead nestedGrammar "x").2.forest.fields id).map Prod.fst) = true) ∧
    ∃ id, (itemRead laterGrammar "x 1").1.toOption = some (some id) ∧
      itemRefuses laterGrammar
        (((itemRead laterGrammar "x 1").2.forest.fields id).map Prod.fst) = true := by
  -- The kernel evaluates each parse once for what it makes and for what is refused.
  obtain ⟨hnested, hlater⟩ :
      ((itemRead nestedGrammar "x").1.toOption = some (some 0) ∧
        itemRefuses nestedGrammar
          (((itemRead nestedGrammar "x").2.forest.fields 0).map Prod.fst) = true) ∧
      (itemRead laterGrammar "x 1").1.toOption = some (some 0) ∧
        itemRefuses laterGrammar
          (((itemRead laterGrammar "x 1").2.forest.fields 0).map Prod.fst) = true := by
    decide +kernel
  exact ⟨⟨0, hnested⟩, 0, hlater⟩

end Parsing

end DualSql
