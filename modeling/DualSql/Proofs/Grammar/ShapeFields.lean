import DualSql.Grammar.Registry
import DualSql.Proofs.Grammar.Cache
import DualSql.Proofs.Grammar.Faithful

/-! # The fields of shapes

Every field of a shape is set by a part of the production of its type. The
fields are fields that the rule of the type declares, each of them once. This is
so for every schema that a registry answers, whatever was registered and
compiled before it.

Main definitions: `Production.setters`, `Production.climbs` and `Registry.Built`. Main
results: `Production.exists_setter`, `Schema.climbs_of_cut`, `Schema.fields_of_compile`
and `Registry.Built.fields_of_schema`. -/

namespace DualSql

/-! ### Shapes of productions -/

namespace Production

open Schema

variable {optional : Bool} {condition : Option Condition} {shape : Shape}

/-- What the field holds that a production sets itself. -/
def fieldKind? : Production → Option FieldKind
  | token _ kinds values => some (.terminal kinds values)
  | node info types climb =>
    some <|
      match info.attrs.arity with
      | some arity => .list (acceptedTypes types climb) arity info.attrs.singletons
      | none => .node (acceptedTypes types climb)
  | alternatives _ branches => some (plainKind branches)
  | sequence .. | block .. => none

mutual

/-- The parts of a production that can set a field themselves. -/
def setters : Production → List Production
  | token info kinds values => [token info kinds values]
  | node info types climb => [node info types climb]
  | sequence _ parts => settersAll parts
  | alternatives info branches =>
    if info.attrs.name.isSome then [alternatives info branches] else settersAll branches
  | block _ _ inner => inner.setters

/-- The parts of several productions that can set a field themselves. -/
def settersAll : List Production → List Production
  | [] => []
  | p :: rest => p.setters ++ settersAll rest

end

/-- Pooling adds the kinds that are not there yet. -/
theorem mem_pool {kinds pool : List TokenKind} {kind : TokenKind} :
    kind ∈ kinds.foldl (fun acc kind =>
      if acc.contains kind then acc else acc ++ [kind]) pool ↔ kind ∈ pool ∨ kind ∈ kinds := by
  induction kinds generalizing pool with
  | nil => simp
  | cons k kinds ih =>
      rw [List.foldl_cons, ih, List.mem_cons]
      split
      next hknown =>
        have hk : k ∈ pool := List.contains_iff_mem.1 hknown
        constructor
        · exact Or.imp_right .inr
        · rintro (h | rfl | h)
          · exact .inl h
          · exact .inl hk
          · exact .inr h
      next => rw [List.mem_append, List.mem_singleton, or_assoc]

/-- The kinds of several branches are those of each. -/
theorem mem_pooled {tokens : List (List TokenKind × List String)} {kind : TokenKind}
    {pool : List TokenKind} :
    kind ∈ tokens.foldl (fun acc t =>
      t.1.foldl (fun acc kind => if acc.contains kind then acc else acc ++ [kind]) acc) pool ↔
    kind ∈ pool ∨ ∃ t ∈ tokens, kind ∈ t.1 := by
  induction tokens generalizing pool with
  | nil => simp
  | cons t tokens ih =>
      rw [List.foldl_cons, ih, mem_pool]
      simp [or_assoc]

theorem eq_of_fieldShapes {info : RuleInfo} {kind : FieldKind} {field : FieldSchema}
    (h : shape ∈ fieldShapes info optional condition kind) (hfield : field ∈ shape) :
    info.attrs.name = some field.name ∧ field.kind = kind := by
  unfold fieldShapes at h
  split at h
  next name hname =>
    obtain rfl := List.mem_singleton.1 h
    obtain rfl := List.mem_singleton.1 hfield
    exact ⟨hname, rfl⟩
  next hname =>
    obtain rfl := List.mem_singleton.1 h
    cases hfield

mutual

/-- A field of a shape is set by a part of the production and holds what that
part says. -/
theorem exists_setter : (p : Production) → {optional : Bool} → {condition : Option Condition} →
    {shape : Shape} → shape ∈ shapesOf optional condition p → ∀ field ∈ shape,
    ∃ q ∈ p.setters, q.attrs.name = some field.name ∧ q.fieldKind? = some field.kind
  | token info kinds values, _, _, _, h, field, hfield => by
      obtain ⟨hname, hkind⟩ := eq_of_fieldShapes h hfield
      exact ⟨_, List.mem_singleton_self _, hname, congrArg some hkind.symm⟩
  | node info types climb, _, _, _, h, field, hfield => by
      obtain ⟨hname, hkind⟩ := eq_of_fieldShapes h hfield
      exact ⟨_, List.mem_singleton_self _, hname, congrArg some hkind.symm⟩
  | sequence info parts, _, _, _, h, field, hfield => by
      rw [shapesOf] at h
      exact exists_setter_sequence parts h field hfield
  | alternatives info branches, _, _, _, h, field, hfield => by
      rw [shapesOf] at h
      rw [setters]
      split at h
      next hnamed =>
        obtain ⟨hname, hkind⟩ := eq_of_fieldShapes h hfield
        rw [if_pos hnamed]
        exact ⟨_, List.mem_singleton_self _, hname, congrArg some hkind.symm⟩
      next hnamed =>
        rw [if_neg hnamed]
        exact exists_setter_branch branches h field hfield
  | block info bracket inner, _, _, _, h, field, hfield => by
      rw [shapesOf] at h
      exact exists_setter inner h field hfield

theorem exists_setter_branch : (branches : List Production) → {optional : Bool} →
    {condition : Option Condition} → {shape : Shape} →
    shape ∈ branchShapes optional condition branches → ∀ field ∈ shape,
    ∃ q ∈ settersAll branches, q.attrs.name = some field.name ∧ q.fieldKind? = some field.kind
  | [], _, _, _, h, _, _ => nomatch h
  | p :: rest, _, _, _, h, field, hfield => by
      rw [branchShapes, List.mem_append] at h
      rw [settersAll]
      rcases h with h | h
      · obtain ⟨q, hq, hset⟩ := exists_setter p h field hfield
        exact ⟨q, List.mem_append_left _ hq, hset⟩
      · obtain ⟨q, hq, hset⟩ := exists_setter_branch rest h field hfield
        exact ⟨q, List.mem_append_right _ hq, hset⟩

theorem exists_setter_sequence : (parts : List Production) → {optional : Bool} →
    {condition : Option Condition} → {shape : Shape} →
    shape ∈ sequenceShapes optional condition parts → ∀ field ∈ shape,
    ∃ q ∈ settersAll parts, q.attrs.name = some field.name ∧ q.fieldKind? = some field.kind
  | [], _, _, _, h, field, hfield => by
      rw [sequenceShapes, List.mem_singleton] at h
      subst h
      cases hfield
  | p :: rest, _, _, _, h, field, hfield => by
      simp only [sequenceShapes, List.mem_flatMap, List.mem_map] at h
      obtain ⟨head, hhead, tail, htail, rfl⟩ := h
      rw [settersAll]
      rcases List.mem_append.1 hfield with hfield | hfield
      · obtain ⟨q, hq, hset⟩ := exists_setter p hhead field hfield
        exact ⟨q, List.mem_append_left _ hq, hset⟩
      · obtain ⟨q, hq, hset⟩ := exists_setter_sequence rest htail field hfield
        exact ⟨q, List.mem_append_right _ hq, hset⟩

end

mutual

/-- What a part of a production sets, the production sets. -/
theorem mem_sets_of_setter {q : Production} {name : String} (hname : q.attrs.name = some name) :
    (p : Production) → q ∈ p.setters → name ∈ p.sets
  | token info kinds values, h => by
      obtain rfl := List.mem_singleton.1 h
      exact Option.mem_toList.2 hname
  | node info types climb, h => by
      obtain rfl := List.mem_singleton.1 h
      exact Option.mem_toList.2 hname
  | sequence info parts, h => mem_setsAll_of_setter hname parts h
  | alternatives info branches, h => by
      rw [setters] at h
      rw [sets]
      split at h
      · obtain rfl := List.mem_singleton.1 h
        change info.attrs.name = some name at hname
        rw [hname]
        exact List.mem_singleton_self _
      next hnone =>
        rw [Option.not_isSome_iff_eq_none.1 hnone]
        exact mem_setsAll_of_setter hname branches h
  | block info bracket inner, h => mem_sets_of_setter hname inner h

theorem mem_setsAll_of_setter {q : Production} {name : String} (hname : q.attrs.name = some name) :
    (parts : List Production) → q ∈ settersAll parts → name ∈ setsAll parts
  | p :: rest, h => by
      rw [settersAll] at h
      rw [setsAll]
      rcases List.mem_append.1 h with h | h
      · exact List.mem_append_left _ (mem_sets_of_setter hname p h)
      · exact List.mem_append_right _ (mem_setsAll_of_setter hname rest h)

end

/-- The fields of a shape are fields that the production can set. -/
theorem names_shapesOf {p : Production} (h : shape ∈ shapesOf optional condition p) :
    shape.map FieldSchema.name ⊆ p.sets := by
  intro name hname
  obtain ⟨field, hfield, rfl⟩ := List.mem_map.1 hname
  obtain ⟨q, hq, hset, -⟩ := exists_setter p h field hfield
  exact mem_sets_of_setter hset p hq

end Production

/-! ### Shapes of rules -/

namespace Schema

variable {d : Dialect} {path : String} {seen seen' : List String} {p : Production}

/-- What cutting a rule down to a dialect leaves, if it leaves anything. -/
def Leaves (d : Dialect) (path : String) (seen : List String) (p : Production) : Rule → Prop
  | .token attrs kinds values => ∃ info, info.attrs = attrs ∧ p = .token info kinds values
  | .node attrs types climb => ∃ info, info.attrs = attrs ∧ p = .node info types climb
  | .sequence attrs parts => ∃ info ps seen', info.attrs = attrs ∧ p = .sequence info ps ∧
      cutAll d path 0 seen parts = .ok (ps, seen')
  | .alternatives attrs branches => ∃ info ps, info.attrs = attrs ∧ p = .alternatives info ps ∧
      (attrs.name = none → ∃ seen', cutAll d path 0 seen branches = .ok (ps, seen'))
  | .block attrs bracket inner => ∃ info q seen', info.attrs = attrs ∧ p = .block info bracket q ∧
      cut d (childPath path 0) seen inner = .ok (some q, seen')

/-- The check of a condition changes nothing of what comes after it. -/
theorem ok_of_checked {α : Type} {c : Option Condition} {x : Except GrammarError α} {a : α}
    (h : (match c with
      | some c => if (!seen.contains c.field) = true then
          Except.error (GrammarError.unknownDependency path c.field) else x
      | none => x) = .ok a) : x = .ok a := by
  split at h
  · split at h
    · cases h
    · exact h
  · exact h

theorem leaves_of_cut {r : Rule} (h : cut d path seen r = .ok (some p, seen')) :
    Leaves d path seen p r := by
  cases r with
  | token attrs kinds values =>
      simp only [cut, bind, Except.bind, pure, Except.pure, throw, throwThe,
        MonadExceptOf.throw] at h
      split at h
      · cases h
      · cases ok_of_checked h
        exact ⟨_, rfl, rfl⟩
  | node attrs types climb =>
      simp only [cut, bind, Except.bind, pure, Except.pure, throw, throwThe,
        MonadExceptOf.throw] at h
      split at h
      · cases h
      · cases ok_of_checked h
        exact ⟨_, rfl, rfl⟩
  | sequence attrs parts =>
      simp only [cut, bind, Except.bind, pure, Except.pure, throw, throwThe,
        MonadExceptOf.throw] at h
      split at h
      · cases h
      · replace h := ok_of_checked h
        split at h
        · cases h
        next v hv =>
          split at h
          · cases h
          · cases h
            exact ⟨_, _, _, rfl, rfl, hv⟩
  | alternatives attrs branches =>
      simp only [cut, bind, Except.bind, pure, Except.pure, throw, throwThe,
        MonadExceptOf.throw] at h
      split at h
      · cases h
      · replace h := ok_of_checked h
        split at h
        next hname =>
          split at h
          · cases h
          · cases h
            exact ⟨_, _, rfl, rfl, fun hnone => by simp [hnone] at hname⟩
        next =>
          split at h
          · cases h
          next v hv =>
            split at h
            · cases h
            · cases h
              exact ⟨_, _, rfl, rfl, fun _ => ⟨_, hv⟩⟩
  | block attrs bracket inner =>
      rw [cut] at h
      simp only [bind, Except.bind, pure, Except.pure, throw, throwThe,
        MonadExceptOf.throw] at h
      split at h
      · cases h
      · replace h := ok_of_checked h
        split at h
        · cases h
        next v hv =>
          obtain ⟨_ | q, seen''⟩ := v
          · cases h
          · cases h
            exact ⟨_, q, seen'', rfl, rfl, hv⟩

/-- Rules are cut down one after the other. -/
theorem exists_of_cutAll {r : Rule} {rest : List Rule} {index : Nat} {ps : List Production}
    (h : cutAll d path index seen (r :: rest) = .ok (ps, seen')) :
    ∃ first between others, cut d (childPath path index) seen r = .ok (first, between) ∧
      cutAll d path (index + 1) between rest = .ok (others, seen') ∧
      ps = first.toList ++ others := by
  simp only [cutAll, bind, Except.bind, pure, Except.pure] at h
  split at h
  · cases h
  next first hfirst =>
    split at h
    · cases h
    next others hothers =>
      cases h
      exact ⟨_, _, _, hfirst, hothers, rfl⟩

mutual

/-- What is left of a rule in a dialect sets fields of the rule. -/
theorem sets_of_cut : (r : Rule) → {path : String} → {seen seen' : List String} →
    {p : Production} → cut d path seen r = .ok (some p, seen') → p.sets ⊆ r.fieldNames
  | .token attrs kinds values, _, _, _, p, h => by
      obtain ⟨info, rfl, rfl⟩ := leaves_of_cut h
      exact List.Subset.refl _
  | .node attrs types climb, _, _, _, p, h => by
      obtain ⟨info, rfl, rfl⟩ := leaves_of_cut h
      exact List.Subset.refl _
  | .sequence attrs parts, _, _, _, p, h => by
      obtain ⟨info, ps, _, rfl, rfl, hps⟩ := leaves_of_cut h
      exact List.subset_append_of_subset_right _ (sets_of_cutAll parts hps)
  | .alternatives attrs branches, _, _, _, p, h => by
      obtain ⟨info, ps, rfl, rfl, hps⟩ := leaves_of_cut h
      rw [Production.sets, Rule.fieldNames]
      cases hname : info.attrs.name with
      | some name => exact List.subset_append_left _ _
      | none =>
          obtain ⟨_, hps⟩ := hps hname
          exact List.subset_append_of_subset_right _ (sets_of_cutAll branches hps)
  | .block attrs bracket inner, _, _, _, p, h => by
      obtain ⟨info, q, _, rfl, rfl, hq⟩ := leaves_of_cut h
      rw [Production.sets, Rule.fieldNames]
      exact List.subset_append_of_subset_right _ (sets_of_cut inner hq)

theorem sets_of_cutAll : (rs : List Rule) → {path : String} → {index : Nat} →
    {seen seen' : List String} → {ps : List Production} →
    cutAll d path index seen rs = .ok (ps, seen') →
    Production.setsAll ps ⊆ Rule.fieldNamesAll rs
  | [], _, _, _, _, ps, h => by
      rw [cutAll] at h
      cases h
      exact List.nil_subset _
  | r :: rest, _, _, _, _, ps, h => by
      obtain ⟨first, _, others, hfirst, hothers, rfl⟩ := exists_of_cutAll h
      have hrest := sets_of_cutAll rest hothers
      cases first with
      | none => exact List.subset_append_of_subset_right _ hrest
      | some p =>
          exact List.append_subset.2
            ⟨List.subset_append_of_subset_left _ (sets_of_cut r hfirst),
              List.subset_append_of_subset_right _ hrest⟩

end

end Schema

/-! ### Climbing in rules -/

mutual

/-- The ways in which a production combines operands. Named alternatives match tokens. -/
def Production.climbs : Production → List Climb
  | token .. => []
  | node _ _ climb => climb.toList
  | sequence _ parts => climbsAll parts
  | alternatives info branches => if info.attrs.name.isSome then [] else climbsAll branches
  | block _ _ inner => inner.climbs

/-- The ways in which several productions combine operands. -/
def Production.climbsAll : List Production → List Climb
  | [] => []
  | p :: rest => p.climbs ++ climbsAll rest

end

mutual

/-- The ways in which a rule combines operands. -/
def Rule.climbs : Rule → List Climb
  | token .. => []
  | node _ _ climb => climb.toList
  | sequence _ parts | alternatives _ parts => climbsAll parts
  | block _ _ inner => inner.climbs

/-- The ways in which several rules combine operands. -/
def Rule.climbsAll : List Rule → List Climb
  | [] => []
  | r :: rest => r.climbs ++ climbsAll rest

end

namespace Schema

variable {d : Dialect}

mutual

/-- What is left of a rule in a dialect combines operands as the rule does. -/
theorem climbs_of_cut : (r : Rule) → {path : String} → {seen seen' : List String} →
    {p : Production} → cut d path seen r = .ok (some p, seen') → p.climbs ⊆ r.climbs
  | .token attrs kinds values, _, _, _, p, h => by
      obtain ⟨info, rfl, rfl⟩ := leaves_of_cut h
      exact List.Subset.refl _
  | .node attrs types climb, _, _, _, p, h => by
      obtain ⟨info, rfl, rfl⟩ := leaves_of_cut h
      exact List.Subset.refl _
  | .sequence attrs parts, _, _, _, p, h => by
      obtain ⟨info, ps, _, rfl, rfl, hps⟩ := leaves_of_cut h
      exact climbs_of_cutAll parts hps
  | .alternatives attrs branches, _, _, _, p, h => by
      obtain ⟨info, ps, rfl, rfl, hps⟩ := leaves_of_cut h
      rw [Production.climbs, Rule.climbs]
      cases hname : info.attrs.name with
      | some name => exact List.nil_subset _
      | none =>
          obtain ⟨_, hps⟩ := hps hname
          exact climbs_of_cutAll branches hps
  | .block attrs bracket inner, _, _, _, p, h => by
      obtain ⟨info, q, _, rfl, rfl, hq⟩ := leaves_of_cut h
      rw [Production.climbs, Rule.climbs]
      exact climbs_of_cut inner hq

theorem climbs_of_cutAll : (rs : List Rule) → {path : String} → {index : Nat} →
    {seen seen' : List String} → {ps : List Production} →
    cutAll d path index seen rs = .ok (ps, seen') →
    Production.climbsAll ps ⊆ Rule.climbsAll rs
  | [], _, _, _, _, ps, h => by
      rw [cutAll] at h
      cases h
      exact List.nil_subset _
  | r :: rest, _, _, _, _, ps, h => by
      obtain ⟨first, _, others, hfirst, hothers, rfl⟩ := exists_of_cutAll h
      have hrest := climbs_of_cutAll rest hothers
      cases first with
      | none => exact List.subset_append_of_subset_right _ hrest
      | some p =>
          exact List.append_subset.2
            ⟨List.subset_append_of_subset_left _ (climbs_of_cut r hfirst),
              List.subset_append_of_subset_right _ hrest⟩

end

/-! ### Shapes of schemas -/

theorem names_of_repeatedField? {shape : Shape} {names : List String}
    (h : shape.repeatedField? names = none) :
    (shape.map FieldSchema.name).Nodup ∧ ∀ name ∈ shape.map FieldSchema.name, name ∉ names := by
  induction shape generalizing names with
  | nil => exact ⟨List.nodup_nil, nofun⟩
  | cons field rest ih =>
      rw [Shape.repeatedField?] at h
      split at h
      · cases h
      next hnew =>
        obtain ⟨hnodup, hothers⟩ := ih h
        refine ⟨List.nodup_cons.2 ⟨fun hmem => hothers _ hmem List.mem_cons_self, hnodup⟩, ?_⟩
        refine List.forall_mem_cons.2 ⟨by simpa using hnew, fun name hname hmem => ?_⟩
        exact hothers name hname (List.mem_cons_of_mem _ hmem)

/-- The shapes that are kept are some of the given ones, without repeated fields. -/
theorem mem_of_distinctShapes {tag : String} {known given shapes : List Shape} {shape : Shape}
    (h : distinctShapes tag known given = .ok shapes) (hshape : shape ∈ shapes) :
    shape ∈ known ∨ shape ∈ given ∧ (shape.map FieldSchema.name).Nodup := by
  induction given generalizing known with
  | nil =>
      cases h
      exact .inl hshape
  | cons s rest ih =>
      rw [distinctShapes] at h
      split at h
      · cases h
      next hrepeated =>
        split at h
        · exact (ih h).imp_right fun ⟨hmem, hnodup⟩ => ⟨List.mem_cons_of_mem _ hmem, hnodup⟩
        · rcases ih h with hknown | ⟨hmem, hnodup⟩
          · rcases List.mem_append.1 hknown with hknown | hs
            · exact .inl hknown
            · obtain rfl := List.mem_singleton.1 hs
              exact .inr ⟨List.mem_cons_self, (names_of_repeatedField? hrepeated).1⟩
          · exact .inr ⟨List.mem_cons_of_mem _ hmem, hnodup⟩

/-- The shapes of a type are shapes of what its rule leaves in the dialect. -/
theorem shape_of_compile {catalog : Catalog} {tag : String} {r : Rule} {schema : Schema}
    (h : compile catalog tag r d = .ok schema) {shape : Shape} (hshape : shape ∈ schema.shapes) :
    ∃ root seen, schema.root = some root ∧ cut d tag [] r = .ok (some root, seen) ∧
      shape ∈ shapesOf false none root ∧ (shape.map FieldSchema.name).Nodup := by
  simp only [compile, bind, Except.bind, pure, Except.pure] at h
  split at h
  · cases h
  · split at h
    · cases h
    next cutting hcut =>
      split at h
      · cases h
      next shapes hshapes =>
        cases h
        rcases mem_of_distinctShapes hshapes hshape with hnone | ⟨hmem, hnodup⟩
        · cases hnone
        · obtain ⟨_ | root, seen⟩ := cutting
          · cases hmem
          · exact ⟨root, seen, rfl, hcut, hmem, hnodup⟩

/-- The fields of a shape are different fields of the rule. -/
theorem fields_of_compile {catalog : Catalog} {tag : String} {r : Rule} {schema : Schema}
    (h : compile catalog tag r d = .ok schema) {shape : Shape} (hshape : shape ∈ schema.shapes) :
    (shape.map FieldSchema.name).Nodup ∧ shape.map FieldSchema.name ⊆ r.fieldNames := by
  obtain ⟨root, seen, -, hcut, hmem, hnodup⟩ := shape_of_compile h hshape
  exact ⟨hnodup, List.Subset.trans (Production.names_shapesOf hmem) (sets_of_cut r hcut)⟩

end Schema

/-! ### Registries -/

namespace Registry

variable {r : Registry} {tag tag' : String} {nodeType : NodeType} {d d' : Dialect} {schema : Schema}

/-- A registry that was filled and asked for schemas, in any order. -/
inductive Built : Registry → Prop
  | empty : Built {}
  | register {r : Registry} (built : Built r) (tag : String) (nodeType : NodeType) :
      Built (r.register tag nodeType)
  | schema {r : Registry} (built : Built r) (tag : String) (d : Dialect) :
      Built (r.schema tag d).2

theorem Built.declare (h : r.Built) (tag : String) (rule : Rule) : (r.declare tag rule).Built :=
  h.register tag _

theorem Built.climbing (h : r.Built) (operands : List String) (climb : Climb) (rule : Rule) :
    (r.climbing operands climb rule).Built :=
  h.register climb.node _

theorem Built.compileAll (h : r.Built) (wanted : List (String × Dialect)) :
    (r.compileAll wanted).2.Built := by
  induction wanted generalizing r with
  | nil => exact h
  | cons entry rest ih =>
      obtain ⟨tag, d⟩ := entry
      have hfirst := h.schema tag d
      rw [Registry.compileAll]
      rcases hs : r.schema tag d with ⟨_ | schema, r'⟩ <;> rw [hs] at hfirst
      · exact hfirst
      · exact ih hfirst

theorem lookup_setType (types : Catalog) : (setType tag nodeType types).lookup tag' =
    if tag' = tag then some nodeType else types.lookup tag' := by
  induction types with
  | nil =>
      rw [setType, List.lookup_cons]
      by_cases h : tag' = tag
      · simp [h]
      · simp [h, beq_false_of_ne h]
  | cons entry rest ih =>
      obtain ⟨t, n⟩ := entry
      rw [setType]
      by_cases htag : t = tag
      · rw [if_pos htag, List.lookup_cons, List.lookup_cons, htag]
        by_cases h : tag' = tag
        · simp [h]
        · simp [h, beq_false_of_ne h]
      · rw [if_neg htag, List.lookup_cons, List.lookup_cons, ih]
        by_cases h : tag' = t
        · simp [h, htag]
        · simp [beq_false_of_ne h]

theorem type?_register : (r.register tag nodeType).type? tag' =
    if tag' = tag then some nodeType else r.type? tag' :=
  lookup_setType r.types

/-- Of the schemas that are remembered, those of one type are forgotten. -/
theorem lookup_forget (tag : String) (compiled : List ((String × Dialect) × Schema)) :
    (compiled.filter fun entry => entry.1.1 ≠ tag).lookup (tag', d) =
      if tag' = tag then none else compiled.lookup (tag', d) := by
  induction compiled with
  | nil => simp
  | cons entry rest ih =>
      obtain ⟨⟨t, d'⟩, schema⟩ := entry
      rw [List.filter_cons, List.lookup_cons]
      by_cases hkey : (tag', d) = (t, d')
      · cases hkey
        by_cases htag : tag' = tag
        · simpa [htag] using ih
        · simp [htag]
      · rw [beq_false_of_ne hkey, ← ih]
        split
        · rw [List.lookup_cons, beq_false_of_ne hkey]
        · rfl

/-- The schema that is asked for is the only one that may be new. -/
theorem lookup_schema {known : Schema}
    (h : (r.schema tag' d').2.compiled.lookup (tag, d) = some known) :
    r.compiled.lookup (tag, d) = some known ∨
      ∃ nodeType, r.type? tag = some nodeType ∧
        Schema.compile r.types tag nodeType.rule d = .ok known := by
  unfold schema at h
  split at h
  · exact .inl h
  next nodeType htype =>
    split at h
    · exact .inl h
    · split at h
      · exact .inl h
      next compiled hcompiled =>
        rw [List.lookup_cons] at h
        split at h
        next hkey =>
          cases beq_iff_eq.1 hkey
          cases h
          exact .inr ⟨nodeType, htype, hcompiled⟩
        next => exact .inl h

/-- A schema that is remembered was compiled from the type that has its tag now,
with whatever types there were then. -/
theorem Built.compiled (h : r.Built) (hlookup : r.compiled.lookup (tag, d) = some schema) :
    ∃ nodeType catalog, r.type? tag = some nodeType ∧
      Schema.compile catalog tag nodeType.rule d = .ok schema := by
  induction h with
  | empty => cases hlookup
  | @register r built changed nodeType ih =>
      have hkept := (lookup_forget changed r.compiled).symm.trans hlookup
      by_cases htag : tag = changed
      · simp [htag] at hkept
      · rw [if_neg htag] at hkept
        rw [type?_register, if_neg htag]
        exact ih hkept
  | @schema r built asked d' ih =>
      rw [(agrees_schema r asked d').type?]
      rcases lookup_schema hlookup with hknown | ⟨nodeType, htype, hcompiled⟩
      · exact ih hknown
      · exact ⟨nodeType, _, htype, hcompiled⟩

/-- A schema that is answered was compiled from the type that has its tag now. -/
theorem Built.exists_compile (h : r.Built) (hschema : (r.schema tag d).1 = .ok schema) :
    ∃ nodeType catalog, r.type? tag = some nodeType ∧
      Schema.compile catalog tag nodeType.rule d = .ok schema := by
  unfold Registry.schema at hschema
  split at hschema
  · cases hschema
  next nodeType htype =>
    split at hschema
    next known hknown =>
      cases hschema
      exact h.compiled hknown
    next =>
      split at hschema
      · cases hschema
      next compiled hcompiled =>
        cases hschema
        exact ⟨nodeType, _, htype, hcompiled⟩

/-- Every shape has different fields that the type declares. -/
theorem Built.fields_of_schema (h : r.Built) (hschema : (r.schema tag d).1 = .ok schema)
    {shape : Shape} (hshape : shape ∈ schema.shapes) :
    ∃ nodeType, r.type? tag = some nodeType ∧ (shape.map FieldSchema.name).Nodup ∧
      shape.map FieldSchema.name ⊆ nodeType.rule.fieldNames := by
  obtain ⟨nodeType, catalog, htype, hcompiled⟩ := h.exists_compile hschema
  exact ⟨nodeType, htype, Schema.fields_of_compile hcompiled hshape⟩

end Registry

end DualSql
