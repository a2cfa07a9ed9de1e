import DualSql.Grammar.Registry

/-! # Asking for schemas

Compiling a schema remembers it, which changes no later answer. A registry that
compiles all of its types in advance remembers for each what it would answer. -/

namespace DualSql.Registry

/-- Two registries have the same types and give the same schemas. -/
structure Agrees (r r' : Registry) : Prop where
  types : r'.types = r.types
  schemas : ∀ tag d, (r'.schema tag d).1 = (r.schema tag d).1

variable {r r' r'' : Registry}

theorem Agrees.refl (r : Registry) : r.Agrees r :=
  ⟨rfl, fun _ _ => rfl⟩

theorem Agrees.symm (h : r.Agrees r') : r'.Agrees r :=
  ⟨h.types.symm, fun tag d => (h.schemas tag d).symm⟩

theorem Agrees.trans (h : r.Agrees r') (h' : r'.Agrees r'') : r.Agrees r'' :=
  ⟨h'.types.trans h.types, fun tag d => (h'.schemas tag d).trans (h.schemas tag d)⟩

theorem Agrees.type? (h : r.Agrees r') (tag : String) : r'.type? tag = r.type? tag := by
  simp [Registry.type?, h.types]

/-- Only known types have a schema. -/
theorem exists_type_of_schema {tag : String} {d : Dialect} {schema : Schema}
    (h : (r.schema tag d).1 = .ok schema) : ∃ nodeType, r.type? tag = some nodeType := by
  cases ht : r.type? tag with
  | none =>
      simp only [Registry.schema, ht] at h
      cases h
  | some nodeType => exact ⟨nodeType, rfl⟩

/-- A type has no schema because the grammar is malformed, if it has none. -/
theorem grammar_of_schema {r : Registry} {tag : String} {d : Dialect} {e : Error}
    (h : (r.schema tag d).1 = .error e) : ∃ e', e = .grammar e' := by
  unfold schema at h
  split at h
  · cases h
    exact ⟨_, rfl⟩
  · split at h
    · cases h
    · split at h
      · cases h
        exact ⟨_, rfl⟩
      · cases h

/-- A schema that was asked for is answered alike when it is asked for again. -/
theorem agrees_schema (r : Registry) (tag : String) (d : Dialect) : r.Agrees (r.schema tag d).2 := by
  by_cases hnew : ∃ nodeType compiled, r.type? tag = some nodeType ∧
      r.compiled.lookup (tag, d) = none ∧
      Schema.compile r.types tag nodeType.rule d = .ok compiled
  · obtain ⟨nodeType, compiled, ht, hl, hc⟩ := hnew
    have hsnd : (r.schema tag d).2 = { r with compiled := ((tag, d), compiled) :: r.compiled } := by
      simp [schema, ht, hl, hc]
    rw [hsnd]
    refine ⟨rfl, fun tag' d' => ?_⟩
    simp only [type?] at ht
    simp only [schema, type?, List.lookup_cons]
    by_cases heq : (tag', d') = (tag, d)
    · obtain ⟨rfl, rfl⟩ := Prod.mk.inj heq
      simp [ht, hl, hc]
    · have hne : ((tag', d') == (tag, d)) = false := by simpa using heq
      rw [hne]
      cases r.types.lookup tag' with
      | none => rfl
      | some nodeType' =>
          cases hl' : r.compiled.lookup (tag', d') with
          | some known => simp
          | none =>
              cases hc' : Schema.compile r.types tag' nodeType'.rule d' <;> simp [hc']
  · have hsnd : (r.schema tag d).2 = r := by
      unfold schema
      split
      next => rfl
      next nodeType ht =>
        split
        next => rfl
        next hl =>
          split
          next => rfl
          next compiled hc => exact absurd ⟨nodeType, compiled, ht, hl, hc⟩ hnew
    rw [hsnd]
    exact .refl r

theorem agrees_compileAll (r : Registry) (wanted : List (String × Dialect)) :
    r.Agrees (r.compileAll wanted).2 := by
  induction wanted generalizing r with
  | nil => exact .refl r
  | cons entry rest ih =>
      obtain ⟨tag, d⟩ := entry
      have hfirst := agrees_schema r tag d
      rw [compileAll]
      rcases hs : r.schema tag d with ⟨_ | schema, r'⟩ <;> rw [hs] at hfirst
      · exact hfirst
      · exact hfirst.trans (ih r')

/-! ### Schemas in advance -/

/-- The schema that is answered for a type, or one without a rule. -/
def answer (r : Registry) (tag : String) (d : Dialect) : Schema :=
  match (r.schema tag d).1 with
  | .ok schema => schema
  | .error _ => { tag, dialect := d, root := none, shapes := [] }

/-- The answers for several types, the last of them first. -/
def answers (r : Registry) (wanted : List (String × Dialect)) :
    List ((String × Dialect) × Schema) :=
  (wanted.map fun asked => (asked, r.answer asked.1 asked.2)).reverse

theorem Agrees.answers (h : r.Agrees r') (wanted : List (String × Dialect)) :
    r'.answers wanted = r.answers wanted := by
  simp only [Registry.answers, answer, h.schemas]

/-- A schema that is asked for and not yet remembered is remembered then. -/
theorem schema_of_new {tag : String} {d : Dialect} (hnew : r.compiled.lookup (tag, d) = none)
    (hok : (r.schema tag d).1.toOption.isSome = true) :
    r.schema tag d =
      (.ok (r.answer tag d), { r with compiled := ((tag, d), r.answer tag d) :: r.compiled }) := by
  cases htype : r.type? tag with
  | none => simp [schema, htype, Except.toOption] at hok
  | some nodeType =>
      cases hcompile : Schema.compile r.types tag nodeType.rule d with
      | error e => simp [schema, htype, hnew, hcompile, Except.toOption] at hok
      | ok compiled =>
          have hschema : r.schema tag d =
              (.ok compiled, { r with compiled := ((tag, d), compiled) :: r.compiled }) := by
            simp [schema, htype, hnew, hcompile]
          rw [answer, hschema]

/-- Compiling different types that are all well-formed remembers the answer for each. -/
theorem compileAll_eq {wanted : List (String × Dialect)} (hnodup : wanted.Nodup)
    (hnew : ∀ asked ∈ wanted, r.compiled.lookup asked = none)
    (hok : ∀ asked ∈ wanted, (r.schema asked.1 asked.2).1.toOption.isSome = true) :
    (r.compileAll wanted).2 = { r with compiled := r.answers wanted ++ r.compiled } := by
  induction wanted generalizing r with
  | nil => rfl
  | cons asked rest ih =>
      obtain ⟨tag, d⟩ := asked
      obtain ⟨hfirst, hnew⟩ := List.forall_mem_cons.1 hnew
      obtain ⟨hknown, hok⟩ := List.forall_mem_cons.1 hok
      obtain ⟨hother, hnodup⟩ := List.nodup_cons.1 hnodup
      have agrees := agrees_schema r tag d
      rw [schema_of_new hfirst hknown] at agrees
      rw [compileAll, schema_of_new hfirst hknown]
      dsimp only
      rw [ih hnodup]
      · rw [agrees.answers rest]
        simp [answers]
      · intro asked hasked
        rw [List.lookup_cons, beq_false_of_ne (ne_of_mem_of_not_mem hasked hother)]
        exact hnew asked hasked
      · intro asked hasked
        rw [agrees.schemas]
        exact hok asked hasked

end DualSql.Registry
