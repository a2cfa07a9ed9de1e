import DualSql.Proofs.Grammar.ShapeFields

/-! # Paths of rules

The path of a rule tells it from every other rule of its type. So no shape of a
type is lost where those are kept apart by the paths of their fields: a shape that
is left out is equal to one that is kept.

Main definitions: `Schema.Under` and `Production.Placed`. Main results:
`Production.eq_of_rulePath` and `Schema.mem_shapes_iff`. -/

namespace DualSql

namespace Schema

/-- A path leads to a rule or goes on inside it. -/
def Under (path inner : String) : Prop :=
  ∃ rest, inner.toList = path.toList ++ rest ∧ ∀ c ∈ rest.head?, c = '/'

theorem Under.refl (path : String) : Under path path :=
  ⟨[], by simp⟩

theorem toList_childPath (path : String) (index : Nat) :
    (childPath path index).toList = path.toList ++ '/' :: Nat.toDigits 10 index := by
  change ((path ++ "/") ++ toString index).toList = _
  simp [String.toList_append]

theorem Under.of_childPath {path inner : String} {index : Nat}
    (h : Under (childPath path index) inner) : Under path inner := by
  obtain ⟨rest, heq, -⟩ := h
  refine ⟨'/' :: (Nat.toDigits 10 index ++ rest), ?_, by simp⟩
  rw [heq, toList_childPath]
  simp

/-- A number that goes on with nothing or a slash can be read off. -/
theorem takeWhile_digits (n : Nat) {rest : List Char} (h : ∀ c ∈ rest.head?, c = '/') :
    (Nat.toDigits 10 n ++ rest).takeWhile Char.isDigit = Nat.toDigits 10 n := by
  have hdigits : ∀ c ∈ Nat.toDigits 10 n, c.isDigit = true := fun c hc =>
    Nat.isDigit_of_mem_toDigits (by decide) (by decide) hc
  rw [List.takeWhile_append_of_pos hdigits]
  cases rest with
  | nil => simp
  | cons c rest =>
      obtain rfl : c = '/' := h c rfl
      simp

/-- Rules inside different rules have different paths. -/
theorem index_eq_of_under {path inner : String} {i j : Nat}
    (hi : Under (childPath path i) inner) (hj : Under (childPath path j) inner) : i = j := by
  obtain ⟨rest, heq, hrest⟩ := hi
  obtain ⟨rest', heq', hrest'⟩ := hj
  rw [heq, toList_childPath, toList_childPath] at heq'
  have hdigits : Nat.toDigits 10 i ++ rest = Nat.toDigits 10 j ++ rest' := by simpa using heq'
  have hsame := congrArg (List.takeWhile Char.isDigit) hdigits
  rw [takeWhile_digits i hrest, takeWhile_digits j hrest'] at hsame
  rw [← Nat.ofDigitChars_toDigits (n := i) (by decide : 1 < 10) (by decide), hsame,
    Nat.ofDigitChars_toDigits (by decide) (by decide)]

end Schema

namespace Production

open Schema

mutual

/-- A production and its parts have the paths that they stand at, and alternatives
have branches. -/
def Placed (path : String) : Production → Prop
  | token info _ _ | node info _ _ => info.path = path
  | sequence info parts => info.path = path ∧ PlacedAll path 0 parts
  | alternatives info branches =>
    info.path = path ∧ branches ≠ [] ∧ (info.attrs.name = none → PlacedAll path 0 branches)
  | block info _ inner => info.path = path ∧ inner.Placed (childPath path 0)

/-- Several productions have the paths of different parts, from an index on. -/
def PlacedAll (path : String) (index : Nat) : List Production → Prop
  | [] => True
  | p :: rest => ∃ i, index ≤ i ∧ p.Placed (childPath path i) ∧ PlacedAll path (i + 1) rest

end

theorem PlacedAll.mono {path : String} {index index' : Nat} {ps : List Production}
    (h : PlacedAll path index ps) (hle : index' ≤ index) : PlacedAll path index' ps := by
  cases ps with
  | nil => trivial
  | cons p rest =>
      obtain ⟨i, hi, hplaced, hrest⟩ := h
      exact ⟨i, Nat.le_trans hle hi, hplaced, hrest⟩

theorem exists_placed {path : String} {index : Nat} {parts : List Production} {p : Production}
    (h : PlacedAll path index parts) (hp : p ∈ parts) :
    ∃ i, index ≤ i ∧ p.Placed (childPath path i) := by
  induction parts generalizing index with
  | nil => cases hp
  | cons q rest ih =>
      obtain ⟨i, hle, hplaced, hrest⟩ := h
      rcases List.mem_cons.1 hp with rfl | hp
      · exact ⟨i, hle, hplaced⟩
      · obtain ⟨j, hlt, hplaced⟩ := ih hrest hp
        exact ⟨j, Nat.le_trans hle (Nat.le_of_succ_le hlt), hplaced⟩

/-- A field is in a shape of a production. -/
def HasField (optional : Bool) (condition : Option Condition) (p : Production)
    (field : FieldSchema) : Prop :=
  ∃ shape ∈ shapesOf optional condition p, field ∈ shape

variable {optional : Bool} {condition : Option Condition} {field other : FieldSchema}

/-- The parts of a production that set its fields. -/
def parts : Production → List Production
  | token .. | node .. => []
  | sequence _ parts => parts
  | alternatives info branches => if info.attrs.name.isSome then [] else branches
  | block _ _ inner => [inner]

theorem sizeOf_lt_of_mem_parts {p q : Production} (h : q ∈ p.parts) : sizeOf q < sizeOf p := by
  cases p with
  | token | node => cases h
  | sequence info parts =>
      have := List.sizeOf_lt_of_mem (show q ∈ parts from h)
      simp only [sequence.sizeOf_spec]
      omega
  | alternatives info branches =>
      rw [parts] at h
      split at h
      · cases h
      · have := List.sizeOf_lt_of_mem h
        simp only [alternatives.sizeOf_spec]
        omega
  | block info bracket inner =>
      obtain rfl := List.mem_singleton.1 h
      simp only [block.sizeOf_spec]
      omega

theorem Placed.parts {p : Production} {path : String} (h : p.Placed path) :
    p.info.path = path ∧ PlacedAll path 0 p.parts := by
  cases p with
  | token | node => exact ⟨h, trivial⟩
  | sequence info parts => exact h
  | alternatives info branches =>
      refine ⟨h.1, ?_⟩
      rw [Production.parts]
      split
      · trivial
      next hnone => exact h.2.2 (Option.not_isSome_iff_eq_none.1 hnone)
  | block info bracket inner => exact ⟨h.1, 0, Nat.le_refl 0, h.2, trivial⟩

theorem hasField_of_branch {branches : List Production} {shape : Shape}
    (h : shape ∈ branchShapes optional condition branches) (hfield : field ∈ shape) :
    ∃ p ∈ branches, p.HasField optional condition field := by
  induction branches with
  | nil => cases h
  | cons p rest ih =>
      rw [branchShapes, List.mem_append] at h
      rcases h with h | h
      · exact ⟨p, List.mem_cons_self, shape, h, hfield⟩
      · obtain ⟨q, hq, hhas⟩ := ih h
        exact ⟨q, List.mem_cons_of_mem _ hq, hhas⟩

theorem hasField_of_sequence {parts : List Production} {shape : Shape}
    (h : shape ∈ sequenceShapes optional condition parts) (hfield : field ∈ shape) :
    ∃ p ∈ parts, p.HasField optional condition field := by
  induction parts generalizing shape with
  | nil =>
      rw [sequenceShapes, List.mem_singleton] at h
      subst h
      cases hfield
  | cons p rest ih =>
      simp only [sequenceShapes, List.mem_flatMap, List.mem_map] at h
      obtain ⟨head, hhead, tail, htail, rfl⟩ := h
      rcases List.mem_append.1 hfield with hfield | hfield
      · exact ⟨p, List.mem_cons_self, head, hhead, hfield⟩
      · obtain ⟨q, hq, hhas⟩ := ih htail hfield
        exact ⟨q, List.mem_cons_of_mem _ hq, hhas⟩

theorem field_of_fieldShapes {info : RuleInfo} {kind : FieldKind} {shape : Shape}
    (h : shape ∈ fieldShapes info optional condition kind) (hfield : field ∈ shape) :
    field = ⟨field.name, info.path, kind, optional, condition⟩ := by
  unfold fieldShapes at h
  split at h
  next name hname =>
    obtain rfl := List.mem_singleton.1 h
    obtain rfl := List.mem_singleton.1 hfield
    rfl
  next =>
    obtain rfl := List.mem_singleton.1 h
    cases hfield

/-- A field is set by the production itself, which then has no parts for it, or
by a part. -/
theorem HasField.own_or_part {p : Production} (h : p.HasField optional condition field) :
    (p.parts = [] ∧ ∃ kind, p.fieldKind? = some kind ∧
      field = ⟨field.name, p.info.path, kind, optional || p.attrs.optional,
        p.attrs.condition.or condition⟩) ∨
    ∃ q ∈ p.parts,
      q.HasField (optional || p.attrs.optional) (p.attrs.condition.or condition) field := by
  obtain ⟨shape, hshape, hfield⟩ := h
  rw [shapesOf.eq_def] at hshape
  cases p with
  | token info kinds values => exact .inl ⟨rfl, _, rfl, field_of_fieldShapes hshape hfield⟩
  | node info types climb => exact .inl ⟨rfl, _, rfl, field_of_fieldShapes hshape hfield⟩
  | sequence info parts => exact .inr (hasField_of_sequence hshape hfield)
  | alternatives info branches =>
      dsimp only at hshape
      rw [parts]
      split at hshape
      next hnamed =>
        rw [if_pos hnamed]
        exact .inl ⟨rfl, _, rfl, field_of_fieldShapes hshape hfield⟩
      next hnone =>
        rw [if_neg hnone]
        exact .inr (hasField_of_branch hshape hfield)
  | block info bracket inner =>
      exact .inr ⟨inner, List.mem_singleton_self inner, shape, hshape, hfield⟩

/-- The fields of a production have paths inside it. -/
theorem under_rulePath (p : Production) {path : String} {optional : Bool}
    {condition : Option Condition} {field : FieldSchema} (hplaced : p.Placed path)
    (h : p.HasField optional condition field) : Under path field.rulePath := by
  obtain ⟨hpath, hparts⟩ := hplaced.parts
  rcases h.own_or_part with ⟨-, kind, -, heq⟩ | ⟨q, hq, hhas⟩
  · rw [heq, hpath]
    exact .refl path
  · obtain ⟨i, -, hplaced⟩ := exists_placed hparts hq
    exact (under_rulePath q hplaced hhas).of_childPath
termination_by sizeOf p
decreasing_by exact sizeOf_lt_of_mem_parts hq

theorem pairwise_placed {path : String} {index : Nat} {ps : List Production}
    (h : PlacedAll path index ps) : ∀ q ∈ ps, ∀ q' ∈ ps,
    q = q' ∨ ∃ i j, i ≠ j ∧ q.Placed (childPath path i) ∧ q'.Placed (childPath path j) := by
  induction ps generalizing index with
  | nil => simp
  | cons p rest ih =>
      obtain ⟨i, -, hplaced, hrest⟩ := h
      have behind : ∀ q ∈ rest, ∃ j, i ≠ j ∧ q.Placed (childPath path j) := by
        intro q hq
        obtain ⟨j, hlt, hplaced⟩ := exists_placed hrest hq
        exact ⟨j, by omega, hplaced⟩
      refine List.forall_mem_cons.2 ⟨List.forall_mem_cons.2 ⟨.inl rfl, fun q hq => ?_⟩,
        fun q hq => List.forall_mem_cons.2 ⟨?_, ih hrest q hq⟩⟩
      · obtain ⟨j, hne, hplaced'⟩ := behind q hq
        exact .inr ⟨i, j, hne, hplaced, hplaced'⟩
      · obtain ⟨j, hne, hplaced'⟩ := behind q hq
        exact .inr ⟨j, i, hne.symm, hplaced', hplaced⟩

/-- Fields with the same name and path are the same field. -/
theorem eq_of_rulePath (p : Production) {path : String} {optional : Bool}
    {condition : Option Condition} {field other : FieldSchema} (hplaced : p.Placed path)
    (h : p.HasField optional condition field) (h' : p.HasField optional condition other)
    (hname : field.name = other.name) (hpath : field.rulePath = other.rulePath) :
    field = other := by
  rcases h.own_or_part with ⟨hnone, kind, hkind, heq⟩ | ⟨q, hq, hhas⟩ <;>
    rcases h'.own_or_part with ⟨hnone', kind', hkind', heq'⟩ | ⟨q', hq', hhas'⟩
  · rw [hkind] at hkind'
    cases hkind'
    rw [heq, heq', hname]
  · rw [hnone] at hq'
    cases hq'
  · rw [hnone'] at hq
    cases hq
  · rcases pairwise_placed hplaced.parts.2 q hq q' hq' with rfl | ⟨i, j, hne, hplaced, hplaced'⟩
    · obtain ⟨i, -, hplaced⟩ := exists_placed hplaced.parts.2 hq
      exact eq_of_rulePath q hplaced hhas hhas' hname hpath
    · -- a field of one part has another path than one of another part
      have hunder := under_rulePath q hplaced hhas
      rw [hpath] at hunder
      exact absurd (index_eq_of_under hunder (under_rulePath q' hplaced' hhas')) hne
termination_by sizeOf p
decreasing_by exact sizeOf_lt_of_mem_parts hq

/-- Shapes whose fields have the same names and paths are the same shape. -/
theorem eq_of_key {p : Production} {path : String} (hplaced : p.Placed path) {shape other : Shape}
    (hshape : shape ∈ shapesOf optional condition p)
    (hother : other ∈ shapesOf optional condition p) (hkey : shape.key = other.key) :
    shape = other := by
  have hfield : ∀ f ∈ shape, p.HasField optional condition f := fun f hf => ⟨shape, hshape, hf⟩
  have hfield' : ∀ f ∈ other, p.HasField optional condition f := fun f hf => ⟨other, hother, hf⟩
  clear hshape hother
  induction shape generalizing other with
  | nil => exact (List.map_eq_nil_iff.1 hkey.symm).symm
  | cons f shape ih =>
      cases other with
      | nil => cases hkey
      | cons g other =>
          obtain ⟨hhead, htail⟩ := List.cons_eq_cons.1 hkey
          obtain ⟨hf, hrest⟩ := List.forall_mem_cons.1 hfield
          obtain ⟨hg, hrest'⟩ := List.forall_mem_cons.1 hfield'
          obtain ⟨hname, hpath⟩ := Prod.mk.inj hhead
          rw [eq_of_rulePath p hplaced hf hg hname hpath, ih htail hrest hrest']

end Production

/-! ### What is left of a rule -/

namespace Schema

open Production

variable {d : Dialect} {path : String} {seen seen' : List String} {p : Production}

/-- What is left of a rule stands at its path. -/
theorem path_of_cut {r : Rule} (h : cut d path seen r = .ok (some p, seen')) :
    p.info.path = path := by
  rw [cut.eq_def] at h
  simp only [bind, Except.bind, pure, Except.pure, throw, throwThe, MonadExceptOf.throw] at h
  split at h
  · cases h
  · replace h := ok_of_checked h
    cases r with
    | token attrs kinds values =>
        cases h
        rfl
    | node attrs types climb =>
        cases h
        rfl
    | sequence attrs parts =>
        dsimp only at h
        split at h
        · cases h
        · split at h
          · cases h
          · cases h
            rfl
    | alternatives attrs branches =>
        dsimp only at h
        split at h
        · split at h
          · cases h
          · cases h
            rfl
        · split at h
          · cases h
          · split at h
            · cases h
            · cases h
              rfl
    | block attrs bracket inner =>
        dsimp only at h
        split at h
        · cases h
        next v hv =>
          obtain ⟨_ | q, seen''⟩ := v
          · cases h
          · cases h
            rfl

/-- Of alternatives some branch is left. -/
theorem branches_of_cut {attrs : RuleAttrs} {rules : List Rule} {info : RuleInfo}
    {branches : List Production}
    (h : cut d path seen (.alternatives attrs rules) =
      .ok (some (.alternatives info branches), seen')) : branches ≠ [] := by
  simp only [cut, bind, Except.bind, pure, Except.pure, throw, throwThe,
    MonadExceptOf.throw] at h
  split at h
  · cases h
  · replace h := ok_of_checked h
    split at h
    · split at h
      · cases h
      next hsome =>
        cases h
        simpa using hsome
    · split at h
      · cases h
      · split at h
        · cases h
        next hsome =>
          cases h
          simpa using hsome

mutual

theorem placed_of_cut : (r : Rule) → {path : String} → {seen seen' : List String} →
    {p : Production} → cut d path seen r = .ok (some p, seen') → p.Placed path
  | .token attrs kinds values, _, _, _, p, h => by
      have hpath := path_of_cut h
      obtain ⟨info, rfl, rfl⟩ := leaves_of_cut h
      exact hpath
  | .node attrs types climb, _, _, _, p, h => by
      have hpath := path_of_cut h
      obtain ⟨info, rfl, rfl⟩ := leaves_of_cut h
      exact hpath
  | .sequence attrs parts, _, _, _, p, h => by
      have hpath := path_of_cut h
      obtain ⟨info, ps, _, rfl, rfl, hps⟩ := leaves_of_cut h
      exact ⟨hpath, placed_of_cutAll parts hps⟩
  | .alternatives attrs branches, _, _, _, p, h => by
      have hpath := path_of_cut h
      obtain ⟨info, ps, rfl, rfl, hps⟩ := leaves_of_cut h
      refine ⟨hpath, branches_of_cut h, fun hname => ?_⟩
      obtain ⟨_, hps⟩ := hps hname
      exact placed_of_cutAll branches hps
  | .block attrs bracket inner, _, _, _, p, h => by
      have hpath := path_of_cut h
      obtain ⟨info, q, _, rfl, rfl, hq⟩ := leaves_of_cut h
      exact ⟨hpath, placed_of_cut inner hq⟩

theorem placed_of_cutAll : (rs : List Rule) → {path : String} → {index : Nat} →
    {seen seen' : List String} → {ps : List Production} →
    cutAll d path index seen rs = .ok (ps, seen') → PlacedAll path index ps
  | [], _, _, _, _, ps, h => by
      rw [cutAll] at h
      cases h
      trivial
  | r :: rest, _, index, _, _, ps, h => by
      obtain ⟨first, _, others, hfirst, hothers, rfl⟩ := exists_of_cutAll h
      have hrest := placed_of_cutAll rest hothers
      cases first with
      | none => exact hrest.mono (Nat.le_succ index)
      | some p => exact ⟨index, Nat.le_refl index, placed_of_cut r hfirst, hrest⟩

end

/-! ### Shapes that are kept -/

theorem subset_of_distinctShapes {tag : String} {known given shapes : List Shape} {shape : Shape}
    (h : distinctShapes tag known given = .ok shapes) (hshape : shape ∈ known) :
    shape ∈ shapes := by
  induction given generalizing known with
  | nil =>
      cases h
      exact hshape
  | cons s rest ih =>
      rw [distinctShapes] at h
      split at h
      · cases h
      · split at h
        · exact ih h hshape
        · exact ih h (List.mem_append_left _ hshape)

/-- Of the given shapes one with the same names and paths is kept. -/
theorem exists_key_of_distinctShapes {tag : String} {known given shapes : List Shape}
    {shape : Shape} (h : distinctShapes tag known given = .ok shapes) (hshape : shape ∈ given) :
    ∃ kept ∈ shapes, kept.key = shape.key := by
  induction given generalizing known with
  | nil => cases hshape
  | cons s rest ih =>
      rw [distinctShapes] at h
      split at h
      · cases h
      · split at h
        next hknown =>
          rcases List.mem_cons.1 hshape with rfl | hshape
          · obtain ⟨kept, hkept, hkey⟩ := List.any_eq_true.1 hknown
            exact ⟨kept, subset_of_distinctShapes h hkept, beq_iff_eq.1 hkey⟩
          · exact ih h hshape
        next =>
          rcases List.mem_cons.1 hshape with rfl | hshape
          ·             exact ⟨shape,
              subset_of_distinctShapes h (List.mem_append_right _ (List.mem_singleton_self _)), rfl⟩
          · exact ih h hshape

theorem root_of_compile {catalog : Catalog} {tag : String} {r : Rule} {schema : Schema}
    {root : Production} (h : compile catalog tag r d = .ok schema)
    (hroot : schema.root = some root) :
    (∃ seen, cut d tag [] r = .ok (some root, seen)) ∧
      distinctShapes tag [] (shapesOf false none root) = .ok schema.shapes := by
  simp only [compile, bind, Except.bind, pure, Except.pure] at h
  split at h
  · cases h
  · split at h
    · cases h
    next cutting hcut =>
      split at h
      · cases h
      next shapes hshapes =>
        cases h
        obtain ⟨left, seen⟩ := cutting
        obtain rfl : left = some root := hroot
        exact ⟨⟨seen, hcut⟩, hshapes⟩

/-- A schema has every shape of what its rule leaves in the dialect. -/
theorem mem_shapes_iff {catalog : Catalog} {tag : String} {r : Rule} {schema : Schema}
    {root : Production} (h : compile catalog tag r d = .ok schema)
    (hroot : schema.root = some root) (shape : Shape) :
    shape ∈ schema.shapes ↔ shape ∈ shapesOf false none root := by
  obtain ⟨⟨seen, hcut⟩, hshapes⟩ := root_of_compile h hroot
  have given : ∀ kept ∈ schema.shapes, kept ∈ shapesOf false none root := by
    intro kept hkept
    rcases mem_of_distinctShapes hshapes hkept with hnone | ⟨hmem, -⟩
    · cases hnone
    · exact hmem
  constructor
  · exact given shape
  · intro hshape
    obtain ⟨kept, hkept, hkey⟩ := exists_key_of_distinctShapes hshapes hshape
    rwa [← eq_of_key (placed_of_cut r hcut) (given kept hkept) hshape hkey]

end Schema

end DualSql
