import Mathlib.Data.List.Nodup
import Mathlib.Data.List.Perm.Subperm
import Mathlib.Logic.Relation
import Mathlib.Order.WellFounded
import DualSql.Proofs.Grammar.Content

/-! # Changes to a forest

A forest changes by edits, each of which names nodes that exist. A node is
attached to another one only if it has no parent and is not met on the way up
from there, so the way up from any node ends, whatever was done before.

Main definitions: `Forest.Edit`, `Forest.Reached`, `Forest.Follow` and `Forest.Rooted`. Main
result: `Forest.Reached.rooted`. -/

namespace DualSql

/-! ### Fields that change -/

namespace Fields

variable {name : String} {value : FieldValue} {fields : Fields} {child id : NodeId}

/-- The children in the first field with a name. -/
def held (name : String) (fields : Fields) : List NodeId :=
  (fields.lookup name).elim [] FieldValue.children

theorem children_cons (field : String × FieldValue) (fields : Fields) :
    Fields.children (field :: fields) = field.2.children ++ Fields.children fields :=
  List.flatMap_cons

/-- The children of a field that is taken out, and those of the other fields. -/
theorem children_perm_erase (name : String) (fields : Fields) :
    (Fields.children fields).Perm (held name fields ++ Fields.children (fields.erase name)) := by
  induction fields with
  | nil => exact .refl _
  | cons field rest ih =>
      obtain ⟨n, v⟩ := field
      by_cases hn : n = name
      · subst hn
        simp [children_cons, held, Fields.erase]
      · have hheld : held name ((n, v) :: rest) = held name rest := by
          simp [held, List.lookup_cons, beq_false_of_ne (Ne.symm hn)]
        rw [hheld, Fields.erase, if_neg hn, children_cons, children_cons]
        exact (ih.append_left _).trans (List.perm_append_comm_assoc ..)

/-- A field that is set takes the place of the first one with its name. -/
theorem children_perm_set (name : String) (value : FieldValue) (fields : Fields) :
    (Fields.children (fields.set name value)).Perm
      (value.children ++ Fields.children (fields.erase name)) := by
  induction fields with
  | nil => exact .refl _
  | cons field rest ih =>
      obtain ⟨n, v⟩ := field
      by_cases hn : n = name
      · simp only [Fields.set, Fields.erase, if_pos hn, children_cons]
        exact .refl _
      · simp only [Fields.set, Fields.erase, if_neg hn, children_cons]
        exact (ih.append_left _).trans (List.perm_append_comm_assoc ..)

/-- A child that is taken out is taken out of every field. -/
theorem children_without (child : NodeId) (fields : Fields) :
    Fields.children (fields.without child) = (Fields.children fields).filter (· ≠ child) := by
  induction fields with
  | nil => rfl
  | cons field rest ih =>
      obtain ⟨n, v⟩ := field
      rw [children_cons, List.filter_append, ← ih]
      cases v with
      | terminal t => rfl
      | list ids => rfl
      | node id =>
          by_cases h : id = child <;>
            simp [Fields.without, FieldValue.children, h, Fields.children]

theorem held_subset (name : String) (fields : Fields) :
    ∀ id ∈ held name fields, id ∈ Fields.children fields :=
  fun _ hid => (children_perm_erase name fields).mem_iff.2 (List.mem_append_left _ hid)

end Fields

namespace Forest

variable {f f' : Forest} {id parent child : NodeId} {name : String} {fields : Fields}

/-! ### Nodes that change -/

theorem node?_setFields (change : Fields → Fields) (i : Nat) :
    (f.setFields id change).node? i =
      (f.node? i).map fun n => if i = id then { n with fields := change n.fields } else n := by
  simp only [setFields, node?, Array.getElem?_modify]
  by_cases h : i = id
  · subst h
    simp
  · simp [h, Ne.symm h]

@[simp] theorem size_setParent (p : Option NodeId) : (f.setParent id p).size = f.size :=
  Array.size_modify ..

@[simp] theorem size_setFields (change : Fields → Fields) :
    (f.setFields id change).size = f.size :=
  Array.size_modify ..

theorem exists_node? {i : Nat} (h : i < f.size) : ∃ n, f.node? i = some n :=
  ⟨_, Array.getElem?_eq_getElem h⟩

theorem parent?_of_size_le {i : Nat} (h : f.size ≤ i) : f.parent? i = none := by
  rw [parent?, node?, Array.getElem?_eq_none h]
  rfl

@[simp] theorem fields_setParents (ids : List NodeId) (p : Option NodeId) (i : Nat) :
    (f.setParents ids p).fields i = f.fields i := by
  rw [Forest.fields, node?_setParents, Forest.fields]
  cases f.node? i with
  | none => rfl
  | some n =>
      simp only [Option.map_some, Option.elim_some]
      split <;> rfl

@[simp] theorem fields_setParent (p : Option NodeId) (i : Nat) :
    (f.setParent id p).fields i = f.fields i :=
  fields_setParents (f := f) [id] p i

/-- Nodes that exist are given a parent. -/
theorem parent?_setParents (ids : List NodeId) (p : Option NodeId)
    (h : ∀ id ∈ ids, p.isSome → id < f.size) (i : Nat) :
    (f.setParents ids p).parent? i = if i ∈ ids then p else f.parent? i := by
  rw [parent?, node?_setParents, parent?]
  cases hn : f.node? i with
  | some n =>
      simp only [Option.map_some, Option.bind_some]
      split <;> rfl
  | none =>
      by_cases hi : i ∈ ids
      · cases p with
        | none => simp
        | some p =>
            obtain ⟨n, hsome⟩ := exists_node? (h i hi rfl)
            rw [hn] at hsome
            cases hsome
      · simp [hi]

theorem parent?_setParent (p : Option NodeId) (h : id < f.size) (i : Nat) :
    (f.setParent id p).parent? i = if i = id then p else f.parent? i := by
  have hset := parent?_setParents [id] p (by simpa using fun _ => h) i
  simp only [List.mem_singleton] at hset
  exact hset

@[simp] theorem parent?_setFields (change : Fields → Fields) (i : Nat) :
    (f.setFields id change).parent? i = f.parent? i := by
  rw [parent?, node?_setFields, parent?]
  cases f.node? i with
  | none => rfl
  | some n =>
      simp only [Option.map_some, Option.bind_some]
      split <;> rfl

theorem fields_setFields (change : Fields → Fields) (h : id < f.size) (i : Nat) :
    (f.setFields id change).fields i = if i = id then change (f.fields i) else f.fields i := by
  rw [Forest.fields, node?_setFields, Forest.fields]
  by_cases hi : i = id
  · subst hi
    obtain ⟨n, hn⟩ := exists_node? h
    simp [hn]
  · cases f.node? i <;> simp [hi]

theorem parent?_append {tag : String} (h : ∀ child ∈ Fields.children fields, child < f.size)
    (i : Nat) : (f.append tag fields).2.parent? i =
      if i ∈ Fields.children fields then some f.size else f.parent? i := by
  rw [parent?, node?_append]
  by_cases hi : i = f.size
  · subst hi
    have hnot : f.size ∉ Fields.children fields := fun hmem => Nat.lt_irrefl _ (h _ hmem)
    rw [if_pos rfl, if_neg hnot, parent?_of_size_le (Nat.le_refl _)]
    rfl
  · rw [if_neg hi, parent?]
    by_cases hmem : i ∈ Fields.children fields
    · obtain ⟨n, hn⟩ := exists_node? (h i hmem)
      simp [hn, hmem]
    · cases f.node? i <;> simp [hmem]

/-! ### Edits -/

/-- A change to a forest. -/
inductive Edit where
  | build (tag : String) (fields : Fields)
  | setTerminal (id : NodeId) (name : String) (t : Terminal)
  | adopt (parent : NodeId) (name : String) (child : NodeId)
  | pushChild (parent : NodeId) (name : String) (child : NodeId)
  | release (child : NodeId)
  | removeField (id : NodeId) (name : String)

/-- The nodes that an edit names. -/
def Edit.nodes : Edit → List NodeId
  | build _ fields => Fields.children fields
  | setTerminal id _ _ => [id]
  | adopt parent _ child => [parent, child]
  | pushChild parent _ child => [parent, child]
  | release child => [child]
  | removeField id _ => [id]

/-- The forest after an edit. One that fails changes nothing. -/
def edit (f : Forest) : Edit → Forest
  | .build tag fields => (f.build tag fields).toOption.elim f Prod.snd
  | .setTerminal id name t => f.setTerminal id name t
  | .adopt parent name child => (f.adopt parent name child).toOption.getD f
  | .pushChild parent name child => (f.pushChild parent name child).toOption.getD f
  | .release child => (f.release child).2
  | .removeField id name => (f.removeField id name).2

/-- A forest that an empty one becomes by edits that are allowed and name nodes
that exist. -/
inductive Reached (allowed : Forest → Edit → Prop) : Forest → Prop
  | empty (d : Dialect) : Reached allowed { dialect := d }
  | edit {f : Forest} {e : Edit} (before : Reached allowed f)
      (exist : ∀ id ∈ e.nodes, id < f.size) (allows : allowed f e) : Reached allowed (f.edit e)

/-- Each edit of a list is allowed, and names nodes that exist, when its turn comes. -/
def Follow (allowed : Forest → Edit → Prop) : Forest → List Edit → Prop
  | _, [] => True
  | f, e :: edits => (∀ id ∈ e.nodes, id < f.size) ∧ allowed f e ∧ Follow allowed (f.edit e) edits

instance decidableFollow (allowed : Forest → Edit → Prop) [∀ f e, Decidable (allowed f e)] :
    (f : Forest) → (edits : List Edit) → Decidable (Follow allowed f edits)
  | _, [] => inferInstanceAs (Decidable True)
  | f, e :: edits =>
      have := decidableFollow allowed (f.edit e) edits
      inferInstanceAs (Decidable (_ ∧ _ ∧ _))

/-- An empty forest after a list of edits. -/
def after (edits : List Edit) : Forest :=
  edits.foldl edit { dialect := .postgres }

theorem Reached.foldl {allowed : Forest → Edit → Prop} {edits : List Edit}
    (hf : Reached allowed f) (h : Follow allowed f edits) :
    Reached allowed (edits.foldl Forest.edit f) := by
  induction edits generalizing f with
  | nil => exact hf
  | cons e edits ih => exact ih (hf.edit h.1 h.2.1) h.2.2

theorem reached_after {allowed : Forest → Edit → Prop} {edits : List Edit}
    (h : Follow allowed { dialect := .postgres } edits) : Reached allowed (after edits) :=
  (Reached.empty .postgres).foldl h

theorem checkOrphan_ok {u : Unit} (h : f.checkOrphan child = .ok u) : f.parent? child = none := by
  unfold checkOrphan at h
  split at h
  · cases h
  · assumption

theorem forM_checkOrphan_ok {ids : List NodeId} {u : PUnit} (h : ids.forM f.checkOrphan = .ok u) :
    ∀ id ∈ ids, f.parent? id = none := by
  induction ids with
  | nil => nofun
  | cons id ids ih =>
      rw [List.forM_eq_forM, List.forM_cons] at h
      cases hid : f.checkOrphan id with
      | error e =>
          rw [hid] at h
          cases h
      | ok u =>
          rw [hid] at h
          rintro _ (_ | ⟨_, hmem⟩)
          · exact checkOrphan_ok hid
          · exact ih h _ hmem

/-- The children of a node that is made had no parent. -/
theorem orphans_of_build {tag : String} (h : f.build tag fields = .ok (id, f')) :
    ∀ child ∈ Fields.children fields, f.parent? child = none := by
  unfold build at h
  cases hc : (Fields.children fields).forM f.checkOrphan with
  | error e =>
      rw [hc] at h
      cases h
  | ok u => exact forM_checkOrphan_ok hc

theorem checkAttachable_ok {u : Unit} (h : f.checkAttachable parent child = .ok u) :
    f.parent? child = none ∧ f.isAbove child (f.size + 1) (some parent) = false := by
  unfold checkAttachable at h
  cases ho : f.checkOrphan child with
  | error e =>
      rw [ho] at h
      cases h
  | ok u =>
      rw [ho] at h
      cases ha : f.isAbove child (f.size + 1) (some parent) with
      | true =>
          rw [ha] at h
          cases h
      | false => exact ⟨checkOrphan_ok ho, rfl⟩

/-- A node that is adopted takes the place of what the field held. -/
theorem adopt_ok (h : f.adopt parent name child = .ok f') :
    f.parent? child = none ∧ f.isAbove child (f.size + 1) (some parent) = false ∧
      f' = ((f.removeField parent name).2.setParent child (some parent)).setFields parent
        (Fields.set name (.node child)) := by
  unfold adopt at h
  cases hc : f.checkAttachable parent child with
  | error e =>
      rw [hc] at h
      cases h
  | ok u =>
      rw [hc] at h
      cases h
      exact ⟨(checkAttachable_ok hc).1, (checkAttachable_ok hc).2, rfl⟩

/-- The items of a field that is a list. -/
def items (f : Forest) (id : NodeId) (name : String) : List NodeId :=
  match f.field? id name with
  | some (.list ids) => ids
  | _ => []

/-- A node that is pushed comes last in the list of the field. -/
theorem pushChild_ok (h : f.pushChild parent name child = .ok f') :
    f.parent? child = none ∧ f.isAbove child (f.size + 1) (some parent) = false ∧
      f' = (f.setParent child (some parent)).setFields parent
        (Fields.set name (.list (f.items parent name ++ [child]))) := by
  unfold pushChild at h
  cases hc : f.checkAttachable parent child with
  | error e =>
      rw [hc] at h
      cases h
  | ok u =>
      rw [hc] at h
      cases h
      refine ⟨(checkAttachable_ok hc).1, (checkAttachable_ok hc).2, ?_⟩
      unfold items
      rcases f.field? parent name with _ | _ | _ | ids <;> rfl

/-- What a removed field held has no parent any more. -/
theorem parent?_removeField (i : Nat) : (f.removeField id name).2.parent? i =
    if i ∈ Fields.held name (f.fields id) then none else f.parent? i := by
  unfold removeField Fields.held
  rw [field?]
  cases (f.fields id).lookup name with
  | none => simp
  | some value =>
      simp only [Option.elim_some]
      rw [parent?_setParents _ none (by simp), parent?_setFields]
      rfl

@[simp] theorem size_removeField : (f.removeField id name).2.size = f.size := by
  unfold removeField
  split
  · rfl
  · exact (size_setParents ..).trans (size_setFields _)

theorem erase_of_lookup_eq_none (h : fields.lookup name = none) : fields.erase name = fields := by
  induction fields with
  | nil => rfl
  | cons field rest ih =>
      obtain ⟨n, v⟩ := field
      by_cases hn : n = name
      · subst hn
        simp at h
      · rw [List.lookup_cons, beq_false_of_ne (Ne.symm hn)] at h
        rw [Fields.erase, if_neg hn, ih h]

theorem fields_removeField (h : id < f.size) (i : Nat) : (f.removeField id name).2.fields i =
    if i = id then (f.fields i).erase name else f.fields i := by
  unfold removeField
  rw [field?]
  cases hl : (f.fields id).lookup name with
  | none =>
      by_cases hi : i = id
      · rw [if_pos hi, hi, erase_of_lookup_eq_none hl]
      · rw [if_neg hi]
  | some value =>
      simp only [fields_setParents]
      rw [fields_setFields _ h]

theorem parent?_release (h : child < f.size) (i : Nat) :
    (f.release child).2.parent? i = if i = child then none else f.parent? i := by
  unfold release
  split
  next hnone =>
    split
    next hi => rw [hi, hnone]
    next => rfl
  next => rw [parent?_setFields, parent?_setParent none h]

@[simp] theorem size_release : (f.release child).2.size = f.size := by
  unfold release
  split
  · rfl
  · exact (size_setFields _).trans (size_setParent _)

theorem fields_release (hparent : f.parent? child = some parent) (h : parent < f.size) (i : Nat) :
    (f.release child).2.fields i = if i = parent then (f.fields i).without child else f.fields i := by
  unfold release
  rw [hparent]
  simp only
  rw [fields_setFields _ (by simpa using h), fields_setParent]

/-! ### The way up -/

/-- A node is the parent of another one. -/
def IsParent (f : Forest) (parent child : NodeId) : Prop :=
  f.parent? child = some parent

/-- A node is met on the way up from another one, where the way begins included. -/
def Above (f : Forest) : NodeId → NodeId → Prop :=
  Relation.ReflTransGen f.IsParent

/-- The way up from any node ends at a node without a parent. -/
def Rooted (f : Forest) : Prop :=
  WellFounded f.IsParent

/-- The node so many links up. -/
def climb (f : Forest) : Nat → NodeId → Option NodeId
  | 0, id => some id
  | steps + 1, id => (f.parent? id).bind (f.climb steps)

theorem exists_climb {a : NodeId} (h : f.Above a id) : ∃ steps, f.climb steps id = some a := by
  induction h with
  | refl => exact ⟨0, rfl⟩
  | tail _ hlink ih =>
      obtain ⟨steps, hsteps⟩ := ih
      refine ⟨steps + 1, ?_⟩
      rw [climb, hlink]
      exact hsteps

/-- The nodes on the way up are different ones, since the way does not come back. -/
theorem Rooted.exists_way (hr : f.Rooted) (hl : f.Linked) {steps : Nat} {a : NodeId}
    (h : f.climb steps id = some a) (hid : id < f.size) :
    ∃ way : List Nat, way.length = steps + 1 ∧ way.Nodup ∧
      ∀ x ∈ way, x < f.size ∧ f.Above x id := by
  induction steps generalizing id with
  | zero => exact ⟨[id], rfl, List.nodup_singleton id, by simpa using ⟨hid, .refl⟩⟩
  | succ steps ih =>
      obtain ⟨p, hp, hclimb⟩ := Option.bind_eq_some_iff.1 h
      obtain ⟨way, hlength, hnodup, hway⟩ := ih hclimb (hl id p hp)
      refine ⟨id :: way, by simp [hlength], List.nodup_cons.2 ⟨fun hmem => ?_, hnodup⟩, ?_⟩
      · have hcycle : Relation.TransGen f.IsParent id id :=
          Relation.TransGen.tail' (hway id hmem).2 hp
        exact hr.transGen.irrefl.irrefl id hcycle
      · rintro x (_ | ⟨_, hmem⟩)
        · exact ⟨hid, .refl⟩
        · exact ⟨(hway x hmem).1, (hway x hmem).2.tail hp⟩

/-- The way up is shorter than the forest is large. -/
theorem Rooted.climb_lt (hr : f.Rooted) (hl : f.Linked) {steps : Nat} {a : NodeId}
    (h : f.climb steps id = some a) (hid : id < f.size) : steps < f.size := by
  obtain ⟨way, hlength, hnodup, hway⟩ := hr.exists_way hl h hid
  have hsub : way ⊆ List.range f.size := fun x hx => List.mem_range.2 (hway x hx).1
  have hle := (hnodup.subperm hsub).length_le
  rw [List.length_range] at hle
  omega

theorem isAbove_of_climb {steps fuel : Nat} (h : f.climb steps id = some child)
    (hlt : steps < fuel) : f.isAbove child fuel (some id) = true := by
  induction steps generalizing id fuel with
  | zero =>
      obtain ⟨fuel, rfl⟩ := Nat.exists_eq_succ_of_ne_zero (by omega : fuel ≠ 0)
      rw [isAbove, Option.some.inj h, beq_self_eq_true, Bool.true_or]
  | succ steps ih =>
      obtain ⟨fuel, rfl⟩ := Nat.exists_eq_succ_of_ne_zero (by omega : fuel ≠ 0)
      obtain ⟨p, hp, hclimb⟩ := Option.bind_eq_some_iff.1 h
      rw [isAbove, hp, ih hclimb (by omega), Bool.or_true]

/-- The check that a node is not met on the way up is complete. -/
theorem Rooted.not_above (hr : f.Rooted) (hl : f.Linked) (hparent : parent < f.size)
    (h : f.isAbove child (f.size + 1) (some parent) = false) : ¬ f.Above child parent := by
  intro habove
  obtain ⟨steps, hsteps⟩ := exists_climb habove
  have hlt := hr.climb_lt hl hsteps hparent
  rw [isAbove_of_climb hsteps (by omega)] at h
  cases h

/-- Links that are taken away leave the way up ending. -/
theorem Rooted.detach (hr : f.Rooted)
    (h : ∀ i p : NodeId, f'.parent? i = some p → f.parent? i = some p) : f'.Rooted :=
  Subrelation.wf (fun {p i} hp => h i p hp) hr

theorem not_above_detach (h : ∀ i p : NodeId, f'.parent? i = some p → f.parent? i = some p)
    (hnot : ¬ f.Above child parent) : ¬ f'.Above child parent :=
  fun habove => hnot (Relation.ReflTransGen.mono (fun p i hp => h i p hp) _ _ habove)

/-- Nodes without a parent can be attached to one that has none of them above it. -/
theorem Rooted.attach (hr : f.Rooted) {ids : List NodeId}
    (hnot : ∀ child ∈ ids, ¬ f.Above child parent)
    (h : ∀ i, f'.parent? i = if i ∈ ids then some parent else f.parent? i) : f'.Rooted := by
  -- First the nodes that have none of the attached ones above them: their way up is as it was.
  have hfree (x : NodeId) (hx : ∀ child ∈ ids, ¬ f.Above child x) : Acc f'.IsParent x := by
    induction x using hr.induction with
    | _ x ih =>
        refine Acc.intro x fun p hp => ?_
        have hnotin : x ∉ ids := fun hmem => hx x hmem .refl
        rw [IsParent, h, if_neg hnotin] at hp
        exact ih p hp fun child hchild habove => hx child hchild (habove.tail hp)
  refine ⟨fun x => ?_⟩
  induction x using hr.induction with
  | _ x ih =>
      refine Acc.intro x fun p hp => ?_
      rw [IsParent, h] at hp
      split at hp
      next => exact Option.some.inj hp ▸ hfree parent hnot
      next => exact ih p hp

theorem Linked.of_parents (hl : f.Linked) (hsize : f'.size = f.size)
    (h : ∀ i p : NodeId, f'.parent? i = some p → f.parent? i = some p ∨ p < f.size) :
    f'.Linked := by
  intro i p hp
  rw [hsize]
  exact (h i p hp).elim (hl i p) id

theorem removeField_detaches (i p : NodeId)
    (hp : (f.removeField id name).2.parent? i = some p) : f.parent? i = some p := by
  rw [parent?_removeField] at hp
  split at hp
  · cases hp
  · exact hp

/-- One node that is attached below another one. -/
theorem Rooted.attachOne (hr : f.Rooted) (hl : f.Linked) (hsize : f'.size = f.size)
    (hparent : parent < f.size) (hnot : ¬ f.Above child parent)
    (h : ∀ i, f'.parent? i = if i = child then some parent else f.parent? i) :
    f'.Linked ∧ f'.Rooted := by
  constructor
  · refine hl.of_parents hsize fun i p hp => ?_
    rw [h] at hp
    split at hp
    next => exact .inr (Option.some.inj hp ▸ hparent)
    next => exact .inl hp
  · have hlink (i : NodeId) : f'.parent? i = if i ∈ [child] then some parent else f.parent? i := by
      simpa only [List.mem_singleton] using h i
    exact hr.attach (fun c hc => List.mem_singleton.1 hc ▸ hnot) hlink

theorem rooted_build {tag : String} (hl : f.Linked) (hr : f.Rooted)
    (exist : ∀ child ∈ Fields.children fields, child < f.size) :
    (f.append tag fields).2.Linked ∧ (f.append tag fields).2.Rooted := by
  refine ⟨hl.append, hr.attach (fun child hchild habove => ?_) (parent?_append exist)⟩
  rcases habove.cases_tail with heq | ⟨p, -, hp⟩
  · exact absurd (exist child hchild) (heq ▸ Nat.lt_irrefl _)
  · rw [IsParent, parent?_of_size_le (Nat.le_refl _)] at hp
    cases hp

theorem rooted_adopt (hl : f.Linked) (hr : f.Rooted) (hparent : parent < f.size)
    (hchild : child < f.size) (h : f.adopt parent name child = .ok f') :
    f'.Linked ∧ f'.Rooted := by
  obtain ⟨-, hnot, rfl⟩ := adopt_ok h
  have hl' : (f.removeField parent name).2.Linked :=
    hl.of_parents size_removeField fun i p hp => .inl (removeField_detaches i p hp)
  refine (hr.detach removeField_detaches).attachOne hl' (by simp) (by simpa using hparent)
    (not_above_detach removeField_detaches (hr.not_above hl hparent hnot)) fun i => ?_
  rw [parent?_setFields, parent?_setParent _ (by simpa using hchild)]

theorem rooted_pushChild (hl : f.Linked) (hr : f.Rooted) (hparent : parent < f.size)
    (hchild : child < f.size) (h : f.pushChild parent name child = .ok f') :
    f'.Linked ∧ f'.Rooted := by
  obtain ⟨-, hnot, rfl⟩ := pushChild_ok h
  refine hr.attachOne hl (by simp) hparent (hr.not_above hl hparent hnot) fun i => ?_
  rw [parent?_setFields, parent?_setParent _ hchild]

/-- Every edit leaves a forest in which the way up from any node ends. -/
theorem rooted_edit {e : Edit} (hl : f.Linked) (hr : f.Rooted)
    (exist : ∀ id ∈ e.nodes, id < f.size) : (f.edit e).Linked ∧ (f.edit e).Rooted := by
  have hkept (f' : Forest) (hsize : f'.size = f.size)
      (h : ∀ i p : NodeId, f'.parent? i = some p → f.parent? i = some p) :
      f'.Linked ∧ f'.Rooted :=
    ⟨hl.of_parents hsize fun i p hp => .inl (h i p hp), hr.detach h⟩
  cases e with
  | build tag fields =>
      simp only [edit]
      cases hb : f.build tag fields with
      | error e => exact ⟨hl, hr⟩
      | ok built =>
          obtain ⟨id, f'⟩ := built
          obtain ⟨-, rfl⟩ := build_ok hb
          exact rooted_build hl hr exist
  | setTerminal id name t =>
      refine hkept _ (size_setFields _) fun i p hp => ?_
      rwa [edit, setTerminal, parent?_setFields] at hp
  | adopt parent name child =>
      simp only [edit]
      cases ha : f.adopt parent name child with
      | error e => exact ⟨hl, hr⟩
      | ok f' =>
          exact rooted_adopt hl hr (exist parent (by simp [Edit.nodes]))
            (exist child (by simp [Edit.nodes])) ha
  | pushChild parent name child =>
      simp only [edit]
      cases ha : f.pushChild parent name child with
      | error e => exact ⟨hl, hr⟩
      | ok f' =>
          exact rooted_pushChild hl hr (exist parent (by simp [Edit.nodes]))
            (exist child (by simp [Edit.nodes])) ha
  | release child =>
      refine hkept _ size_release fun i p hp => ?_
      rw [edit, parent?_release (exist child (by simp [Edit.nodes]))] at hp
      split at hp
      · cases hp
      · exact hp
  | removeField id name => exact hkept _ size_removeField removeField_detaches

theorem Reached.rooted {allowed : Forest → Edit → Prop} (h : Reached allowed f) :
    f.Linked ∧ f.Rooted := by
  induction h with
  | empty d =>
      have hnone (i : NodeId) : ({ dialect := d } : Forest).parent? i = none :=
        parent?_of_size_le (Nat.zero_le i)
      refine ⟨fun i p hp => ?_, ⟨fun i => Acc.intro i fun p hp => ?_⟩⟩
      · rw [hnone] at hp
        cases hp
      · rw [IsParent, hnone] at hp
        cases hp
  | edit _ exist _ ih => exact rooted_edit ih.1 ih.2 exist

end Forest

end DualSql
