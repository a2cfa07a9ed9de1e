import DualSql.Forest.Traverse
import DualSql.Proofs.Forest.Edits
import DualSql.Proofs.Forest.Planting

/-! # Who owns a node

A node that is held in a field is linked to the node that holds it. Both are
kept in step by every edit that leaves no child behind: one that makes a node of
different children, and one that overwrites no field with a child in it. After
such edits each node is held once, links and fields agree, and no way down comes
back, so that every walk downwards ends.

Main definitions: `Forest.Edit.Clean`, `Forest.Owned` and `Forest.IsForest`. Main
results: `Forest.isForest_of_clean`, and what happens without the condition,
`Forest.not_isForest_of_left_behind`. -/

namespace DualSql.Forest

variable {f f' : Forest} {id parent child : NodeId} {name : String} {fields : Fields}

/-- A node is held in a field of another one. -/
def IsChild (f : Forest) (child parent : NodeId) : Prop :=
  child ∈ Fields.children (f.fields parent)

/-- An edit leaves no child behind. A field that it overwrites holds none, and
the children of a node that it makes are different ones. -/
def Edit.Clean (f : Forest) : Edit → Prop
  | build _ fields => (Fields.children fields).Nodup
  | setTerminal id name _ => f.children id name = []
  | adopt parent name _ => Fields.held name ((f.fields parent).erase name) = []
  | pushChild parent name _ => f.child? parent name = none
  | release _ => True
  | removeField _ _ => True

/-- Links and fields agree, and no node is held twice in the fields of another. -/
structure Owned (f : Forest) : Prop where
  distinct : ∀ parent, (Fields.children (f.fields parent)).Nodup
  linked : ∀ child parent, f.parent? child = some parent ↔ f.IsChild child parent

namespace Owned

/-- A node without a parent comes to be held by another one. -/
theorem attach (parent child : NodeId) (ho : f.Owned) (horphan : f.parent? child = none)
    (hparents : ∀ i, f'.parent? i = if i = child then some parent else f.parent? i)
    (hothers : ∀ i ≠ parent, f'.fields i = f.fields i)
    (hheld : (Fields.children (f'.fields parent)).Perm
      (child :: Fields.children (f.fields parent))) : f'.Owned := by
  have hfree (p : NodeId) : child ∉ Fields.children (f.fields p) := by
    intro hmem
    rw [(ho.linked child p).2 hmem] at horphan
    cases horphan
  constructor
  · intro p
    by_cases hp : p = parent
    · rw [hp, hheld.nodup_iff]
      exact List.nodup_cons.2 ⟨hfree parent, ho.distinct parent⟩
    · rw [hothers p hp]
      exact ho.distinct p
  · intro c p
    rw [hparents, IsChild]
    by_cases hp : p = parent
    · subst hp
      rw [hheld.mem_iff, List.mem_cons, ← IsChild, ← ho.linked]
      by_cases hc : c = child <;> simp [hc]
    · rw [hothers p hp, ← IsChild, ← ho.linked]
      by_cases hc : c = child
      · simp [hc, horphan, Ne.symm hp]
      · simp [hc]

/-- Some children of a node are let go. -/
theorem detach (parent : NodeId) (gone : List NodeId) (ho : f.Owned)
    (hgone : ∀ c ∈ gone, f.IsChild c parent)
    (hparents : ∀ i, f'.parent? i = if i ∈ gone then none else f.parent? i)
    (hothers : ∀ i ≠ parent, f'.fields i = f.fields i)
    (hheld : (Fields.children (f'.fields parent)).Nodup ∧
      ∀ c, c ∈ Fields.children (f'.fields parent) ↔ f.IsChild c parent ∧ c ∉ gone) :
    f'.Owned := by
  constructor
  · intro p
    by_cases hp : p = parent
    · exact hp ▸ hheld.1
    · rw [hothers p hp]
      exact ho.distinct p
  · intro c p
    rw [hparents, IsChild]
    by_cases hp : p = parent
    · subst hp
      rw [hheld.2, ← ho.linked]
      by_cases hc : c ∈ gone <;> simp [hc]
    · rw [hothers p hp, ← IsChild, ← ho.linked]
      by_cases hc : c ∈ gone
      · simp [hc, (ho.linked c parent).2 (hgone c hc), Ne.symm hp]
      · simp [hc]

theorem append {tag : String} (ho : f.Owned)
    (exist : ∀ child ∈ Fields.children fields, child < f.size)
    (horphan : ∀ child ∈ Fields.children fields, f.parent? child = none)
    (hnodup : (Fields.children fields).Nodup) : (f.append tag fields).2.Owned := by
  constructor
  · intro p
    rw [fields_append]
    split
    · exact hnodup
    · exact ho.distinct p
  · intro c p
    rw [parent?_append exist, IsChild, fields_append]
    by_cases hp : p = f.size
    · subst hp
      rw [if_pos rfl]
      by_cases hc : c ∈ Fields.children fields
      · simp [hc]
      · have hnone : f.parent? c ≠ some f.size := by
          intro hlink
          have hmem := (ho.linked c f.size).1 hlink
          rw [IsChild, Forest.fields, node?, Array.getElem?_eq_none (Nat.le_refl f.size)] at hmem
          cases hmem
        simp [hc, hnone]
    · rw [if_neg hp, ← IsChild, ← ho.linked]
      by_cases hc : c ∈ Fields.children fields
      · simp [hc, horphan c hc, Ne.symm hp]
      · simp [hc]

/-- A field that holds no child can be overwritten by something that holds none. -/
theorem setTerminal {t : Terminal} (ho : f.Owned) (hid : id < f.size)
    (hnone : f.children id name = []) : (f.setTerminal id name t).Owned := by
  have hheld : (Fields.children ((f.setTerminal id name t).fields id)).Perm
      (Fields.children (f.fields id)) := by
    rw [Forest.setTerminal, fields_setFields _ hid, if_pos rfl]
    have hold := Fields.children_perm_erase name (f.fields id)
    rw [show Fields.held name (f.fields id) = [] from hnone] at hold
    exact (Fields.children_perm_set ..).trans hold.symm
  have hothers (i : NodeId) (hi : i ≠ id) : (f.setTerminal id name t).fields i = f.fields i := by
    rw [Forest.setTerminal, fields_setFields _ hid, if_neg hi]
  refine ho.detach id [] (fun c hc => absurd hc List.not_mem_nil) (fun i => ?_) hothers ⟨?_, fun c => ?_⟩
  · simp [Forest.setTerminal]
  · exact hheld.nodup_iff.2 (ho.distinct id)
  · simp [hheld.mem_iff, IsChild]

theorem removeField (ho : f.Owned) (hid : id < f.size) : (f.removeField id name).2.Owned := by
  have hold := Fields.children_perm_erase name (f.fields id)
  have hnodup := hold.nodup_iff.1 (ho.distinct id)
  refine ho.detach id (Fields.held name (f.fields id))
    (fun c hc => Fields.held_subset name _ c hc) parent?_removeField
    (fun i hi => ?_) ⟨?_, fun c => ?_⟩
  · rw [fields_removeField hid, if_neg hi]
  · rw [fields_removeField hid, if_pos rfl]
    exact hnodup.of_append_right
  · rw [fields_removeField hid, if_pos rfl, IsChild, hold.mem_iff, List.mem_append]
    have hdisjoint : c ∈ Fields.children ((f.fields id).erase name) →
        c ∉ Fields.held name (f.fields id) :=
      fun hc hheld => (List.disjoint_of_nodup_append hnodup) hheld hc
    tauto

theorem release (ho : f.Owned) (hl : f.Linked) (hchild : child < f.size) :
    (f.release child).2.Owned := by
  cases hparent : f.parent? child with
  | none =>
      rw [Forest.release, hparent]
      exact ho
  | some p =>
      have hfields := fields_release hparent (hl child p hparent)
      refine ho.detach p [child] (fun c hc => ?_) (fun i => ?_)
        (fun i hi => ?_) ⟨?_, fun c => ?_⟩
      · rw [List.mem_singleton.1 hc]
        exact (ho.linked child p).1 hparent
      · simpa only [List.mem_singleton] using parent?_release hchild i
      · rw [hfields, if_neg hi]
      · rw [hfields, if_pos rfl, Fields.children_without]
        exact (ho.distinct p).filter _
      · rw [hfields, if_pos rfl, Fields.children_without]
        simp [IsChild]

theorem adopt (ho : f.Owned) (hparent : parent < f.size) (hchild : child < f.size)
    (hnone : Fields.held name ((f.fields parent).erase name) = [])
    (h : f.adopt parent name child = .ok f') : f'.Owned := by
  obtain ⟨horphan, -, rfl⟩ := adopt_ok h
  have hremoved : (f.removeField parent name).2.Owned := ho.removeField hparent
  have hfields : (f.removeField parent name).2.fields parent = (f.fields parent).erase name := by
    rw [fields_removeField hparent, if_pos rfl]
  refine hremoved.attach parent child ?_ (fun i => ?_) (fun i hi => ?_) ?_
  · rw [parent?_removeField, horphan, ite_self]
  · rw [parent?_setFields, parent?_setParent _ (by simpa using hchild)]
  · rw [fields_setFields _ (by simpa using hparent), if_neg hi, fields_setParent]
  · rw [fields_setFields _ (by simpa using hparent), if_pos rfl, fields_setParent, hfields]
    have hold := Fields.children_perm_erase name ((f.fields parent).erase name)
    rw [hnone] at hold
    exact (Fields.children_perm_set ..).trans (hold.symm.cons child)

theorem pushChild (ho : f.Owned) (hparent : parent < f.size) (hchild : child < f.size)
    (hnone : f.child? parent name = none) (h : f.pushChild parent name child = .ok f') :
    f'.Owned := by
  obtain ⟨horphan, -, rfl⟩ := pushChild_ok h
  have hitems : Fields.held name (f.fields parent) = f.items parent name := by
    rw [Forest.child?, Forest.field?] at hnone
    rw [Forest.items, Forest.field?, Fields.held]
    rcases hl : (f.fields parent).lookup name with _ | _ | n | ids
    · rfl
    · rfl
    · rw [hl] at hnone
      cases hnone
    · rfl
  refine ho.attach parent child horphan (fun i => ?_) (fun i hi => ?_) ?_
  · rw [parent?_setFields, parent?_setParent _ hchild]
  · rw [fields_setFields _ (by simpa using hparent), if_neg hi, fields_setParent]
  · rw [fields_setFields _ (by simpa using hparent), if_pos rfl, fields_setParent]
    have hold := Fields.children_perm_erase name (f.fields parent)
    rw [hitems] at hold
    refine (Fields.children_perm_set ..).trans (.trans ?_ (hold.symm.cons child))
    exact (List.perm_append_singleton child _).append_right _

end Owned

theorem Reached.owned (h : Reached Edit.Clean f) : f.Owned := by
  induction h with
  | empty d =>
      refine ⟨fun p => ?_, fun c p => ?_⟩
      · rw [fields_of_size_le (Nat.zero_le p)]
        exact List.nodup_nil
      · rw [parent?_of_size_le (Nat.zero_le c), IsChild, fields_of_size_le (Nat.zero_le p)]
        simp [Fields.children]
  | @edit f e before exist clean ih =>
      have hl := before.rooted.1
      cases e with
      | build tag fields =>
          simp only [Forest.edit]
          cases hb : f.build tag fields with
          | error e => exact ih
          | ok built =>
              obtain ⟨id, f'⟩ := built
              have horphan := orphans_of_build hb
              obtain ⟨-, rfl⟩ := build_ok hb
              exact ih.append exist horphan clean
      | setTerminal id name t => exact ih.setTerminal (exist id (by simp [Edit.nodes])) clean
      | adopt parent name child =>
          simp only [Forest.edit]
          cases ha : f.adopt parent name child with
          | error e => exact ih
          | ok f' =>
              exact ih.adopt (exist parent (by simp [Edit.nodes]))
                (exist child (by simp [Edit.nodes])) clean ha
      | pushChild parent name child =>
          simp only [Forest.edit]
          cases ha : f.pushChild parent name child with
          | error e => exact ih
          | ok f' =>
              exact ih.pushChild (exist parent (by simp [Edit.nodes]))
                (exist child (by simp [Edit.nodes])) clean ha
      | release child => exact ih.release hl (exist child (by simp [Edit.nodes]))
      | removeField id name => exact ih.removeField (exist id (by simp [Edit.nodes]))

/-! ### The way down -/

/-- The way down from a node meets at most so many nodes. -/
def Shallow (f : Forest) : Nat → NodeId → Prop
  | 0, _ => False
  | depth + 1, id => ∀ child ∈ Fields.children (f.fields id), f.Shallow depth child

/-- Every link down makes the way up longer, and that is bounded by the size. -/
theorem Owned.shallow (ho : f.Owned) (hr : f.Rooted) (hl : f.Linked) {steps depth : Nat}
    {a : NodeId} (hclimb : f.climb steps id = some a) (hid : id < f.size)
    (hle : f.size ≤ steps + depth) : f.Shallow depth id := by
  induction depth generalizing steps id with
  | zero => exact absurd (hr.climb_lt hl hclimb hid) (by omega)
  | succ depth ih =>
      intro child hchild
      have hparent : f.parent? child = some id := (ho.linked child id).2 hchild
      have hexists : child < f.size := by
        by_contra hge
        rw [parent?_of_size_le (Nat.le_of_not_lt hge)] at hparent
        cases hparent
      have hlonger : f.climb (steps + 1) child = some a := by rw [climb, hparent]; exact hclimb
      exact ih hlonger hexists (by omega)

theorem Shallow.acc {depth : Nat} (h : f.Shallow depth id) : Acc f.IsChild id := by
  induction depth generalizing id with
  | zero => exact h.elim
  | succ depth ih => exact Acc.intro id fun child hchild => ih (h child hchild)

theorem children_subset {value : FieldValue} (h : (name, value) ∈ fields) :
    ∀ child ∈ value.children, child ∈ Fields.children fields :=
  fun _ hchild => List.mem_flatMap.2 ⟨_, h, hchild⟩

/-! A walk that goes deeper than the way down finds nothing more. -/

theorem Shallow.descendantsTo_eq {depth bound : Nat} (h : f.Shallow depth id)
    (hle : depth ≤ bound) : f.descendantsTo bound id = f.descendantsTo depth id := by
  induction depth generalizing id bound with
  | zero => exact h.elim
  | succ depth ih =>
      obtain ⟨bound, rfl⟩ := Nat.exists_eq_add_of_le' (Nat.le_trans (Nat.le_add_left 1 depth) hle)
      rw [descendantsTo, descendantsTo,
        List.flatMap_congr fun child hchild => ih (h child hchild) (by omega)]

theorem sameValue_congr {sameNode sameNode' : NodeId → NodeId → Bool} {x : FieldValue}
    (h : ∀ child ∈ x.children, sameNode child = sameNode' child) (y : FieldValue) :
    sameValue sameNode x y = sameValue sameNode' x y := by
  cases x with
  | terminal t => cases y <;> rfl
  | node id =>
      have hid := h id (by simp [FieldValue.children])
      cases y <;> simp [sameValue, hid]
  | list ids =>
      cases y with
      | list others =>
          have hall : ((ids.zip others).all fun p => sameNode p.1 p.2) =
              (ids.zip others).all fun p => sameNode' p.1 p.2 := by
            rw [Bool.eq_iff_iff, List.all_eq_true, List.all_eq_true]
            refine forall₂_congr fun p hp => ?_
            rw [h p.1 (List.of_mem_zip hp).1]
          simp only [sameValue, hall]
      | terminal t => rfl
      | node id => rfl

theorem Shallow.sameTo_eq {depth bound : Nat} (h : f.Shallow depth id) (hle : depth ≤ bound)
    (other : Forest) : f.sameTo other bound id = f.sameTo other depth id := by
  induction depth generalizing id bound with
  | zero => exact h.elim
  | succ depth ih =>
      obtain ⟨bound, rfl⟩ := Nat.exists_eq_add_of_le' (Nat.le_trans (Nat.le_add_left 1 depth) hle)
      funext b
      rw [sameTo, sameTo]
      congr 1
      rw [Bool.eq_iff_iff, List.all_eq_true, List.all_eq_true]
      refine forall₂_congr fun field hfield => ?_
      have hvalue : sameValue (f.sameTo other bound) field.2 =
          sameValue (f.sameTo other depth) field.2 := by
        refine funext (sameValue_congr fun child hchild => ?_)
        exact ih (h child (children_subset hfield child hchild)) (by omega)
      dsimp only
      rw [hvalue]

theorem mapM_congr_of_mem {m : Type → Type} {α β : Type} [Monad m] [LawfulMonad m]
    {g g' : α → m β} {l : List α} (h : ∀ x ∈ l, g x = g' x) : l.mapM g = l.mapM g' := by
  induction l with
  | nil => simp only [List.mapM_nil]
  | cons x l ih =>
      have hl : l.mapM g = l.mapM g' := ih fun y hy => h y (List.mem_cons_of_mem _ hy)
      rw [List.mapM_cons, List.mapM_cons, h x List.mem_cons_self, hl]

theorem mapChildren_congr {σ : Type} {copy copy' : NodeId → StateM σ NodeId} {value : FieldValue}
    (h : ∀ child ∈ value.children, copy child = copy' child) :
    mapChildren copy value = mapChildren copy' value := by
  cases value with
  | terminal t => rfl
  | node id => rw [mapChildren, mapChildren, h id (by simp [FieldValue.children])]
  | list ids =>
      have hids : ids.mapM copy = ids.mapM copy' := mapM_congr_of_mem h
      rw [mapChildren, mapChildren, hids]

theorem Shallow.copyTo_eq {depth bound : Nat} (h : f.Shallow depth id) (hle : depth ≤ bound) :
    f.copyTo bound id = f.copyTo depth id := by
  induction depth generalizing id bound with
  | zero => exact h.elim
  | succ depth ih =>
      obtain ⟨bound, rfl⟩ := Nat.exists_eq_add_of_le' (Nat.le_trans (Nat.le_add_left 1 depth) hle)
      rw [copyTo, copyTo]
      congr 1
      refine mapM_congr_of_mem fun ⟨name, value⟩ hfield => ?_
      have hvalue := mapChildren_congr fun child hchild =>
        ih (h child (children_subset hfield child hchild)) (by omega : depth ≤ bound)
      simp only [hvalue]

/-! ### Forests -/

/-- Every node is held at most once, by the node that it is linked to. No way
down comes back, and the walks downwards end: a larger depth changes nothing. -/
structure IsForest (f : Forest) : Prop where
  once : ((List.range f.size).flatMap fun id => Fields.children (f.fields id)).Nodup
  linked : ∀ child parent, f.parent? child = some parent ↔ f.IsChild child parent
  acyclic : ∀ id, ¬ Relation.TransGen f.IsChild id id
  descendants : ∀ id < f.size, ∀ depth ≥ f.size,
    f.descendantsTo depth id = f.descendants id
  same : ∀ id < f.size, ∀ depth > f.size, ∀ other b,
    f.sameTo other depth id b = f.same id other b
  copyInto : ∀ id < f.size, ∀ depth ≥ f.size, ∀ target,
    f.copyTo depth id target = f.copyInto id target

/-- No child is held by two nodes, since it is linked to one. -/
theorem Owned.once (ho : f.Owned) :
    ((List.range f.size).flatMap fun id => Fields.children (f.fields id)).Nodup := by
  refine List.nodup_flatMap.2 ⟨fun id _ => ho.distinct id, ?_⟩
  refine List.nodup_range.imp fun {p q} hne => ?_
  intro child hp hq
  have hlink := (ho.linked child p).2 hp
  rw [(ho.linked child q).2 hq] at hlink
  exact hne (Option.some.inj hlink).symm

theorem isForest_of_clean (h : Reached Edit.Clean f) : f.IsForest := by
  have ho := h.owned
  obtain ⟨hl, hr⟩ := h.rooted
  have hshallow (id : NodeId) (hid : id < f.size) : f.Shallow f.size id :=
    ho.shallow hr hl (show f.climb 0 id = some id from rfl) hid (by omega)
  have hacc : WellFounded f.IsChild := by
    refine ⟨fun id => ?_⟩
    by_cases hid : id < f.size
    · exact (hshallow id hid).acc
    · refine Acc.intro id fun child hchild => ?_
      rw [IsChild, fields_of_size_le (Nat.le_of_not_lt hid)] at hchild
      cases hchild
  constructor
  · exact ho.once
  · exact ho.linked
  · exact fun id => hacc.transGen.irrefl.irrefl id
  · exact fun id hid depth hle => (hshallow id hid).descendantsTo_eq hle
  · intro id hid depth hlt other b
    rw [same, (hshallow id hid).sameTo_eq (Nat.le_of_lt hlt),
      (hshallow id hid).sameTo_eq (Nat.le_succ f.size)]
  · intro id hid depth hle target
    rw [copyInto, (hshallow id hid).copyTo_eq hle]

instance (f : Forest) : (e : Edit) → Decidable (e.Clean f)
  | .build _ fields => inferInstanceAs (Decidable (Fields.children fields).Nodup)
  | .setTerminal id name _ => inferInstanceAs (Decidable (f.children id name = []))
  | .adopt parent name _ =>
      inferInstanceAs (Decidable (Fields.held name ((f.fields parent).erase name) = []))
  | .pushChild parent name _ => inferInstanceAs (Decidable (f.child? parent name = none))
  | .release _ => inferInstanceAs (Decidable True)
  | .removeField _ _ => inferInstanceAs (Decidable True)

/-- Two nodes below a third, the first of which is moved below the second. -/
def moved : List Edit :=
  [.build "A" [], .build "A" [], .build "B" [("x", .node 0)], .pushChild 2 "y" 1, .release 0,
    .adopt 1 "z" 0]

theorem isForest_moved : Reached Edit.Clean (after moved) ∧ (after moved).IsForest ∧
    (after moved).parent? 0 = some 1 :=
  have hreached : Reached Edit.Clean (after moved) := reached_after (by decide)
  ⟨hreached, isForest_of_clean hreached, by decide⟩

/-- A field with a node in it is overwritten by a terminal. -/
def overwritten : List Edit :=
  [.build "A" [], .build "B" [("x", .node 0)],
    .setTerminal 1 "x" { kind := .identifier, value := "v" }]

/-- A node is held by two fields of another one, which the first then adopts. -/
def heldTwice : List Edit :=
  [.build "A" [], .build "B" [("x", .node 0), ("y", .node 0)], .removeField 1 "x",
    .adopt 0 "z" 1]

theorem not_isForest_of_left_behind :
    (Reached (fun _ _ => True) (after overwritten) ∧
      (after overwritten).parent? 0 = some 1 ∧ ¬ (after overwritten).IsChild 0 1) ∧
    Reached (fun _ _ => True) (after heldTwice) ∧
      Relation.TransGen (after heldTwice).IsChild 0 0 := by
  refine ⟨⟨reached_after (by decide), by decide, ?_⟩, reached_after (by decide), ?_⟩
  · unfold IsChild
    decide
  · have hdown : (after heldTwice).IsChild 1 0 := by unfold IsChild; decide
    have hback : (after heldTwice).IsChild 0 1 := by unfold IsChild; decide
    exact .tail (.single hback) hdown

end DualSql.Forest
