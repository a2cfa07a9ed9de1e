import Mathlib.Data.List.Basic
import DualSql.Proofs.Grammar.Content

/-! # Trees that are added to a forest

While a tree is made, its parts stand in the forest as trees of their own. A
forest with some trees planted in it has the nodes that it had, and behind them
the nodes of these trees and no others.

Main definition: `Forest.Plants`. Main results: planting one list of trees after
another, `Plants.trans`, and making a node of the trees, `Plants.append`. -/

namespace DualSql.Forest

variable {f f' f'' : Forest} {least : Nat}

theorem node?_of_size_le {id : Nat} (h : f.size ≤ id) : f.node? id = none :=
  Array.getElem?_eq_none h

theorem fields_of_size_le {id : Nat} (h : f.size ≤ id) : f.fields id = [] := by
  rw [fields, node?_of_size_le h]
  rfl

/-! ### Descendants -/

/-- The first node of a forest has no children. -/
theorem Descends.children_zero (h : f.Descends least) (hl : least ≤ 0) :
    (f.fields 0).children = [] := by
  apply List.eq_nil_iff_forall_not_mem.2
  intro child hchild
  exact absurd (h 0 hl child hchild).2 (Nat.not_lt_zero child)

/-- The list of descendants is complete at any depth from the number of the node on. -/
theorem descendantsTo_congr (h : f.Descends least) {depth depth' id : Nat} (hl : least ≤ id)
    (hd : id ≤ depth) (hd' : id ≤ depth') :
    f.descendantsTo depth id = f.descendantsTo depth' id := by
  induction depth generalizing id depth' with
  | zero =>
      obtain rfl : id = 0 := Nat.le_zero.1 hd
      cases depth' <;> simp [descendantsTo, h.children_zero hl]
  | succ depth ih =>
      cases depth' with
      | zero =>
          obtain rfl : id = 0 := Nat.le_zero.1 hd'
          simp [descendantsTo, h.children_zero hl]
      | succ depth' =>
          simp only [descendantsTo, List.cons.injEq, true_and]
          apply List.flatMap_congr
          intro child hchild
          obtain ⟨hle, hlt⟩ := h id hl child hchild
          exact ih hle (by omega) (by omega)

/-- The descendants of a node are the node and the descendants of its children. -/
theorem descendants_eq (h : f.Descends least) {id : Nat} (hl : least ≤ id) (hid : id < f.size) :
    f.descendants id = id :: (f.fields id).children.flatMap f.descendants := by
  obtain ⟨depth, hdepth⟩ : ∃ n, f.size = n + 1 := ⟨f.size - 1, by omega⟩
  rw [descendants, hdepth, descendantsTo]
  congr 1
  apply List.flatMap_congr
  intro child hchild
  obtain ⟨hle, hlt⟩ := h id hl child hchild
  exact descendantsTo_congr h hle (by omega) (by omega)

/-- A tree keeps its descendants while nodes are added. -/
theorem Grows.descendants {kept : Nat} (h : Grows kept f f') (hf : f.Descends least)
    (hf' : f'.Descends least) {id : Nat} (hl : least ≤ id) (hid : id < f.size) :
    f'.descendants id = f.descendants id := by
  induction id using Nat.strongRecOn with
  | _ id ih =>
      have hid' : id < f'.size := Nat.lt_of_lt_of_le hid h.size
      rw [descendants_eq hf hl hid, descendants_eq hf' hl hid', (h.shape id hid).2]
      congr 1
      apply List.flatMap_congr
      intro child hchild
      obtain ⟨hle, hlt⟩ := hf id hl child hchild
      exact ih child hlt hle (Nat.lt_trans hlt hid)

/-- A descendant is the node itself or a child of a descendant. -/
theorem mem_descendantsTo {depth id n : Nat} (h : n ∈ f.descendantsTo depth id) :
    n = id ∨ ∃ p ∈ f.descendantsTo depth id, n ∈ (f.fields p).children := by
  induction depth generalizing id with
  | zero => exact .inl (List.mem_singleton.1 h)
  | succ depth ih =>
      rw [descendantsTo, List.mem_cons, List.mem_flatMap] at h
      rcases h with rfl | ⟨child, hchild, hn⟩
      · exact .inl rfl
      · refine .inr ?_
        rcases ih hn with rfl | ⟨p, hp, hnp⟩
        · exact ⟨id, by simp [descendantsTo], hchild⟩
        · refine ⟨p, ?_, hnp⟩
          rw [descendantsTo, List.mem_cons, List.mem_flatMap]
          exact .inr ⟨child, hchild, hp⟩

theorem mem_descendants_self (f : Forest) (id : NodeId) : id ∈ f.descendants id := by
  rw [descendants]
  cases f.size <;> simp [descendantsTo]

/-! ### Planting -/

/-- Trees were added to a forest: the nodes behind those that it had are the
descendants of the given nodes, which have no parent, and each child is linked
to the node that holds it. -/
structure Plants (f f' : Forest) (ids : List NodeId) : Prop where
  grows : Grows f.size f f'
  descends : f'.Descends f.size
  covers : (ids.flatMap f'.descendants).Perm (List.range' f.size (f'.size - f.size))
  loose : ∀ id ∈ ids, f'.parent? id = none
  links : ∀ p : Nat, f.size ≤ p → ∀ child ∈ (f'.fields p).children, f'.parent? child = some p

namespace Plants

variable {ids ids' : List NodeId}

theorem refl (f : Forest) : Plants f f [] where
  grows := .refl _ f
  descends := f.descends_size
  covers := by simp
  loose := by simp
  links p hp child hchild := by
    rw [fields_of_size_le hp] at hchild
    cases hchild

theorem mem_iff (h : Plants f f' ids) {n : Nat} :
    n ∈ ids.flatMap f'.descendants ↔ f.size ≤ n ∧ n < f'.size := by
  have hsize := h.grows.size
  rw [h.covers.mem_iff, List.mem_range'_1]
  omega

theorem bounds (h : Plants f f' ids) {id : Nat} (hid : id ∈ ids) : f.size ≤ id ∧ id < f'.size :=
  h.mem_iff.1 (List.mem_flatMap.2 ⟨id, hid, f'.mem_descendants_self id⟩)

/-- A node that was added is one of the roots or a child of another such node. -/
theorem root_or_child (h : Plants f f' ids) {n : Nat} (hl : f.size ≤ n) (hn : n < f'.size) :
    n ∈ ids ∨ ∃ p : Nat, f.size ≤ p ∧ p < f'.size ∧ n ∈ (f'.fields p).children := by
  obtain ⟨id, hid, hmem⟩ := List.mem_flatMap.1 (h.mem_iff.2 ⟨hl, hn⟩)
  rcases mem_descendantsTo hmem with rfl | ⟨p, hp, hnp⟩
  · exact .inl hid
  · obtain ⟨hlp, hp⟩ := h.mem_iff.1 (List.mem_flatMap.2 ⟨id, hid, hp⟩)
    exact .inr ⟨p, hlp, hp, hnp⟩

theorem linked (h : Plants f f' ids) (hf : f.Linked) : f'.Linked := by
  intro id parent hparent
  by_cases hid : id < f.size
  · rw [parent?, h.grows.same id hid] at hparent
    exact Nat.lt_of_lt_of_le (hf id parent hparent) h.grows.size
  · by_cases hid' : id < f'.size
    · rcases h.root_or_child (Nat.le_of_not_lt hid) hid' with hroot | ⟨p, hlp, hp, hchild⟩
      · rw [h.loose id hroot] at hparent
        cases hparent
      · rw [h.links p hlp id hchild] at hparent
        cases hparent
        exact hp
    · rw [parent?, node?_of_size_le (Nat.le_of_not_lt hid')] at hparent
      cases hparent

/-- Planting some trees and then others is planting all of them. -/
theorem trans (h : Plants f f' ids) (h' : Plants f' f'' ids') : Plants f f'' (ids ++ ids') := by
  have hsize := h.grows.size
  have hsize' := h'.grows.size
  have hfields (p : Nat) (hp : p < f'.size) : f''.fields p = f'.fields p :=
    (h'.grows.shape p hp).2
  have hparents (n : Nat) (hn : n < f'.size) : f''.parent? n = f'.parent? n := by
    rw [parent?, h'.grows.same n hn, parent?]
  have hdescends : f''.Descends f.size := by
    intro p hp child hchild
    by_cases hlt : p < f'.size
    · rw [hfields p hlt] at hchild
      exact h.descends p hp child hchild
    · obtain ⟨hle, hchild⟩ := h'.descends p (Nat.le_of_not_lt hlt) child hchild
      exact ⟨Nat.le_trans hsize hle, hchild⟩
  constructor
  · exact h.grows.trans (h'.grows.mono hsize)
  · exact hdescends
  · have hkept : ids.flatMap f''.descendants = ids.flatMap f'.descendants := by
      apply List.flatMap_congr
      intro id hid
      obtain ⟨hle, hlt⟩ := h.bounds hid
      exact h'.grows.descendants h.descends hdescends hle hlt
    have hrange := List.range'_append_1 (s := f.size) (m := f'.size - f.size)
      (n := f''.size - f'.size)
    rw [Nat.add_sub_of_le hsize, show f'.size - f.size + (f''.size - f'.size) =
      f''.size - f.size by omega] at hrange
    rw [List.flatMap_append, hkept, ← hrange]
    exact h.covers.append h'.covers
  · intro id hid
    rcases List.mem_append.1 hid with hid | hid
    · rw [hparents id (h.bounds hid).2]
      exact h.loose id hid
    · exact h'.loose id hid
  · intro p hp child hchild
    by_cases hlt : p < f'.size
    · rw [hfields p hlt] at hchild
      rw [hparents child (Nat.lt_trans (h.descends p hp child hchild).2 hlt)]
      exact h.links p hp child hchild
    · exact h'.links p (Nat.le_of_not_lt hlt) child hchild

/-- Planted trees stay what they are while others are planted. -/
theorem map_content (h : Plants f f' ids) (h' : Plants f' f'' ids') :
    ids.map f''.content = ids.map f'.content := by
  apply List.map_congr_left
  intro id hid
  obtain ⟨hle, hlt⟩ := h.bounds hid
  exact h'.grows.content h.descends hle hlt

/-- Making a node of planted trees leaves the tree of that node. -/
theorem append {tag : String} {fields : Fields} (h : Plants f f' fields.children) :
    Plants f (f'.append tag fields).2 [f'.size] := by
  have hsize := h.grows.size
  have hfresh : f'.Fresh f.size fields := fun child hchild => h.bounds hchild
  have hgrows : Grows f.size f' (f'.append tag fields).2 := grows_append hsize hfresh
  have hdescends : (f'.append tag fields).2.Descends f.size := h.descends.append hfresh
  have hnew : (f'.append tag fields).2.size = f'.size + 1 := size_append
  constructor
  · exact h.grows.trans hgrows
  · exact hdescends
  · have hchildren : fields.children.flatMap (f'.append tag fields).2.descendants =
        fields.children.flatMap f'.descendants := by
      apply List.flatMap_congr
      intro child hchild
      obtain ⟨hle, hlt⟩ := h.bounds hchild
      exact hgrows.descendants h.descends hdescends hle hlt
    have hrange : List.range' f.size (f'.size + 1 - f.size) =
        List.range' f.size (f'.size - f.size) ++ [f'.size] := by
      rw [show f'.size + 1 - f.size = (f'.size - f.size) + 1 by omega, List.range'_1_concat]
      congr
      omega
    rw [List.flatMap_singleton, descendants_eq hdescends hsize (by omega), fields_append,
      if_pos rfl, hchildren, hnew, hrange]
    exact (h.covers.cons _).trans (List.perm_append_singleton _ _).symm
  · intro id hid
    obtain rfl := List.mem_singleton.1 hid
    simp [parent?, node?_append]
  · intro p hp child hchild
    rw [fields_append] at hchild
    by_cases hlast : p = f'.size
    · rw [if_pos hlast] at hchild
      have hlt := (h.bounds hchild).2
      have hne : child ≠ f'.size := Nat.ne_of_lt hlt
      obtain ⟨n, hn⟩ : ∃ n, f'.node? child = some n :=
        ⟨_, Array.getElem?_eq_getElem hlt⟩
      simp [parent?, node?_append, hne, hn, hchild, hlast]
    · rw [if_neg hlast] at hchild
      have hlinked := h.links p hp child hchild
      have hheld : child ∉ fields.children := by
        intro hmem
        rw [h.loose child hmem] at hlinked
        cases hlinked
      have hne : child ≠ f'.size := by
        rintro rfl
        rw [parent?, node?_of_size_le (Nat.le_refl _)] at hlinked
        cases hlinked
      rw [parent?, node?_append, if_neg hne]
      simpa [hheld, parent?] using hlinked

end Plants

end DualSql.Forest
