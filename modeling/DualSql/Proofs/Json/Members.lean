import Mathlib.Data.List.Forall2
import DualSql.Json.Value
import DualSql.Proofs.Lookup

/-! # Values up to the order of members

The members of an object are told apart by their keys, and their order does not
count.

Main definitions: `Json.Same`, equality up to the order of members, and
`Json.Distinct`, a value whose objects have no key twice. Main results:
`Json.same_equivalence`, and `Json.same_object_iff`, objects compared key by key. -/

namespace DualSql.Json

/-- Values that are equal up to the order of the members of their objects. -/
inductive Same : Json → Json → Prop
  | refl (j : Json) : Same j j
  | array {xs ys : List Json} (items : List.Forall₂ Same xs ys) : Same (.array xs) (.array ys)
  | object {ms ns ns' : List (String × Json)} (keys : ms.map Prod.fst = ns.map Prod.fst)
      (values : List.Forall₂ (fun m n => Same m.2 n.2) ms ns) (order : ns.Perm ns') :
      Same (.object ms) (.object ns')

mutual

/-- A value in which no object has a key twice. -/
def Distinct : Json → Prop
  | array items => DistinctItems items
  | object members => (members.map Prod.fst).Nodup ∧ DistinctMembers members
  | _ => True

/-- Items in which no object has a key twice. -/
def DistinctItems : List Json → Prop
  | [] => True
  | item :: rest => item.Distinct ∧ DistinctItems rest

/-- Members with values in which no object has a key twice. -/
def DistinctMembers : List (String × Json) → Prop
  | [] => True
  | (_, value) :: rest => value.Distinct ∧ DistinctMembers rest

end

theorem distinctItems_iff {items : List Json} :
    DistinctItems items ↔ ∀ item ∈ items, item.Distinct := by
  induction items with
  | nil => simp [DistinctItems]
  | cons item rest ih => simp [DistinctItems, ih]

theorem distinctMembers_iff {members : List (String × Json)} :
    DistinctMembers members ↔ ∀ m ∈ members, m.2.Distinct := by
  induction members with
  | nil => simp [DistinctMembers]
  | cons m rest ih => simp [DistinctMembers, ih]

/-- Objects are the same if they have the same under each key, or nothing. -/
theorem same_object {ms ns : List (String × Json)} (hms : (ms.map Prod.fst).Nodup)
    (hns : (ns.map Prod.fst).Nodup) (h : ∀ key, Option.Rel Same (ms.lookup key) (ns.lookup key)) :
    Same (.object ms) (.object ns) := by
  -- The members of the second object in the order of the first.
  let theirs (m : String × Json) : String × Json := (m.1, (ns.lookup m.1).getD .null)
  have hfound (m : String × Json) (hm : m ∈ ms) :
      ∃ value, ns.lookup m.1 = some value ∧ theirs m = (m.1, value) ∧ Same m.2 value := by
    have hrel := h m.1
    rw [lookup_of_mem hms hm] at hrel
    cases hlookup : ns.lookup m.1 with
    | none => rw [hlookup] at hrel; cases hrel
    | some value =>
        rw [hlookup] at hrel
        cases hrel with
        | some hsame => exact ⟨value, rfl, by simp [theirs, hlookup], hsame⟩
  have hkeys : (ms.map theirs).map Prod.fst = ms.map Prod.fst := by
    rw [List.map_map]
    rfl
  refine .object hkeys.symm ?_ ?_
  · rw [List.forall₂_map_right_iff, List.forall₂_same]
    intro m hm
    obtain ⟨value, -, heq, hsame⟩ := hfound m hm
    rw [heq]
    exact hsame
  · have hnodup : ((ms.map theirs).map Prod.fst).Nodup := hkeys ▸ hms
    refine (List.perm_ext_iff_of_nodup hnodup.of_map hns.of_map).2 fun entry => ?_
    constructor
    · intro hentry
      obtain ⟨m, hm, rfl⟩ := List.mem_map.1 hentry
      obtain ⟨value, hlookup, heq, -⟩ := hfound m hm
      rw [heq]
      exact mem_of_lookup hlookup
    · intro hentry
      have hrel := h entry.1
      rw [lookup_of_mem hns hentry] at hrel
      cases hours : ms.lookup entry.1 with
      | none => rw [hours] at hrel; cases hrel
      | some ours =>
          have hm := mem_of_lookup hours
          obtain ⟨value, hlookup, heq, -⟩ := hfound _ hm
          rw [lookup_of_mem hns hentry] at hlookup
          refine List.mem_map.2 ⟨_, hm, ?_⟩
          rw [heq, ← Option.some.inj hlookup]

/-! ### Values taken apart -/

theorem same_string_iff {a b : String} : Same (.string a) (.string b) ↔ a = b := by
  constructor
  · intro h
    cases h
    rfl
  · rintro rfl
    exact .refl _

/-- Members with one key, and values under it that are the same. -/
def SameMember (m n : String × Json) : Prop :=
  m.1 = n.1 ∧ Same m.2 n.2

section

variable {xs : List Json} {ms ns ns' : List (String × Json)} {j : Json}

theorem Same.of_members (h : List.Forall₂ SameMember ms ns) (order : ns.Perm ns') :
    Same (.object ms) (.object ns') := by
  refine .object ?_ (h.imp fun _ _ hsame => hsame.2) order
  rw [← List.forall₂_eq_eq_eq, List.forall₂_map_left_iff, List.forall₂_map_right_iff]
  exact h.imp fun _ _ hsame => hsame.1

/-- What is the same as an object is an object with the same members in some order. -/
theorem Same.exists_members (h : Same (.object ms) j) :
    ∃ ns ns', j = .object ns' ∧ List.Forall₂ SameMember ms ns ∧ ns.Perm ns' := by
  cases h with
  | refl =>
      have hself : List.Forall₂ SameMember ms ms :=
        List.forall₂_same.2 fun m _ => ⟨rfl, .refl m.2⟩
      exact ⟨ms, ms, rfl, hself, .refl ms⟩
  | @object _ ns ns' keys values order =>
      refine ⟨ns, ns', rfl, ?_, order⟩
      clear order
      induction values with
      | nil => exact .nil
      | cons hvalue _ ih =>
          obtain ⟨hkey, keys⟩ := List.cons.inj keys
          exact .cons ⟨hkey, hvalue⟩ (ih keys)

/-- What is the same as an array is an array with the same items. -/
theorem Same.exists_items (h : Same (.array xs) j) :
    ∃ ys, j = .array ys ∧ List.Forall₂ Same xs ys := by
  cases h with
  | refl => exact ⟨xs, rfl, List.forall₂_same.2 fun x _ => .refl x⟩
  | array items => exact ⟨_, rfl, items⟩

theorem same_array_iff {ys : List Json} :
    Same (.array xs) (.array ys) ↔ List.Forall₂ Same xs ys := by
  constructor
  · intro h
    obtain ⟨ys', heq, items⟩ := h.exists_items
    cases heq
    exact items
  · exact .array

end

/-! ### An equivalence -/

mutual

theorem same_symm : (a : Json) → {b : Json} → Same a b → Same b a
  | .null, _, .refl _ | .bool _, _, .refl _ | .number _, _, .refl _ | .string _, _, .refl _ =>
      .refl _
  | .array xs, b, h => by
      obtain ⟨ys, rfl, items⟩ := h.exists_items
      exact .array (sameItems_symm xs items)
  | .object ms, b, h => by
      obtain ⟨ns, ns', rfl, members, order⟩ := h.exists_members
      -- The members of the first object are put into the order of the second.
      obtain ⟨ms', members', order'⟩ :=
        List.perm_comp_forall₂ order.symm (sameMembers_symm ms members)
      exact .of_members members' order'

theorem sameItems_symm : (xs : List Json) → {ys : List Json} → List.Forall₂ Same xs ys →
    List.Forall₂ Same ys xs
  | [], _, .nil => .nil
  | x :: xs, _, .cons h items => .cons (same_symm x h) (sameItems_symm xs items)

theorem sameMembers_symm : (ms : List (String × Json)) → {ns : List (String × Json)} →
    List.Forall₂ SameMember ms ns → List.Forall₂ SameMember ns ms
  | [], _, .nil => .nil
  | (_, x) :: ms, _, .cons h members =>
      .cons ⟨h.1.symm, same_symm x h.2⟩ (sameMembers_symm ms members)

end

mutual

theorem same_trans : (a : Json) → {b c : Json} → Same a b → Same b c → Same a c
  | .null, _, _, .refl _, h | .bool _, _, _, .refl _, h | .number _, _, _, .refl _, h
  | .string _, _, _, .refl _, h => h
  | .array xs, b, c, h, h' => by
      obtain ⟨ys, rfl, items⟩ := h.exists_items
      obtain ⟨zs, rfl, items'⟩ := h'.exists_items
      exact .array (sameItems_trans xs items items')
  | .object ms, b, c, h, h' => by
      obtain ⟨ns, ns', rfl, members, order⟩ := h.exists_members
      obtain ⟨ps, ps', rfl, members', order'⟩ := h'.exists_members
      -- The members of the third object, in the order of the first.
      obtain ⟨qs, members'', order''⟩ := List.perm_comp_forall₂ order members'
      exact .of_members (sameMembers_trans ms members members'') (order''.trans order')

theorem sameItems_trans : (xs : List Json) → {ys zs : List Json} → List.Forall₂ Same xs ys →
    List.Forall₂ Same ys zs → List.Forall₂ Same xs zs
  | [], _, _, .nil, .nil => .nil
  | x :: xs, _, _, .cons h items, .cons h' items' =>
      .cons (same_trans x h h') (sameItems_trans xs items items')

theorem sameMembers_trans : (ms : List (String × Json)) → {ns ps : List (String × Json)} →
    List.Forall₂ SameMember ms ns → List.Forall₂ SameMember ns ps → List.Forall₂ SameMember ms ps
  | [], _, _, .nil, .nil => .nil
  | (_, x) :: ms, _, _, .cons h members, .cons h' members' =>
      .cons ⟨h.1.trans h'.1, same_trans x h.2 h'.2⟩ (sameMembers_trans ms members members')

end

theorem same_equivalence : Equivalence Same where
  refl := .refl
  symm h := same_symm _ h
  trans h h' := same_trans _ h h'

/-! ### Objects key by key -/

theorem lookup_of_members {ms ns : List (String × Json)} (h : List.Forall₂ SameMember ms ns)
    (key : String) : Option.Rel Same (ms.lookup key) (ns.lookup key) := by
  induction h with
  | nil => exact .none
  | @cons m n ms ns hsame _ ih =>
      rw [List.lookup_cons, List.lookup_cons, hsame.1]
      split
      · exact .some hsame.2
      · exact ih

/-- Objects without repeated keys are the same just if they have the same under each
key, or nothing. -/
theorem same_object_iff {ms ns : List (String × Json)} (hms : (ms.map Prod.fst).Nodup)
    (hns : (ns.map Prod.fst).Nodup) :
    Same (.object ms) (.object ns) ↔ ∀ key, Option.Rel Same (ms.lookup key) (ns.lookup key) := by
  constructor
  · intro h key
    obtain ⟨ns', _, heq, members, order⟩ := h.exists_members
    cases heq
    have hfound := lookup_of_members members key
    rwa [lookup_perm order hns] at hfound
  · exact same_object hms hns

end DualSql.Json
