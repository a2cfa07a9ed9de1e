import DualSql.Proofs.Grammar.Transcription

/-! # Trees that read the same and their structured forms

Comparing two trees goes through the fields of the first and looks each of them up
in the second; of their structured forms the order of members does not count. Where
the fields of a node have different names, and none of them is that of the member
for the type, the two come to the same.

Main results: `Content.symm_of_same` and `Content.same_iff`. -/

namespace DualSql

/-! ### Terminals -/

namespace Terminal

open Structured Json

/-- A plain terminal is written as its text, any other as an object. -/
theorem toJson_cases (t : Terminal) :
    (t.quoted = false ∧ t.modifier = none ∧ t.toJson = .string t.value) ∨
      (t.quoted = true ∨ t.modifier ≠ none) ∧ ∃ ms, t.toJson = .object ms ∧
        (ms.map Prod.fst).Nodup ∧
        ∀ key, ms.lookup key = terminalMember t.value t.quoted t.modifier key := by
  have hlookup := lookup_terminal t.value t.quoted t.modifier
  obtain ⟨kind, value, quoted, modifier, position⟩ := t
  cases quoted <;> cases modifier
  case false.none => exact .inl ⟨rfl, rfl, rfl⟩
  all_goals exact .inr ⟨by simp, _, rfl, by simp, hlookup⟩

/-- A terminal names no type. -/
theorem not_same_typed {t : Terminal} {ms : List (String × Json)} (hms : (ms.map Prod.fst).Nodup)
    (hname : (ms.lookup nodeName).isSome = true) : ¬ Same t.toJson (.object ms) := by
  intro h
  rcases t.toJson_cases with ⟨-, -, hform⟩ | ⟨-, ns, hform, hns, hlookup⟩
  · rw [hform] at h
    cases h
  · rw [hform, same_object_iff hns hms] at h
    have hfound := h nodeName
    rw [hlookup, show terminalMember _ _ _ nodeName = none by simp [terminalMember, nodeName]]
      at hfound
    cases hvalue : ms.lookup nodeName with
    | none => rw [hvalue] at hname; cases hname
    | some value => rw [hvalue] at hfound; cases hfound

/-- Terminals read the same just if they are written the same. -/
theorem sameAs_iff {t u : Terminal} : t.sameAs u = true ↔ Same t.toJson u.toJson := by
  have hsame : t.sameAs u = true ↔
      t.value = u.value ∧ t.quoted = u.quoted ∧ t.modifier = u.modifier := by
    simp [sameAs, and_assoc]
  rw [hsame]
  constructor
  · rintro ⟨hvalue, hquoted, hmodifier⟩
    rw [toJson, toJson, hvalue, hquoted, hmodifier]
    exact .refl _
  · intro h
    rcases t.toJson_cases with ⟨hquoted, hmodifier, hform⟩ | ⟨hmarked, ms, hform, hms, hlookup⟩ <;>
      rcases u.toJson_cases with
        ⟨hquoted', hmodifier', hform'⟩ | ⟨hmarked', ns, hform', hns, hlookup'⟩ <;>
      rw [hform, hform'] at h
    · exact ⟨same_string_iff.1 h, hquoted.trans hquoted'.symm, hmodifier.trans hmodifier'.symm⟩
    · cases h
    · cases h
    · rw [same_object_iff hms hns] at h
      simp only [hlookup, hlookup'] at h
      have hvalue := h "value"
      have hquoted := h "quoted"
      have hmodifier := h "modifier"
      simp only [terminalMember, String.reduceEq, if_true, if_false] at hvalue hquoted hmodifier
      refine ⟨?_, ?_, ?_⟩
      · cases hvalue with
        | some hvalue => exact same_string_iff.1 hvalue
      · cases ht : t.quoted <;> cases hu : u.quoted
        case false.true | true.false =>
          rw [ht, hu] at hquoted
          cases hquoted
        all_goals rfl
      · cases ht : t.modifier <;> cases hu : u.modifier <;> rw [ht, hu] at hmodifier
        case none.some | some.none => cases hmodifier
        case some.some =>
          cases hmodifier with
          | some hmodifier => exact congrArg some (same_string_iff.1 hmodifier)

end Terminal

/-! ### Trees -/

namespace Content

open Json

theorem sameItems_iff {xs ys : List Content} :
    xs.length = ys.length ∧ sameItems xs ys = true ↔
      List.Forall₂ (fun x y => x.same y = true) xs ys := by
  induction xs generalizing ys with
  | nil => cases ys <;> simp [sameItems]
  | cons x xs ih =>
      cases ys with
      | nil => simp
      | cons y ys =>
          rw [List.forall₂_cons, ← ih, sameItems, Bool.and_eq_true, List.length_cons,
            List.length_cons, Nat.succ_inj]
          exact and_left_comm

/-- Nodes whose fields have different names read the same just if they have one type
and read the same under each name, or have nothing there. -/
theorem same_node_iff {tag tag' : String} {fields others : List (String × Content)}
    (hfields : (fields.map Prod.fst).Nodup) (hothers : (others.map Prod.fst).Nodup) :
    (node tag fields).same (node tag' others) = true ↔ tag = tag' ∧
      ∀ name, Option.Rel (fun x y => x.same y = true) (fields.lookup name)
        (others.lookup name) := by
  rw [same, Bool.and_eq_true, Bool.and_eq_true, beq_iff_eq, beq_iff_eq, sameFields_iff, and_assoc]
  apply and_congr_right
  intro _
  constructor
  · rintro ⟨hlength, hfound⟩ name
    -- As there are as many fields on both sides, the names are the same.
    have hsubset : fields.map Prod.fst ⊆ others.map Prod.fst := by
      intro n hn
      obtain ⟨f, hf, rfl⟩ := List.mem_map.1 hn
      obtain ⟨y, hy, -⟩ := hfound f hf
      exact isSome_lookup_iff.1 (by rw [hy]; rfl)
    have hnames : (fields.map Prod.fst).Perm (others.map Prod.fst) :=
      (List.subperm_of_subset hfields hsubset).perm_of_length_le (by simp [hlength])
    cases hx : fields.lookup name with
    | some x =>
        obtain ⟨y, hy, hsame⟩ := hfound _ (mem_of_lookup hx)
        rw [hy]
        exact .some hsame
    | none =>
        have hmissing : others.lookup name = none := by
          rw [← Option.not_isSome_iff_eq_none, isSome_lookup_iff, ← hnames.mem_iff,
            ← isSome_lookup_iff, hx]
          simp
        rw [hmissing]
        exact .none
  · intro h
    have hnames : (fields.map Prod.fst).Perm (others.map Prod.fst) := by
      refine (List.perm_ext_iff_of_nodup hfields hothers).2 fun name => ?_
      have hname := h name
      rw [← isSome_lookup_iff, ← isSome_lookup_iff]
      generalize fields.lookup name = x at hname
      generalize others.lookup name = y at hname
      cases hname <;> simp
    refine ⟨by simpa using hnames.length_eq, fun f hf => ?_⟩
    have hname := h f.1
    rw [lookup_of_mem hfields hf] at hname
    cases hy : others.lookup f.1 with
    | none => rw [hy] at hname; cases hname
    | some y =>
        rw [hy] at hname
        cases hname with
        | some hsame => exact ⟨y, rfl, hsame⟩

/-- The forms of nodes are the same just if these have one type and forms that are
the same under each name, or have nothing there. -/
theorem same_toJson_node_iff {tag tag' : String} {fields others : List (String × Content)}
    (hfields : (nodeName :: fields.map Prod.fst).Nodup)
    (hothers : (nodeName :: others.map Prod.fst).Nodup) :
    Same (node tag fields).toJson (node tag' others).toJson ↔ tag = tag' ∧
      ∀ name, Option.Rel (fun x y => Same x.toJson y.toJson) (fields.lookup name)
        (others.lookup name) := by
  have hmissing {fields : List (String × Content)} (h : (nodeName :: fields.map Prod.fst).Nodup) :
      fields.lookup nodeName = none := by
    rw [← Option.not_isSome_iff_eq_none, isSome_lookup_iff]
    exact (List.nodup_cons.1 h).1
  have hmembers {tag : String} {fields : List (String × Content)}
      (h : (nodeName :: fields.map Prod.fst).Nodup) :
      (((nodeName, Json.string tag) :: fields.map fun f => (f.1, f.2.toJson)).map
        Prod.fst).Nodup := by
    simpa [Function.comp_def] using h
  have hmap (x y : Option Content) : Option.Rel Same (x.map toJson) (y.map toJson) ↔
      Option.Rel (fun x y => Same x.toJson y.toJson) x y := by
    cases x <;> cases y <;> simp
  rw [toJson_node hfields, toJson_node hothers,
    same_object_iff (hmembers hfields) (hmembers hothers)]
  constructor
  · intro h
    constructor
    · have htag := h nodeName
      rw [List.lookup_cons_self, List.lookup_cons_self, Option.rel_some_some] at htag
      exact same_string_iff.1 htag
    · intro name
      by_cases hname : name = nodeName
      · rw [hname, hmissing hfields, hmissing hothers]
        exact .none
      · have hvalue := h name
        rwa [lookup_members fields hname, lookup_members others hname, hmap] at hvalue
  · rintro ⟨rfl, h⟩ key
    by_cases hkey : key = nodeName
    · rw [hkey, List.lookup_cons_self, List.lookup_cons_self]
      exact .some (.refl _)
    · rw [lookup_members fields hkey, lookup_members others hkey, hmap]
      exact h key

/-! ### Forms of different kinds -/

theorem not_same_terminal_node {t : Terminal} {tag : String} {fields : List (String × Content)}
    (h : (nodeName :: fields.map Prod.fst).Nodup) :
    ¬ Same (terminal t).toJson (node tag fields).toJson := by
  rw [toJson_node h]
  apply Terminal.not_same_typed
  · simpa [Function.comp_def] using h
  · rw [List.lookup_cons_self]
    rfl

theorem not_same_terminal_list {t : Terminal} {xs : List Content} :
    ¬ Same (terminal t).toJson (list xs).toJson := by
  intro h
  obtain ⟨items, heq, -⟩ := (same_symm _ h).exists_items
  rw [toJson] at heq
  rcases t.toJson_cases with ⟨-, -, hform⟩ | ⟨-, ms, hform, -⟩ <;> rw [hform] at heq <;> cases heq

theorem not_same_node_list {tag : String} {fields : List (String × Content)} {xs : List Content}
    (h : (nodeName :: fields.map Prod.fst).Nodup) :
    ¬ Same (node tag fields).toJson (list xs).toJson := by
  rw [toJson_node h]
  intro hsame
  obtain ⟨ms, ns, heq, -⟩ := hsame.exists_members
  cases heq

/-! ### Which tree comes first -/

mutual

/-- Where the fields of nodes have different names, it does not matter which of two trees
is compared with the other. -/
theorem symm_of_same : (x : Content) → x.Distinct → {y : Content} → y.Distinct →
    x.same y = true → y.same x = true
  | terminal t, _, terminal u, _, h => by
      simp only [same, Terminal.sameAs, Bool.and_eq_true, beq_iff_eq] at h ⊢
      exact ⟨⟨h.1.1.symm, h.1.2.symm⟩, h.2.symm⟩
  | node tag fields, hx, node tag' others, hy, h => by
      rw [same_node_iff hx.1 hy.1] at h
      rw [same_node_iff hy.1 hx.1]
      have hothers := eachField_iff.1 hy.2
      refine ⟨h.1.symm, fun name => ?_⟩
      have hname := h.2 name
      cases hlookup : fields.lookup name <;> cases hlookup' : others.lookup name <;>
        simp only [hlookup, hlookup', Option.rel_some_some] at hname ⊢
      case some.some x y =>
        exact symm_of_sameField fields hx.2 _ (mem_of_lookup hlookup)
          (hothers _ (mem_of_lookup hlookup')) hname
      all_goals first | exact .none | cases hname
  | list xs, hxs, list ys, hys, h => by
      rw [same, Bool.and_eq_true, beq_iff_eq, sameItems_iff] at h ⊢
      exact symm_of_forall₂ xs hxs hys h

theorem symm_of_sameField : (fields : List (String × Content)) →
    EachField (fun _ fields => (fields.map Prod.fst).Nodup) fields →
    ∀ f ∈ fields, ∀ {y : Content}, y.Distinct → f.2.same y = true → y.same f.2 = true
  | (name, x) :: rest, ⟨hx, hrest⟩, f, hf, y, hy, h => by
      rcases List.mem_cons.1 hf with rfl | hf
      · exact symm_of_same x hx hy h
      · exact symm_of_sameField rest hrest f hf hy h

theorem symm_of_forall₂ : (xs : List Content) →
    EachItem (fun _ fields => (fields.map Prod.fst).Nodup) xs → {ys : List Content} →
    EachItem (fun _ fields => (fields.map Prod.fst).Nodup) ys →
    List.Forall₂ (fun x y => x.same y = true) xs ys →
    List.Forall₂ (fun x y => x.same y = true) ys xs
  | [], _, [], _, .nil => .nil
  | x :: xs, ⟨hx, hxs⟩, y :: ys, ⟨hy, hys⟩, .cons h hrest =>
      .cons (symm_of_same x hx hy h) (symm_of_forall₂ xs hxs hys hrest)

end

/-! ### The induction -/

mutual

/-- Trees read the same just if their structured forms are the same. -/
theorem same_iff : (x : Content) → x.Named → {y : Content} → y.Named →
    (x.same y = true ↔ Same x.toJson y.toJson)
  | terminal t, _, terminal u, _ => Terminal.sameAs_iff
  | terminal t, _, node tag others, hy => iff_of_false Bool.false_ne_true (not_same_terminal_node hy.1)
  | terminal t, _, list ys, _ => iff_of_false Bool.false_ne_true not_same_terminal_list
  | node tag fields, hx, terminal u, _ =>
      iff_of_false Bool.false_ne_true fun h => not_same_terminal_node hx.1 (same_symm _ h)
  | node tag fields, hx, list ys, _ => iff_of_false Bool.false_ne_true (not_same_node_list hx.1)
  | list xs, _, terminal u, _ =>
      iff_of_false Bool.false_ne_true fun h => not_same_terminal_list (same_symm _ h)
  | list xs, _, node tag others, hy =>
      iff_of_false Bool.false_ne_true fun h => not_same_node_list hy.1 (same_symm _ h)
  | node tag fields, hx, node tag' others, hy => by
      rw [same_node_iff (List.nodup_cons.1 hx.1).2 (List.nodup_cons.1 hy.1).2,
        same_toJson_node_iff hx.1 hy.1]
      have hothers := eachField_iff.1 hy.2
      apply and_congr_right
      intro _
      apply forall_congr'
      intro name
      cases hlookup : fields.lookup name <;> cases hlookup' : others.lookup name <;> simp
      case some.some x y =>
        exact sameField_iff fields hx.2 _ (mem_of_lookup hlookup)
          (hothers _ (mem_of_lookup hlookup'))
  | list xs, hxs, list ys, hys => by
      rw [same, Bool.and_eq_true, beq_iff_eq, sameItems_iff, toJson, toJson, itemsJson_eq,
        itemsJson_eq, same_array_iff, List.forall₂_map_left_iff, List.forall₂_map_right_iff]
      exact forall₂_same_iff xs hxs hys

theorem sameField_iff : (fields : List (String × Content)) →
    EachField (fun _ fields => (nodeName :: fields.map Prod.fst).Nodup) fields →
    ∀ f ∈ fields, ∀ {y : Content}, y.Named → (f.2.same y = true ↔ Same f.2.toJson y.toJson)
  | (name, x) :: rest, ⟨hx, hrest⟩, f, hf, y, hy => by
      rcases List.mem_cons.1 hf with rfl | hf
      · exact same_iff x hx hy
      · exact sameField_iff rest hrest f hf hy

theorem forall₂_same_iff : (xs : List Content) →
    EachItem (fun _ fields => (nodeName :: fields.map Prod.fst).Nodup) xs → {ys : List Content} →
    EachItem (fun _ fields => (nodeName :: fields.map Prod.fst).Nodup) ys →
    (List.Forall₂ (fun x y => x.same y = true) xs ys ↔
      List.Forall₂ (fun x y => Same x.toJson y.toJson) xs ys)
  | [], _, ys, _ => by simp
  | x :: xs, _, [], _ => by simp
  | x :: xs, ⟨hx, hxs⟩, y :: ys, ⟨hy, hys⟩ => by
      rw [List.forall₂_cons, List.forall₂_cons, same_iff x hx hy, forall₂_same_iff xs hxs hys]

end

end Content

end DualSql
