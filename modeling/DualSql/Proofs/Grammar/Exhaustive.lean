import Mathlib.Data.List.Sort
import DualSql.Proofs.Grammar.Matching

/-! # The fields that a production writes

Which fields of a tree are written depends on nothing but which of them are
there. A production that has its fields in an order writes all that it can
set, one after the other, unless a condition keeps one back.

Main definitions: `Production.written?` and `Production.ordered`. Main result:
`Production.written_lists`. -/

namespace DualSql

namespace Production

mutual

/-- The fields that are written for a production, in their order, unless no
branch has a place for those that are there. -/
def written? (has : String → Bool) (p : Production) : Option (List String) :=
  if p.isSkipped has then some []
  else
    match p with
    | token info _ _ | node info _ _ => some info.attrs.name.toList
    | sequence _ parts => writtenAll? has parts
    | alternatives info branches =>
      match info.attrs.name with
      | some name => some [name]
      | none => writtenFirst? has (info.fields.filter has) branches
    | block info _ inner =>
      if info.attrs.optionalParens && !inner.info.fields.any has then some []
      else inner.written? has

/-- The fields that are written for productions one after the other. -/
def writtenAll? (has : String → Bool) : List Production → Option (List String)
  | [] => some []
  | p :: rest => do return (← p.written? has) ++ (← writtenAll? has rest)

/-- The fields that are written for the first production that has a place for
all present fields. -/
def writtenFirst? (has : String → Bool) (present : List String) :
    List Production → Option (List String)
  | [] => none
  | p :: rest =>
    if present.all p.info.fields.contains && p.fits has then p.written? has
    else writtenFirst? has present rest

end

mutual

/-- Whether a production sets different fields, in their order. -/
def ordered (order : List String) (p : Production) : Bool :=
  within p.info.fields p.sets && within p.sets p.info.fields &&
    match p with
    | token .. | node .. => true
    | sequence _ parts => orderedAll order parts
    | alternatives info branches => info.attrs.name.isSome || orderedEach order branches
    | block _ _ inner => inner.ordered order

/-- Whether productions set different fields one after the other, in their order. -/
def orderedAll (order : List String) : List Production → Bool
  | [] => true
  | p :: rest =>
    p.ordered order &&
      p.sets.all (fun a => (setsAll rest).all fun b => order.idxOf a < order.idxOf b) &&
      orderedAll order rest

/-- Whether each of several branches sets different fields, in their order. -/
def orderedEach (order : List String) : List Production → Bool
  | [] => true
  | p :: rest => p.ordered order && orderedEach order rest

end

mutual

/-- The fields that are kept back where a condition does not hold. -/
def guards (p : Production) : List (Condition × String) :=
  p.attrs.condition.toList.flatMap (fun c => p.sets.map fun name => (c, name)) ++
    match p with
    | token .. | node .. => []
    | sequence _ parts | alternatives _ parts => guardsAll parts
    | block _ _ inner => inner.guards

/-- The fields that several productions keep back. -/
def guardsAll : List Production → List (Condition × String)
  | [] => []
  | p :: rest => p.guards ++ guardsAll rest

end

/-- Fields in their order, with all that are there of those that can be set,
unless a condition keeps one back. -/
structure Lists (order : List String) (has : String → Bool) (sets : List String)
    (guards : List (Condition × String)) (names : List String) : Prop where
  known : ∀ name ∈ names, name ∈ sets
  sorted : names.Pairwise fun a b => order.idxOf a < order.idxOf b
  complete : (∀ guard ∈ guards, has guard.2 = true → guard.1.holds has = true) →
    ∀ name ∈ sets, has name = true → name ∈ names

variable {order : List String} {has : String → Bool} {p : Production}
  {sets others names more : List String} {kept kept' : List (Condition × String)}

theorem lists_nil (h : (∀ guard ∈ kept, has guard.2 = true → guard.1.holds has = true) →
    ∀ name ∈ sets, has name = false) : Lists order has sets kept [] where
  known := by simp
  sorted := .nil
  complete hkept name hname hhas := by simp [h hkept name hname] at hhas

theorem lists_field (name : Option String) (kept : List (Condition × String)) :
    Lists order has name.toList kept name.toList where
  known _ hname := hname
  sorted := by cases name <;> simp
  complete _ _ hname _ := hname

/-- More conditions keep no other field back. -/
theorem Lists.mono (h : Lists order has sets kept names) (hsub : ∀ guard ∈ kept, guard ∈ kept') :
    Lists order has sets kept' names where
  known := h.known
  sorted := h.sorted
  complete hkept := h.complete fun guard hguard => hkept guard (hsub guard hguard)

theorem Lists.append (h : Lists order has sets kept names) (h' : Lists order has others kept' more)
    (hbefore : ∀ a ∈ sets, ∀ b ∈ others, order.idxOf a < order.idxOf b) :
    Lists order has (sets ++ others) (kept ++ kept') (names ++ more) where
  known name hname := by
    rw [List.mem_append] at hname ⊢
    exact hname.imp (h.known name) (h'.known name)
  sorted := by
    refine List.pairwise_append.2 ⟨h.sorted, h'.sorted, fun a ha b hb => ?_⟩
    exact hbefore a (h.known a ha) b (h'.known b hb)
  complete hkept name hname hhas := by
    obtain ⟨hleft, hright⟩ := List.forall_mem_append.1 hkept
    rw [List.mem_append] at hname ⊢
    exact hname.imp (fun hname => h.complete hleft name hname hhas)
      fun hname => h'.complete hright name hname hhas

theorem guards_sub {guard : Condition × String} {parts : List Production} (hp : p ∈ parts)
    (h : guard ∈ p.guards) : guard ∈ guardsAll parts := by
  induction parts with
  | nil => cases hp
  | cons q rest ih =>
      rcases List.mem_cons.1 hp with rfl | hp
      · exact List.mem_append_left _ h
      · exact List.mem_append_right _ (ih hp)

theorem mem_of_within {names others : List String} (h : within names others = true) {name : String}
    (hname : name ∈ names) : name ∈ others := by
  simpa using List.all_eq_true.1 h name hname

/-- What is passed over has no field that is there, but for those that a
condition keeps back. -/
theorem lists_skipped (hsets : within p.sets p.info.fields = true)
    (hskip : p.isSkipped has = true) : Lists order has p.sets p.guards [] := by
  refine lists_nil fun hkept name hname => Bool.eq_false_iff.2 fun hhas => ?_
  rcases Bool.or_eq_true_iff.1 hskip with hcondition | habsent
  · cases hc : p.attrs.condition with
    | none => simp [hc] at hcondition
    | some c =>
        have hguard : (c, name) ∈ p.guards := by
          rw [guards.eq_def, hc]
          exact List.mem_append_left _ (by simpa using hname)
        simp [hc, hkept _ hguard hhas] at hcondition
  · have hany : p.info.fields.any has = true :=
      List.any_eq_true.2 ⟨name, mem_of_within hsets hname, hhas⟩
    simp [isPresent, hany] at habsent

/-- The branch that is written has a place for all fields that are there. -/
theorem lists_branch {info : RuleInfo} {branches : List Production} (hp : p ∈ branches)
    (hsets : within (setsAll branches) info.fields = true)
    (hfields : within p.info.fields p.sets = true)
    (hpresent : (info.fields.filter has).all p.info.fields.contains = true)
    (h : Lists order has p.sets p.guards names) :
    Lists order has (setsAll branches) (guardsAll branches) names where
  known name hname := by
    rw [FaithfulOutline.setsAll_eq]
    exact List.mem_flatMap.2 ⟨p, hp, h.known name hname⟩
  sorted := h.sorted
  complete hkept name hname hhas := by
    have hplace := List.all_eq_true.1 hpresent name
      (List.mem_filter.2 ⟨mem_of_within hsets hname, hhas⟩)
    exact h.complete (fun guard hguard => hkept guard (guards_sub hp hguard)) name
      (mem_of_within hfields (by simpa using hplace)) hhas

theorem ordered_sets (h : p.ordered order = true) :
    within p.info.fields p.sets = true ∧ within p.sets p.info.fields = true := by
  rw [ordered.eq_def, Bool.and_eq_true, Bool.and_eq_true] at h
  exact h.1

mutual

/-- A production with its fields in order writes those that are there, and no
others, unless a condition keeps one back. -/
theorem written_lists {names : List String} (p : Production) (h : p.ordered order = true)
    (hw : p.written? has = some names) : Lists order has p.sets p.guards names := by
  obtain ⟨hfields, hsets⟩ := ordered_sets h
  rw [ordered.eq_def, Bool.and_eq_true] at h
  rw [written?.eq_def] at hw
  split at hw
  next hskip =>
    cases hw
    exact lists_skipped hsets hskip
  next =>
    rw [guards.eq_def]
    match p with
    | token info _ _ | node info _ _ =>
        cases hw
        exact lists_field info.attrs.name _
    | sequence info parts =>
        refine (writtenAll_lists parts h.2 hw).mono fun guard hguard => ?_
        exact List.mem_append_right _ hguard
    | alternatives info branches =>
        rw [sets.eq_def] at hsets ⊢
        dsimp only at h hw hsets ⊢
        cases hname : info.attrs.name with
        | some name =>
            rw [hname] at hw
            cases hw
            exact lists_field (some name) _
        | none =>
            rw [hname] at h hw hsets
            obtain ⟨q, hq, hpresent, hq_fields, hlists⟩ := writtenFirst_lists branches h.2 hw
            refine (lists_branch hq hsets hq_fields hpresent hlists).mono fun guard hguard => ?_
            exact List.mem_append_right _ hguard
    | block info bracket inner =>
        dsimp only at hw
        split at hw
        next hempty =>
          cases hw
          refine lists_nil fun _ name hname => Bool.eq_false_iff.2 fun hhas => ?_
          have hany : inner.info.fields.any has = true :=
            List.any_eq_true.2 ⟨name, mem_of_within (ordered_sets h.2).2 hname, hhas⟩
          simp [hany] at hempty
        next =>
          refine (written_lists inner h.2 hw).mono fun guard hguard => ?_
          exact List.mem_append_right _ hguard

theorem writtenAll_lists {names : List String} (parts : List Production)
    (h : orderedAll order parts = true) (hw : writtenAll? has parts = some names) :
    Lists order has (setsAll parts) (guardsAll parts) names := by
  match parts with
  | [] =>
      cases hw
      exact lists_nil fun _ _ hname => by cases hname
  | p :: rest =>
      simp only [orderedAll, Bool.and_eq_true, List.all_eq_true, decide_eq_true_eq] at h
      obtain ⟨⟨hp, hbefore⟩, hrest⟩ := h
      simp only [writtenAll?, Option.bind_eq_bind, Option.bind_eq_some_iff, Option.pure_def,
        Option.some.injEq] at hw
      obtain ⟨first, hfirst, others, hothers, rfl⟩ := hw
      exact (written_lists p hp hfirst).append (writtenAll_lists rest hrest hothers) hbefore

theorem writtenFirst_lists {present names : List String} (branches : List Production)
    (h : orderedEach order branches = true)
    (hw : writtenFirst? has present branches = some names) :
    ∃ p ∈ branches, present.all p.info.fields.contains = true ∧
      within p.info.fields p.sets = true ∧ Lists order has p.sets p.guards names := by
  match branches with
  | [] => cases hw
  | p :: rest =>
      rw [orderedEach, Bool.and_eq_true] at h
      rw [writtenFirst?] at hw
      split at hw
      next hplace =>
        exact ⟨p, List.mem_cons_self, (Bool.and_eq_true_iff.1 hplace).1, (ordered_sets h.1).1,
          written_lists p h.1 hw⟩
      next =>
        obtain ⟨q, hq, hlists⟩ := writtenFirst_lists rest h.2 hw
        exact ⟨q, List.mem_cons_of_mem _ hq, hlists⟩

end

/-- All fields of a tree are written, in the order in which it has them, if no
condition keeps one back. -/
theorem Lists.eq_of_sublist (h : Lists order has sets kept names) (hnodup : order.Nodup)
    {fields : List String} (hfields : fields.Sublist order)
    (hhas : ∀ name, has name = true ↔ name ∈ fields) (hnames : ∀ name ∈ names, has name = true)
    (hsets : ∀ name ∈ order, name ∈ sets)
    (hkept : ∀ guard ∈ kept, has guard.2 = true → guard.1.holds has = true) : names = fields := by
  let before (a b : String) : Prop := order.idxOf a < order.idxOf b
  have hirrefl : Std.Irrefl before := ⟨fun _ => Nat.lt_irrefl _⟩
  have hantisymm : Std.Antisymm before :=
    ⟨fun _ _ hab hba => absurd (Nat.lt_trans hab hba) (Nat.lt_irrefl _)⟩
  have hsorted : order.Pairwise before := by
    refine List.pairwise_iff_getElem.2 fun i j hi hj hlt => ?_
    change order.idxOf order[i] < order.idxOf order[j]
    rwa [hnodup.idxOf_getElem i hi, hnodup.idxOf_getElem j hj]
  refine h.sorted.eq_of_mem_iff (hsorted.sublist hfields) fun name => ?_
  constructor
  · intro hname
    exact (hhas name).1 (hnames name hname)
  · intro hname
    exact h.complete hkept name (hsets name (hfields.subset hname)) ((hhas name).2 hname)

end Production

end DualSql
