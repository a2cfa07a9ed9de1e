import Mathlib.Data.List.Nodup
import Mathlib.Data.List.Perm.Basic

/-! # Entries that are found by name

Fields, types and tables are lists of entries with a name each, in which the
first entry of a name is found. Where the names are different, the order of the
entries does not count. -/

namespace DualSql

variable {β : Type} {l l' : List (String × β)} {name : String} {value : β}

theorem isSome_lookup_iff : (l.lookup name).isSome = true ↔ name ∈ l.map Prod.fst := by
  induction l with
  | nil => simp
  | cons entry rest ih =>
      rw [List.lookup_cons, List.map_cons, List.mem_cons]
      split
      next heq => simp [beq_iff_eq.1 heq]
      next hne => rw [ih, or_iff_right (ne_of_beq_false hne)]

theorem mem_of_lookup (h : l.lookup name = some value) : (name, value) ∈ l := by
  obtain ⟨before, after, rfl, -⟩ := List.lookup_eq_some_iff.1 h
  simp

/-- An entry of a list of different names is the one that is found by its name. -/
theorem lookup_of_mem {entry : String × β}
    (hnodup : (l.map Prod.fst).Nodup) (h : entry ∈ l) : l.lookup entry.1 = some entry.2 := by
  obtain ⟨before, after, rfl⟩ := List.append_of_mem h
  apply List.lookup_eq_some_iff.2
  refine ⟨before, after, rfl, ?_⟩
  intro p hp
  rw [List.map_append, List.nodup_append] at hnodup
  have hne := hnodup.2.2 p.1 (List.mem_map_of_mem hp) entry.1 (by simp)
  simpa using Ne.symm hne

/-- Among different names, an entry is found in what a filter keeps if the filter keeps it. -/
theorem lookup_filter (hnodup : (l.map Prod.fst).Nodup) (p : String × β → Bool) (name : String) :
    (l.filter p).lookup name = (l.lookup name).filter fun value => p (name, value) := by
  have hkept : ((l.filter p).map Prod.fst).Nodup := (List.filter_sublist.map _).nodup hnodup
  cases hvalue : l.lookup name with
  | some value =>
      have hmem := mem_of_lookup hvalue
      by_cases hp : p (name, value) = true
      · rw [Option.filter_some, if_pos hp]
        exact lookup_of_mem hkept (List.mem_filter.2 ⟨hmem, hp⟩)
      · rw [Option.filter_some, if_neg hp]
        by_contra hfound
        obtain ⟨other, hother⟩ := Option.ne_none_iff_exists'.1 hfound
        obtain ⟨hmem', hp'⟩ := List.mem_filter.1 (mem_of_lookup hother)
        rw [lookup_of_mem hnodup hmem'] at hvalue
        exact hp (Option.some.inj hvalue ▸ hp')
  | none =>
      by_contra hfound
      obtain ⟨other, hother⟩ := Option.ne_none_iff_exists'.1 hfound
      have hmem := (List.mem_filter.1 (mem_of_lookup hother)).1
      rw [lookup_of_mem hnodup hmem] at hvalue
      cases hvalue

theorem lookup_of_perm (h : l.Perm l') (hnodup : (l'.map Prod.fst).Nodup)
    (hmem : (name, value) ∈ l') : l.lookup name = some value :=
  lookup_of_mem ((h.map Prod.fst).nodup_iff.2 hnodup) (h.mem_iff.2 hmem)

/-- The order of entries with different names does not count. -/
theorem lookup_perm (h : l.Perm l') (hnodup : (l'.map Prod.fst).Nodup) (name : String) :
    l.lookup name = l'.lookup name := by
  cases hvalue : l'.lookup name with
  | some value => exact lookup_of_perm h hnodup (mem_of_lookup hvalue)
  | none =>
      by_contra hfound
      obtain ⟨value, hfound⟩ := Option.ne_none_iff_exists'.1 hfound
      rw [lookup_of_mem hnodup (h.mem_iff.1 (mem_of_lookup hfound))] at hvalue
      cases hvalue

/-- Lists with the same names and the same entries are equal. -/
theorem eq_of_perm_of_names (h : l.Perm l') (hnames : l.map Prod.fst = l'.map Prod.fst)
    (hnodup : (l.map Prod.fst).Nodup) : l = l' := by
  induction l generalizing l' with
  | nil => exact h.nil_eq
  | cons entry rest ih =>
      obtain _ | ⟨entry', rest'⟩ := l'
      · cases hnames
      · obtain ⟨hname, hrest⟩ := List.cons.inj hnames
        obtain rfl : entry = entry' := by
          rw [hnames] at hnodup
          refine (List.mem_cons.1 (h.mem_iff.1 List.mem_cons_self)).resolve_right fun hmem => ?_
          exact (List.nodup_cons.1 hnodup).1 (hname ▸ List.mem_map_of_mem hmem)
        rw [ih h.cons_inv hrest (List.nodup_cons.1 hnodup).2]

end DualSql
