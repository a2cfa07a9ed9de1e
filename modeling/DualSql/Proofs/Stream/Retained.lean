import DualSql.Proofs.Stream.Reached

/-! # Streams that let nothing go

A stream lets consumed items go only on a commit. As long as no reader
commits, every position that was passed can be returned to, at each level.

Main definition: `Stream.Retained`. Main results: drawing, showing, consuming
and going back keep a stream so. -/

namespace DualSql

/-- None of the contents of a cell were let go, at any level. -/
inductive Cell.Retained : Cell → Prop
  | leaf (t : Token) : Retained (.leaf t)
  | block (t : Token) {x : Stream} (discarded : x.discarded = 0)
      (cells : ∀ c ∈ x.known ++ x.unseen, Retained c) : Retained (.block t x)

/-- No item of a stream was let go, nor any in its blocks. -/
structure Stream.Retained (s : Stream) : Prop where
  discarded : s.discarded = 0
  cells : ∀ c ∈ s.known ++ s.unseen, c.Retained

namespace Cell

variable {c : Cell} {t : Token} {x : Stream}

theorem retained_block_iff : (block t x).Retained ↔ x.Retained := by
  constructor
  · intro h
    cases h with
    | block _ discarded cells => exact ⟨discarded, cells⟩
  · intro h
    exact .block t h.discarded h.cells

theorem Retained.setLocked (h : c.Retained) (locked : Bool) : (c.setLocked locked).Retained := by
  cases c with
  | leaf t => exact h
  | block t x =>
      obtain ⟨discarded, cells⟩ := retained_block_iff.1 h
      exact .block t discarded cells

theorem Retained.rewound (h : c.Retained) : c.rewound.Retained := by
  induction c using Cell.rewound.induct with
  | case1 t =>
      rw [Cell.rewound]
      exact h
  | case2 t x ih =>
      have hx := retained_block_iff.1 h
      rw [rewound_block]
      refine .block t hx.discarded fun c hc => ?_
      simp only [Stream.known, List.reverse_nil, List.nil_append, List.mem_append, List.mem_reverse,
        List.mem_map] at hc
      rcases hc with (⟨d, hd, rfl⟩ | hc) | hc
      · exact ih d hd (hx.cells d (by simp [Stream.known, hd]))
      · exact hx.cells c (by simp [Stream.known, hc])
      · exact hx.cells c (by simp [hc])

end Cell

mutual

theorem TokenTree.retained_toCell : (t : TokenTree) → t.toCell.Retained
  | .leaf t => .leaf t
  | .block t contents => by
      refine .block t rfl fun c hc => TokenTree.retained_toCells contents c ?_
      simpa [Stream.known, Stream.ofCells] using hc

theorem TokenTree.retained_toCells : (ts : List TokenTree) →
    ∀ c ∈ TokenTree.toCells ts, c.Retained
  | [] => nofun
  | t :: ts => by
      intro c hc
      rcases List.mem_cons.1 hc with rfl | hc
      · exact TokenTree.retained_toCell t
      · exact TokenTree.retained_toCells ts c hc

end

namespace Stream

variable {s s' y : Stream} {t : Token} {last : Option LexError} {q q' : Queue}

theorem retained_ofCells (trees : List TokenTree) :
    (Stream.ofCells (TokenTree.toCells trees)).Retained := by
  refine ⟨rfl, fun c hc => TokenTree.retained_toCells trees c ?_⟩
  simpa [known, ofCells] using hc

theorem retained_lexing : lexing.Retained :=
  ⟨rfl, nofun⟩

theorem discarded_of_place (h : s'.place = s.place) : s'.discarded = s.discarded :=
  congrArg Place.discarded h

theorem retained_absorbHere (e : Event) (h : s.Retained) : (s.absorbHere e).Retained := by
  have hnew := known_absorbHere (s := s) e
  refine ⟨(discarded_of_place (place_absorbHere e)).trans h.discarded, fun c hc => ?_⟩
  rw [hnew, unseen_absorbHere, List.append_assoc, List.mem_append, List.mem_append] at hc
  rcases hc with hc | hc | hc
  · exact h.cells c (List.mem_append_left _ hc)
  · cases e with
    | token t => exact List.mem_singleton.1 hc ▸ .leaf t
    | opened b position spaceBefore =>
        rw [List.mem_singleton.1 hc]
        exact .block _ rfl nofun
    | closed b position => cases hc
  · exact h.cells c (List.mem_append_right _ hc)

theorem retained_setLatest {x : Stream} (h : s.Retained) (ho : s.openBlock? = some (t, x))
    (hy : y.Retained) : (s.setLatest (.block t y)).Retained := by
  refine ⟨(discarded_of_place (place_setLatest _)).trans h.discarded, fun c hc => ?_⟩
  rw [known_setLatest _ (known_ne_nil_of_openBlock ho), unseen_setLatest] at hc
  simp only [List.mem_append, List.mem_singleton] at hc
  rcases hc with (hc | rfl) | hc
  · exact h.cells c (List.mem_append_left _ (List.dropLast_subset _ hc))
  · exact Cell.retained_block_iff.2 hy
  · exact h.cells c (List.mem_append_right _ hc)

/-- The contents of the open block. -/
theorem Retained.openBlock {x : Stream} (h : s.Retained) (ho : s.openBlock? = some (t, x)) :
    x.Retained :=
  Cell.retained_block_iff.1
    (h.cells _ (List.mem_append_left _ (List.mem_of_getLast? (openBlock?_eq_some.1 ho).2)))

theorem Retained.absorb (e : Event) (h : s.Retained) : (s.absorb e).Retained := by
  induction s using Stream.absorb.induct with
  | case1 s ho =>
      rw [absorb_of_none e ho]
      exact retained_absorbHere e h
  | case2 s t x ho hfin =>
      obtain ⟨discarded, cells⟩ := h.openBlock ho
      rw [absorb_of_some e ho, if_pos hfin]
      exact retained_absorbHere e (retained_setLatest h ho ⟨discarded, cells⟩)
  | case3 s t x ho hfin ih =>
      rw [absorb_of_some e ho, if_neg hfin]
      exact retained_setLatest h ho (ih (h.openBlock ho))

theorem retained_finishHere (done : Bool) (h : s.Retained) : (s.finishHere done).Retained :=
  ⟨h.discarded, h.cells⟩

theorem Retained.conclude (h : s.Retained) : s.conclude.Retained := by
  induction s using Stream.conclude.induct with
  | case1 s ho =>
      rw [conclude_of_none ho]
      exact retained_finishHere true h
  | case2 s t x ho ih =>
      rw [conclude_of_some ho]
      exact retained_finishHere true (retained_setLatest h ho (ih (h.openBlock ho)))

theorem Retained.showTo (count : Nat) (h : s.Retained) : (s.showTo count).Retained := by
  cases hd : s.done with
  | true =>
      rw [Stream.showTo, if_pos hd]
      exact h
  | false =>
      refine ⟨(discarded_of_place (place_showTo count)).trans h.discarded, fun c hc => ?_⟩
      rw [known_showTo count hd, List.mem_append, List.mem_append] at hc
      rcases hc with hc | hc | hc
      · exact h.cells c (List.mem_append_left _ hc)
      · obtain ⟨d, hd, rfl⟩ := List.mem_map.1 hc
        exact (h.cells d (List.mem_append_right _ (List.mem_of_mem_take hd))).setLocked true
      · exact h.cells c (List.mem_append_right _ (List.mem_of_mem_drop hc))

theorem Retained.drawTo {count : Nat} (h : s.Retained)
    (hd : s.drawTo count last q = (.ok (), s', q')) : s'.Retained :=
  drawTo_keeps (fun _ h => ⟨h.discarded, h.cells⟩) (fun _ h => h.conclude)
    (fun _ e h => h.absorb e) h hd

theorem Retained.backUp (h : s.Retained) (index : Nat) :
    Stream.Retained (s.backUp Cell.rewound index) := by
  refine ⟨h.discarded, fun c hc => ?_⟩
  simp only [known, Cursor.backUp, List.mem_append, List.mem_reverse, List.mem_map] at hc
  rcases hc with (hc | ⟨d, hd, rfl⟩ | hc) | hc
  · exact h.cells c (by simp [known, List.mem_of_mem_drop hc])
  · exact (h.cells d (by simp [known, List.mem_of_mem_take hd])).rewound
  · exact h.cells c (by simp [known, hc])
  · exact h.cells c (by simp [hc])

end Stream

end DualSql
