import DualSql.Proofs.Stream.Moves

/-! # Blocks that wait

A block that was not consumed is locked and stands at its start, and so does
every block in it. A block that is given back by going back is made so again.

Main definition: `Stream.Orderly`. Main results: `Cell.kept_rewound`, and that
looking ahead keeps streams orderly. -/

namespace DualSql

/-- Whether a cell may only be looked at; tokens have nothing to be locked. -/
def Cell.isLocked : Cell → Bool
  | .leaf _ => true
  | .block _ x => x.locked

/-- The blocks ahead in the contents of a cell are locked and at their start.
So are the contents themselves unless the cell was entered. -/
inductive Cell.Kept : Bool → Cell → Prop
  | leaf (entered : Bool) (t : Token) : Kept entered (.leaf t)
  | block {entered : Bool} (t : Token) {x : Stream} (start : entered = false → x.behind = [])
      (behind : ∀ c ∈ x.behind, Kept true c) (ahead : ∀ c ∈ x.ahead, Kept false c)
      (locked : ∀ c ∈ x.ahead, c.isLocked = true) (unseen : ∀ c ∈ x.unseen, Kept false c) :
      Kept entered (.block t x)

/-- A cell that waits to be consumed: locked, at its start, and so are the
blocks in it. -/
def Cell.Waits (c : Cell) : Prop :=
  c.Kept false ∧ c.isLocked = true

/-- The blocks ahead in a stream wait to be consumed. -/
structure Stream.Orderly (s : Stream) : Prop where
  behind : ∀ c ∈ s.behind, c.Kept true
  ahead : ∀ c ∈ s.ahead, c.Waits
  unseen : ∀ c ∈ s.unseen, c.Kept false

namespace Cell

variable {c : Cell} {entered : Bool} {t : Token} {x y : Stream}

theorem kept_block_iff :
    (block t x).Kept entered ↔ (entered = false → x.behind = []) ∧ Stream.Orderly x := by
  constructor
  · intro h
    cases h with
    | block _ start behind ahead locked unseen =>
        exact ⟨start, behind, fun c hm => ⟨ahead c hm, locked c hm⟩, unseen⟩
  · rintro ⟨start, h⟩
    exact .block t start h.behind (fun c hm => (h.ahead c hm).1) (fun c hm => (h.ahead c hm).2)
      h.unseen

theorem Kept.enter (h : c.Kept false) : c.Kept true := by
  cases c with
  | leaf t => exact .leaf true t
  | block t x => exact kept_block_iff.2 ⟨by simp, (kept_block_iff.1 h).2⟩

theorem Kept.setLocked (h : c.Kept entered) (locked : Bool) : (c.setLocked locked).Kept entered := by
  cases c with
  | leaf t => exact h
  | block t x =>
      obtain ⟨start, orderly⟩ := kept_block_iff.1 h
      exact kept_block_iff.2 ⟨start, orderly.behind, orderly.ahead, orderly.unseen⟩

theorem Waits.setLocked (h : c.Kept false) : (c.setLocked true).Waits := by
  refine ⟨h.setLocked true, ?_⟩
  cases c <;> rfl

/-- The contents of a cell can change in any way that keeps them orderly and in place. -/
theorem Kept.replace (h : (Cell.block t x).Kept entered) (orderly : Stream.Orderly x → Stream.Orderly y)
    (place : Stream.place y = Stream.place x) : (Cell.block t y).Kept entered := by
  obtain ⟨start, hx⟩ := kept_block_iff.1 h
  refine kept_block_iff.2 ⟨fun he => ?_, orderly hx⟩
  have hlen : y.behind.length = x.behind.length := congrArg Place.consumed place
  rw [start he] at hlen
  exact List.length_eq_zero_iff.1 hlen

theorem Waits.replace (h : (block t x).Waits) (orderly : Stream.Orderly x → Stream.Orderly y)
    (place : Stream.place y = Stream.place x) : (block t y).Waits :=
  ⟨h.1.replace orderly place, (congrArg Place.locked place).trans h.2⟩

/-- A cell that is given back waits again, and so do the blocks in it. -/
theorem kept_rewound (h : c.Kept true) : c.rewound.Waits := by
  induction c using rewound.induct with
  | case1 t =>
      rw [rewound]
      exact ⟨.leaf false t, rfl⟩
  | case2 t x ih =>
      have orderly := (kept_block_iff.1 h).2
      rw [rewound_block]
      refine ⟨kept_block_iff.2 ⟨fun _ => rfl, ⟨by simp, ?_, orderly.unseen⟩⟩, rfl⟩
      intro c hm
      simp only [List.mem_append, List.mem_reverse, List.mem_map] at hm
      rcases hm with ⟨b, hb, rfl⟩ | hm
      · exact ih b hb (orderly.behind b hb)
      · exact orderly.ahead c hm

end Cell

namespace Stream

variable {s x y : Stream} {t : Token} {q : Queue} {last : Option LexError}

theorem orderly_setLatest (h : s.Orderly) (ho : s.openBlock? = some (t, x))
    (orderly : x.Orderly → y.Orderly) (place : y.place = x.place) :
    (s.setLatest (.block t y)).Orderly := by
  have hl := (openBlock?_eq_some.1 ho).2
  unfold setLatest
  split
  next b rest ha hb =>
    obtain rfl : b = .block t x := by simpa [known, ha, hb] using hl
    refine ⟨?_, by simp [ha], h.unseen⟩
    have hbehind := h.behind
    simp only [hb, List.mem_cons, forall_eq_or_imp] at hbehind ⊢
    exact ⟨hbehind.1.replace orderly place, hbehind.2⟩
  next hne =>
    have ha : s.ahead ≠ [] := by
      intro ha
      cases hb : s.behind with
      | nil => simp [known, ha, hb] at hl
      | cons b rest => exact hne b rest ha hb
    refine ⟨h.behind, ?_, h.unseen⟩
    rw [setLast_eq _ ha]
    intro c hm
    rcases List.mem_append.1 hm with hm | hm
    · exact h.ahead c (List.dropLast_subset _ hm)
    · have hmem : Cell.block t x ∈ s.ahead := by
        rw [known, List.getLast?_append_of_ne_nil _ ha] at hl
        exact List.mem_of_getLast? hl
      rw [List.mem_singleton.1 hm]
      exact (h.ahead _ hmem).replace orderly place

theorem orderly_absorbHere (e : Event) (h : s.Orderly) : (s.absorbHere e).Orderly := by
  have happend (c : Cell) (hc : c.Kept false) : (s.append c).Orderly := by
    refine ⟨h.behind, ?_, h.unseen⟩
    intro d hm
    rcases List.mem_append.1 hm with hm | hm
    · exact h.ahead d hm
    · rw [List.mem_singleton.1 hm]
      exact Cell.Waits.setLocked hc
  cases e with
  | token t =>
      have := happend (.leaf t) (.leaf false t)
      exact ⟨this.behind, this.ahead, this.unseen⟩
  | opened b position spaceBefore =>
      have hlexing : Orderly lexing := ⟨nofun, nofun, nofun⟩
      have := happend (.block (Token.ofBracket b position spaceBefore) lexing)
        (Cell.kept_block_iff.2 ⟨fun _ => rfl, hlexing⟩)
      exact ⟨this.behind, this.ahead, this.unseen⟩
  | closed b position => exact ⟨h.behind, h.ahead, h.unseen⟩

theorem Orderly.absorb (e : Event) (h : s.Orderly) : (s.absorb e).Orderly := by
  induction s using absorb.induct with
  | case1 s ho =>
      rw [absorb_of_none e ho]
      exact orderly_absorbHere e h
  | case2 s t x ho hfin =>
      rw [absorb_of_some e ho, if_pos hfin]
      refine orderly_absorbHere e (orderly_setLatest h ho (fun hx => ?_) rfl)
      exact ⟨hx.behind, hx.ahead, hx.unseen⟩
  | case3 s t x ho hfin ih =>
      rw [absorb_of_some e ho, if_neg hfin]
      exact orderly_setLatest h ho ih (place_absorb e)

theorem Orderly.conclude (h : s.Orderly) : s.conclude.Orderly := by
  induction s using conclude.induct with
  | case1 s ho =>
      rw [conclude_of_none ho]
      exact ⟨h.behind, h.ahead, h.unseen⟩
  | case2 s t x ho ih =>
      rw [conclude_of_some ho]
      have := orderly_setLatest h ho ih place_conclude
      exact ⟨this.behind, this.ahead, this.unseen⟩

theorem Orderly.showTo (count : Nat) (h : s.Orderly) : (s.showTo count).Orderly := by
  unfold Stream.showTo
  split
  · exact h
  · refine ⟨h.behind, ?_, fun c hm => h.unseen c (List.mem_of_mem_drop hm)⟩
    intro c hm
    rcases List.mem_append.1 hm with hm | hm
    · exact h.ahead c hm
    · obtain ⟨d, hd, rfl⟩ := List.mem_map.1 hm
      exact Cell.Waits.setLocked (h.unseen d (List.mem_of_mem_take hd))

theorem Orderly.drawTo {count : Nat} {s' : Stream} {q' : Queue} (h : s.Orderly)
    (hd : s.drawTo count last q = (.ok (), s', q')) : s'.Orderly :=
  drawTo_keeps (fun _ h => ⟨h.behind, h.ahead, h.unseen⟩) (fun _ h => h.conclude)
    (fun _ e h => h.absorb e) h hd

end Stream

end DualSql
