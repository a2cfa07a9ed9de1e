import DualSql.Proofs.Stream.Within
import DualSql.Stream.TokenTree

/-! # Nested streams at places

Where a stream and the streams of its blocks stand can be told by a place for
each of them, given by the places of the blocks around it. Drawing more makes
more of a stream known, and of those inside it that are still open, but moves
none of them.

Main definition: `Stream.Stands`. Main results: `Stream.Stands.drawTo` and
`Stream.Stands.setKnown`. -/

namespace DualSql

/-- A cell whose streams stand at places, those below it included. Streams that
were reached belong to blocks that are known. -/
inductive Cell.Stands : Bool → (List Nat → Nat) → (List Nat → Prop) → Cell → Prop
  | leaf {locked : Bool} {position : List Nat → Nat} {reached : List Nat → Prop} (t : Token)
      (unreached : ∀ p, ¬reached p) : Stands locked position reached (.leaf t)
  | block {locked : Bool} {position : List Nat → Nat} {reached : List Nat → Prop} (t : Token)
      {x : Stream} (lock : x.locked = locked) (place : x.behind.length = position [])
      (discarded : x.discarded = 0) (unseen : ∀ c ∈ x.unseen, ∃ tree : TokenTree, c = tree.toCell)
      (cells : ∀ i (c : Cell), x.known[i]? = some c → Stands (decide (position [] ≤ i))
        (fun p => position (i :: p)) (fun p => reached (i :: p)) c)
      (unknown : ∀ i, x.known.length ≤ i → ∀ p, position (i :: p) = 0 ∧ ¬reached (i :: p)) :
      Stands locked position reached (.block t x)

/-- A stream that stands at a place, as do the streams of its blocks. -/
structure Stream.Stands (position : List Nat → Nat) (reached : List Nat → Prop) (s : Stream) :
    Prop where
  place : s.behind.length = position []
  discarded : s.discarded = 0
  unseen : ∀ c ∈ s.unseen, ∃ tree : TokenTree, c = tree.toCell
  cells : ∀ i (c : Cell), s.known[i]? = some c → c.Stands (decide (position [] ≤ i))
    (fun p => position (i :: p)) (fun p => reached (i :: p))
  unknown : ∀ i, s.known.length ≤ i → ∀ p, position (i :: p) = 0 ∧ ¬reached (i :: p)

namespace Cell

variable {c d : Cell} {t : Token} {x y : Stream} {locked : Bool} {position : List Nat → Nat}
  {reached : List Nat → Prop}

theorem stands_block_iff : (block t x).Stands locked position reached ↔
    x.locked = locked ∧ x.Stands position reached := by
  constructor
  · intro h
    cases h with
    | block _ lock place discarded unseen cells unknown =>
        exact ⟨lock, place, discarded, unseen, cells, unknown⟩
  · rintro ⟨lock, h⟩
    exact .block t lock h.place h.discarded h.unseen h.cells h.unknown

/-- What is claimed of fewer streams. -/
theorem Stands.mono (h : c.Stands locked position reached) {fewer : List Nat → Prop}
    (hfewer : ∀ p, fewer p → reached p) : c.Stands locked position fewer := by
  induction h generalizing fewer with
  | leaf t unreached => exact .leaf t fun p hp => unreached p (hfewer p hp)
  | block t lock place discarded unseen cells unknown ih =>
      refine .block t lock place discarded unseen (fun i c hc => ?_) fun i hi p => ?_
      · exact ih i c hc fun p => hfewer (i :: p)
      · exact ⟨(unknown i hi p).1, fun hp => (unknown i hi p).2 (hfewer _ hp)⟩

/-- A cell that nobody has read from, locked. -/
def Unread (c : Cell) : Prop :=
  ∀ (position : List Nat → Nat) (reached : List Nat → Prop),
    (∀ p, position p = 0 ∧ ¬reached p) → c.Stands true position reached

/-- The second cell stands wherever the first one does. -/
def Outgrown (c d : Cell) : Prop :=
  ∀ locked position reached, c.Stands locked position reached → d.Stands locked position reached

theorem Outgrown.refl (c : Cell) : c.Outgrown c :=
  fun _ _ _ => id

theorem unread_leaf (t : Token) : (leaf t).Unread :=
  fun _ _ h => .leaf t fun p => (h p).2

/-- A block is unread as long as nothing of its contents is known. -/
theorem unread_block (t : Token) (hknown : x.known = []) (discarded : x.discarded = 0)
    (unseen : ∀ c ∈ x.unseen, ∃ tree : TokenTree, c = tree.toCell) (locked : x.locked = true) :
    (block t x).Unread := by
  intro position reached h
  have hbehind : x.behind.length = 0 := by
    have hlength := congrArg List.length hknown
    simp only [Stream.known, List.length_append, List.length_reverse, List.length_nil] at hlength
    omega
  refine stands_block_iff.2 ⟨locked, hbehind.trans (h []).1.symm, discarded, unseen, ?_,
    fun i _ p => h (i :: p)⟩
  intro i c hc
  rw [hknown] at hc
  cases hc

end Cell

theorem TokenTree.exists_of_mem_toCells {trees : List TokenTree} {c : Cell}
    (h : c ∈ toCells trees) : ∃ tree : TokenTree, c = tree.toCell := by
  induction trees with
  | nil => cases h
  | cons tree rest ih =>
      rcases List.mem_cons.1 h with rfl | h
      · exact ⟨tree, rfl⟩
      · exact ih h

theorem TokenTree.unread_toCell (tree : TokenTree) : (tree.toCell.setLocked true).Unread := by
  cases tree with
  | leaf t => exact Cell.unread_leaf t
  | block t contents => exact Cell.unread_block t rfl rfl (fun _ => exists_of_mem_toCells) rfl

namespace Stream

variable {s s' x y : Stream} {t : Token} {position : List Nat → Nat} {reached : List Nat → Prop}
  {last : Option LexError} {q q' : Queue}

/-- A stream stands where it did while more becomes known in it. -/
theorem Stands.grow (h : s.Stands position reached) (place : s'.place = s.place)
    (unseen : ∀ c ∈ s'.unseen, c ∈ s.unseen) {cells new : List Cell}
    (known : s'.known = cells ++ new) (old : List.Forall₂ Cell.Outgrown s.known cells)
    (unread : ∀ c ∈ new, c.Unread) : s'.Stands position reached := by
  have hbehind : s'.behind.length = s.behind.length := congrArg Place.consumed place
  have hlength : s.known.length = cells.length := old.length_eq
  refine ⟨hbehind.trans h.place, (congrArg Place.discarded place).trans h.discarded,
    fun c hc => h.unseen c (unseen c hc), fun i c hc => ?_, fun i hi => h.unknown i ?_⟩
  · rw [known] at hc
    by_cases hi : i < cells.length
    · rw [List.getElem?_append_left hi] at hc
      have hi' : i < s.known.length := by omega
      have hold := (List.forall₂_iff_get.1 old).2 i hi' hi
      rw [List.get_eq_getElem, List.get_eq_getElem, (List.getElem?_eq_some_iff.1 hc).2] at hold
      exact hold _ _ _ (h.cells i _ (List.getElem?_eq_getElem hi'))
    · rw [List.getElem?_append_right (Nat.le_of_not_lt hi)] at hc
      have hpast : position [] ≤ i := by
        rw [← h.place]
        have hknown : s.behind.length ≤ s.known.length := by simp [Stream.known]
        omega
      rw [decide_eq_true hpast]
      exact unread c (List.mem_of_getElem? hc) _ _ (h.unknown i (by omega))
  · rw [known, List.length_append] at hi
    omega

theorem forall₂_outgrown (l : List Cell) : List.Forall₂ Cell.Outgrown l l :=
  List.forall₂_same.2 fun c _ => .refl c

theorem Stands.setLatest (h : s.Stands position reached) (ho : s.openBlock? = some (t, x))
    (place : y.place = x.place)
    (hy : ∀ position reached, x.Stands position reached → y.Stands position reached) :
    (s.setLatest (.block t y)).Stands position reached := by
  have hknown := (known_setLatest (.block t y) (known_ne_nil_of_openBlock ho)).trans
    (List.append_nil _).symm
  refine h.grow (place_setLatest _) (by simp) hknown ?_ nofun
  nth_rewrite 1 [known_eq_of_openBlock ho]
  refine List.rel_append (forall₂_outgrown _) (.cons (fun locked position reached hx => ?_) .nil)
  obtain ⟨lock, hx⟩ := Cell.stands_block_iff.1 hx
  exact Cell.stands_block_iff.2 ⟨(congrArg Place.locked place).trans lock, hy _ _ hx⟩

theorem Stands.absorbHere (e : Event) (h : s.Stands position reached) :
    (s.absorbHere e).Stands position reached := by
  refine h.grow (place_absorbHere e) (by simp) (known_absorbHere e) (forall₂_outgrown _) ?_
  cases e with
  | token t =>
      intro c hc
      exact List.mem_singleton.1 hc ▸ Cell.unread_leaf t
  | opened b position spaceBefore =>
      intro c hc
      rw [List.mem_singleton.1 hc]
      exact Cell.unread_block _ rfl rfl nofun rfl
  | closed b position => nofun

/-- A stream stands where one with the same items stands. -/
theorem Stands.of_known (h : s.Stands position reached)
    (consumed : s'.behind.length = s.behind.length) (discarded : s'.discarded = s.discarded)
    (unseen : s'.unseen = s.unseen) (known : s'.known = s.known) :
    s'.Stands position reached where
  place := consumed.trans h.place
  discarded := discarded.trans h.discarded
  unseen := unseen ▸ h.unseen
  cells := known ▸ h.cells
  unknown := known ▸ h.unknown

theorem Stands.absorb (e : Event) (h : s.Stands position reached) :
    (s.absorb e).Stands position reached := by
  induction s using Stream.absorb.induct generalizing position reached with
  | case1 s ho =>
      rw [absorb_of_none e ho]
      exact h.absorbHere e
  | case2 s t x ho hfin =>
      rw [absorb_of_some e ho, if_pos hfin]
      have hset : (s.setLatest (.block t { x with done := true })).Stands position reached :=
        h.setLatest ho rfl fun _ _ hx => hx.of_known rfl rfl rfl rfl
      exact hset.absorbHere e
  | case3 s t x ho hfin ih =>
      rw [absorb_of_some e ho, if_neg hfin]
      exact h.setLatest ho (place_absorb e) fun _ _ hx => ih hx

theorem Stands.conclude (h : s.Stands position reached) : s.conclude.Stands position reached := by
  induction s using Stream.conclude.induct generalizing position reached with
  | case1 s ho =>
      rw [conclude_of_none ho]
      exact h.of_known rfl rfl rfl rfl
  | case2 s t x ho ih =>
      rw [conclude_of_some ho]
      exact (h.setLatest ho place_conclude fun _ _ hx => ih hx).of_known rfl rfl rfl rfl

theorem Stands.showTo (count : Nat) (h : s.Stands position reached) :
    (s.showTo count).Stands position reached := by
  cases hd : s.done with
  | true =>
      rw [Stream.showTo, if_pos hd]
      exact h
  | false =>
      have hknown : (s.showTo count).known = s.known ++
          (s.unseen.take (count + 1 - s.ahead.length)).map (Cell.setLocked true) := by
        simp [Stream.showTo, hd, known]
      have hunseen : (s.showTo count).unseen = s.unseen.drop (count + 1 - s.ahead.length) := by
        simp [Stream.showTo, hd]
      refine h.grow (place_showTo count) (fun c hc => ?_) hknown (forall₂_outgrown _) ?_
      · rw [hunseen] at hc
        exact List.mem_of_mem_drop hc
      · intro c hc
        obtain ⟨d, hd, rfl⟩ := List.mem_map.1 hc
        obtain ⟨tree, rfl⟩ := h.unseen d (List.mem_of_mem_take hd)
        exact tree.unread_toCell

theorem Stands.drawTo {count : Nat} (h : s.Stands position reached)
    (hd : s.drawTo count last q = (.ok (), s', q')) : s'.Stands position reached :=
  drawTo_keeps (fun _ h => h.of_known rfl rfl rfl rfl) (fun _ h => h.conclude)
    (fun _ e h => h.absorb e) h hd

/-- What happens in a known block concerns the places in it only. -/
theorem Stands.setKnown (h : s.Stands position reached) {i : Nat}
    (hk : s.known[i]? = some (.block t x)) (lock : y.locked = x.locked)
    {position' : List Nat → Nat} {reached' : List Nat → Prop}
    (hy : y.Stands (fun p => position' (i :: p)) (fun p => reached' (i :: p)))
    (here : position' [] = position []) (others : ∀ j ≠ i, ∀ p,
      position' (j :: p) = position (j :: p) ∧ (reached' (j :: p) → reached (j :: p))) :
    (s.setKnown i (.block t y)).Stands position' reached' := by
  obtain ⟨hlt, -⟩ := List.getElem?_eq_some_iff.1 hk
  refine ⟨(length_behind_setKnown ..).trans (h.place.trans here.symm), h.discarded, h.unseen,
    fun j c hc => ?_, fun j hj p => ?_⟩
  · rw [known_setKnown] at hc
    rw [here]
    by_cases hij : j = i
    · subst hij
      rw [List.getElem?_set_self hlt] at hc
      obtain rfl := Option.some.inj hc
      obtain ⟨hx, -⟩ := Cell.stands_block_iff.1 (h.cells j _ hk)
      exact Cell.stands_block_iff.2 ⟨lock.trans hx, hy⟩
    · rw [List.getElem?_set_ne (Ne.symm hij)] at hc
      have hsame : (fun p => position' (j :: p)) = fun p => position (j :: p) :=
        funext fun p => (others j hij p).1
      rw [hsame]
      exact (h.cells j c hc).mono fun p => (others j hij p).2
  · rw [known_setKnown, List.length_set] at hj
    have hne : j ≠ i := by omega
    obtain ⟨hzero, hnot⟩ := h.unknown j hj p
    exact ⟨(others j hne p).1.trans hzero, fun hp => hnot ((others j hne p).2 hp)⟩

/-- A stream that moves on stands one place further. -/
theorem Stands.stepOver (h : s.Stands position reached) {c : Cell} {rest : List Cell}
    (ha : s.ahead = c :: rest) {position' : List Nat → Nat} (here : position' [] = position [] + 1)
    (others : ∀ i p, position' (i :: p) = position (i :: p)) :
    Stream.Stands position' reached { s with
      behind := c.setLocked false :: s.behind
      ahead := rest
      hasCurrent := true
      started := true } := by
  have hknown : s.known = s.behind.reverse ++ c :: rest := by rw [known, ha]
  have hsame (i : Nat) : (fun p => position' (i :: p)) = fun p => position (i :: p) :=
    funext (others i)
  refine ⟨?_, h.discarded, h.unseen, fun i d hd => ?_, fun i hi p => ?_⟩
  · rw [here, ← h.place, List.length_cons]
  · rw [here, hsame]
    rw [known, List.reverse_cons, List.append_assoc, List.singleton_append] at hd
    have hcells := h.cells i
    rw [hknown] at hcells
    rcases Nat.lt_trichotomy i s.behind.reverse.length with hlt | rfl | hgt
    · rw [List.getElem?_append_left hlt] at hd hcells
      have hold := hcells d hd
      rw [List.length_reverse, h.place] at hlt
      rwa [decide_eq_false (by omega)] at hold ⊢
    · rw [List.getElem?_append_right (Nat.le_refl _), Nat.sub_self, List.getElem?_cons_zero] at hd
      rw [List.getElem?_append_right (Nat.le_refl _), Nat.sub_self,
        List.getElem?_cons_zero] at hcells
      obtain rfl := Option.some.inj hd
      have hold := hcells c rfl
      rw [List.length_reverse, h.place, decide_eq_false (by omega)]
      rw [List.length_reverse, h.place] at hold
      cases c with
      | leaf t =>
          cases hold with
          | leaf _ unreached => exact .leaf t unreached
      | block t x =>
          obtain ⟨-, hx⟩ := Cell.stands_block_iff.1 hold
          exact Cell.stands_block_iff.2 ⟨rfl, hx.of_known rfl rfl rfl rfl⟩
    · obtain ⟨k, hk⟩ := Nat.exists_eq_add_of_lt hgt
      rw [List.getElem?_append_right (by omega)] at hd hcells
      rw [show i - s.behind.reverse.length = k + 1 by omega, List.getElem?_cons_succ] at hd hcells
      have hold := hcells d hd
      rw [List.length_reverse, h.place] at hgt
      rw [decide_eq_true (by omega)] at hold ⊢
      exact hold
  · rw [others]
    refine h.unknown i ?_ p
    rw [hknown]
    simpa [known] using hi

/-- A known block can be reached. -/
theorem Stands.reach (h : s.Stands position reached) {i : Nat}
    (hk : s.known[i]? = some (.block t x)) {reached' : List Nat → Prop}
    (hreach : ∀ p, reached' p → reached p ∨ p = [i]) : s.Stands position reached' := by
  refine ⟨h.place, h.discarded, h.unseen, fun j c hc => ?_, fun j hj p => ?_⟩
  · by_cases hij : j = i
    · subst hij
      obtain rfl := Option.some.inj (hk.symm.trans hc)
      obtain ⟨lock, place, discarded, unseen, cells, unknown⟩ :=
        Cell.stands_block_iff.1 (h.cells j _ hk)
      have hinner (k : Nat) (p : List Nat) (hp : reached' (j :: k :: p)) : reached (j :: k :: p) :=
        (hreach _ hp).resolve_right (by simp)
      refine Cell.stands_block_iff.2 ⟨lock, place, discarded, unseen, fun k d hd => ?_,
        fun k hk p => ?_⟩
      · exact (cells k d hd).mono (hinner k)
      · exact ⟨(unknown k hk p).1, fun hp => (unknown k hk p).2 (hinner k p hp)⟩
    · exact (h.cells j c hc).mono fun p hp => (hreach _ hp).resolve_right (by simp [hij])
  · obtain ⟨hlt, -⟩ := List.getElem?_eq_some_iff.1 hk
    obtain ⟨hzero, hnot⟩ := h.unknown j hj p
    have hne : j ≠ i := by omega
    exact ⟨hzero, fun hp => hnot ((hreach _ hp).resolve_right (by simp [hne]))⟩

/-- A stream that was reached is that of a known block. -/
theorem Stands.known_of_reached (h : s.Stands position reached) {i : Nat} {path : List Nat}
    (hreach : reached (i :: path)) : ∃ t x, s.known[i]? = some (.block t x) ∧
      x.locked = decide (position [] ≤ i) ∧
      Stream.Stands (fun p => position (i :: p)) (fun p => reached (i :: p)) x := by
  cases hk : s.known[i]? with
  | none => exact absurd hreach (h.unknown i (List.getElem?_eq_none_iff.1 hk) path).2
  | some c =>
      have hc := h.cells i c hk
      cases c with
      | leaf t =>
          cases hc with
          | leaf _ unreached => exact absurd hreach (unreached path)
      | block t x => exact ⟨t, x, rfl, Cell.stands_block_iff.1 hc⟩

end Stream

end DualSql
