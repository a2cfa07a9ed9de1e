import Mathlib.Algebra.GroupWithZero.Nat
import DualSql.Proofs.Stream.PlainCursor

/-! # Streams that were given in advance

A stream over cells that were given in advance draws on no lexing run, so there
is nothing in it that could fail to arrive. Reading from it succeeds as long as
the reader returns to no position that was let go, and a reader that never
commits has let none go.

Main definition: `Source.Free`. Main results: every operation that a parser
reads with succeeds and leaves the source free. -/

namespace DualSql

/-- The contents of a cell were given in advance, none of them was let go, and
the same is true of the cells in it. -/
inductive Cell.Given : Cell → Prop
  | leaf (t : Token) : Given (.leaf t)
  | block (t : Token) {x : Stream} (supply : x.supply = .given) (discarded : x.discarded = 0)
      (behind : ∀ c ∈ x.behind, Given c) (ahead : ∀ c ∈ x.ahead, Given c)
      (unseen : ∀ c ∈ x.unseen, Given c) : Given (.block t x)

/-- The cells of a stream were given in advance, and none of them was let go. -/
structure Stream.Given (s : Stream) : Prop where
  supply : s.supply = .given
  discarded : s.discarded = 0
  behind : ∀ c ∈ s.behind, c.Given
  ahead : ∀ c ∈ s.ahead, c.Given
  unseen : ∀ c ∈ s.unseen, c.Given

namespace Cell

variable {c : Cell} {t : Token} {x : Stream}

theorem given_block_iff : (block t x).Given ↔ x.Given := by
  constructor
  · intro h
    cases h with
    | block _ supply discarded behind ahead unseen =>
        exact ⟨supply, discarded, behind, ahead, unseen⟩
  · intro h
    exact .block t h.supply h.discarded h.behind h.ahead h.unseen

theorem Given.setLocked (h : c.Given) (locked : Bool) : (c.setLocked locked).Given := by
  cases c with
  | leaf t => exact h
  | block t x =>
      obtain ⟨supply, discarded, behind, ahead, unseen⟩ := given_block_iff.1 h
      exact .block t supply discarded behind ahead unseen

theorem Given.rewound (h : c.Given) : c.rewound.Given := by
  induction c using Cell.rewound.induct with
  | case1 t =>
      rw [Cell.rewound]
      exact h
  | case2 t x ih =>
      have hx := given_block_iff.1 h
      rw [rewound_block]
      refine .block t hx.supply hx.discarded (by simp) ?_ hx.unseen
      intro c hm
      simp only [List.mem_append, List.mem_reverse, List.mem_map] at hm
      rcases hm with ⟨b, hb, rfl⟩ | hm
      · exact ih b hb (hx.behind b hb)
      · exact hx.ahead c hm

end Cell

mutual

theorem TokenTree.given_toCell : (t : TokenTree) → t.toCell.Given
  | .leaf t => .leaf t
  | .block t contents =>
      .block t rfl rfl nofun nofun (TokenTree.given_toCells contents)

theorem TokenTree.given_toCells : (ts : List TokenTree) → ∀ c ∈ TokenTree.toCells ts, c.Given
  | [] => by simp [TokenTree.toCells]
  | t :: ts => by
      simp only [TokenTree.toCells, List.mem_cons, forall_eq_or_imp]
      exact ⟨TokenTree.given_toCell t, TokenTree.given_toCells ts⟩

end

namespace Stream

variable {s : Stream}

theorem Given.showTo (h : s.Given) (count : Nat) : (s.showTo count).Given := by
  unfold Stream.showTo
  split
  · exact h
  · refine ⟨h.supply, h.discarded, h.behind, ?_, fun c hm => h.unseen c (List.mem_of_mem_drop hm)⟩
    intro c hm
    rcases List.mem_append.1 hm with hm | hm
    · exact h.ahead c hm
    · obtain ⟨d, hd, rfl⟩ := List.mem_map.1 hm
      exact (h.unseen d (List.mem_of_mem_take hd)).setLocked true

theorem Given.backUp (h : s.Given) (index : Nat) :
    Stream.Given (s.backUp Cell.rewound index) := by
  refine ⟨h.supply, h.discarded, fun c hm => h.behind c (List.mem_of_mem_drop hm), ?_, h.unseen⟩
  intro c hm
  simp only [Cursor.backUp, List.mem_append, List.mem_reverse, List.mem_map] at hm
  rcases hm with ⟨d, hd, rfl⟩ | hm
  · exact (h.behind d (List.mem_of_mem_take hd)).rewound
  · exact h.ahead c hm

end Stream

/-! ### The number of tokens -/

theorem Cell.weight_block (t : Token) (cells : List Cell) :
    (Cell.block t (Stream.ofCells cells)).weight = 1 + (cells.map Cell.weight).sum := by
  rw [Cell.weight]
  simp [Stream.ofCells, List.sum_eq_foldr, List.foldr_map]

theorem Source.weight_ofCells (cells : List Cell) :
    weight { stream := .ofCells cells } = (cells.map Cell.weight).sum := by
  simp [weight, Feed.weightOf, Stream.ofCells, Feed.empty, List.sum_eq_foldr, List.foldr_map]

namespace Source

open Fallible

/-- A source over items that were given in advance, which may be read and stands
at a position or behind it. -/
structure Free (base : Nat) (s : Source) : Prop where
  given : s.stream.Given
  unlocked : s.stream.locked = false
  base_le : base ≤ s.stream.position

variable {s : Source} {base : Nat}

theorem Free.mono {base' : Nat} (h : s.Free base) (hle : base' ≤ base) : s.Free base' :=
  ⟨h.given, h.unlocked, Nat.le_trans hle h.base_le⟩

theorem Free.here (h : s.Free base) : s.Free s.stream.position :=
  ⟨h.given, h.unlocked, Nat.le_refl _⟩

theorem free_ofTrees (trees : List TokenTree) :
    Free 0 { stream := .ofCells (TokenTree.toCells trees) } :=
  ⟨⟨rfl, rfl, nofun, nofun, TokenTree.given_toCells trees⟩, rfl, Nat.zero_le _⟩

theorem runs_fillTo (h : s.Free base) (n : Nat) : Runs (Free base) (fillTo n) s := by
  refine ⟨⟨⟩, { s with stream := s.stream.showTo n }, ?_, h.given.showTo n, ?_, ?_⟩
  · simp only [fillTo, bind_eq_ok, get_eq_ok]
    refine ⟨s, s, ⟨rfl, rfl⟩, ?_⟩
    simp only [h.given.supply]
    exact set_eq_ok.2 rfl
  · rw [← h.unlocked, Stream.showTo]
    split <;> rfl
  · refine Nat.le_trans h.base_le (Nat.le_of_eq ?_)
    unfold Stream.showTo
    split <;> rfl

theorem runs_peek (h : s.Free base) (n : Nat) : Runs (Free base) (peek n) s := by
  rw [peek, peekCell, bind_assoc]
  refine (runs_fillTo h n).bind fun _ t _ ht => ?_
  rw [bind_assoc]
  refine Runs.get_bind ?_
  exact (Runs.pure _ ht).bind fun _ u _ hu => .pure _ hu

theorem runs_isExhausted (h : s.Free base) : Runs (Free base) isExhausted s :=
  (runs_peek h 0).bind fun _ _ _ ht => .pure _ ht

theorem runs_nextCell (h : s.Free base) : Runs (Free base) nextCell s := by
  obtain ⟨⟨⟩, t, hfill, ht⟩ := runs_fillTo h 0
  have hnext : ∃ c u, nextCell s = (.ok c, u) := by
    simp only [nextCell, bind_eq_ok, get_eq_ok, set_eq_ok, pure_eq_ok]
    exact ⟨_, _, ⟨⟩, s, checkUnlocked_total h.unlocked, ⟨⟩, t, hfill, t, t, ⟨rfl, rfl⟩, ⟨⟩, _, rfl,
      rfl, rfl⟩
  obtain ⟨c, u, hnext⟩ := hnext
  obtain ⟨t', hfill', -, hcases⟩ := nextCell_ok hnext
  obtain rfl : t = t' := by
    rw [hfill] at hfill'
    exact (Prod.mk.inj hfill').2
  refine ⟨c, u, hnext, ?_⟩
  obtain ⟨d, rest, ha, -, rfl⟩ | ⟨ha, -, rfl⟩ := hcases
  · have hahead := ht.given.ahead
    simp only [ha, List.mem_cons, forall_eq_or_imp] at hahead
    refine ⟨⟨ht.given.supply, ht.given.discarded, ?_, hahead.2, ht.given.unseen⟩, ht.unlocked, ?_⟩
    · simp only [stepOver, List.mem_cons, forall_eq_or_imp]
      exact ⟨hahead.1.setLocked false, ht.given.behind⟩
    · refine Nat.le_trans ht.base_le ?_
      simp only [stepOver, Cursor.position, List.length_cons]
      omega
  · have hstep : t.stream.step.2 = { t.stream with
        hasCurrent := false, started := t.stream.started || t.stream.hasCurrent } := by
      simp [Cursor.step, ha]
    rw [hstep]
    exact ⟨⟨ht.given.supply, ht.given.discarded, ht.given.behind, ht.given.ahead, ht.given.unseen⟩,
      ht.unlocked, ht.base_le⟩

theorem runs_next (h : s.Free base) : Runs (Free base) next s :=
  (runs_nextCell h).bind fun _ _ _ ht => .pure _ ht

theorem runs_savepoint (h : s.Free base) : Runs (Free base) savepoint s := by
  refine ⟨s.stream.position, { s with stream := { s.stream with
    anchor := s.stream.anchor.or (some s.stream.position) } }, ?_, ?_⟩
  · rw [savepoint, bind_of_ok (checkUnlocked_total h.unlocked)]
    rfl
  · exact ⟨⟨h.given.supply, h.given.discarded, h.given.behind, h.given.ahead, h.given.unseen⟩,
      h.unlocked, h.base_le⟩

/-- The reader can return to any position that it has passed. -/
theorem runs_restore (h : s.Free base) : Runs (Free base) (restore base) s := by
  have hreturn : s.stream.canReturnTo base = true := by
    simp [Cursor.canReturnTo, Cursor.leastPosition, h.given.discarded, h.base_le]
  have hcheck : checkIndex base s = (.ok (), s) := by
    rw [checkIndex_eq, hreturn]
    rfl
  refine ⟨⟨⟩, { s with stream := s.stream.backUp Cell.rewound base }, ?_, h.given.backUp base,
    h.unlocked, ?_⟩
  · rw [restore, bind_of_ok (checkUnlocked_total h.unlocked), bind_of_ok hcheck]
    rfl
  · have hposition := h.base_le
    simp only [Cursor.position, h.given.discarded, Cursor.backUp, List.length_drop] at hposition ⊢
    omega

theorem runs_skipTriviaUpTo (h : s.Free base) (fuel : Nat) :
    Runs (Free base) (skipTriviaUpTo fuel) s := by
  induction fuel generalizing s with
  | zero => exact .pure _ h
  | succ fuel ih =>
      rw [skipTriviaUpTo]
      refine (runs_peek h 0).bind fun t u _ hu => ?_
      split
      · exact (runs_next hu).bind fun _ v _ hv => ih hv
      · exact .pure _ hu

theorem runs_skipTrivia (h : s.Free base) : Runs (Free base) skipTrivia s := by
  rw [skipTrivia]
  refine (runs_peek h 0).bind fun t u _ hu => ?_
  split
  · exact Runs.get_bind (runs_skipTriviaUpTo hu _)
  · exact .pure _ hu

theorem runs_peekPastTrivia (h : s.Free base) (fuel n : Nat) :
    Runs (Free base) (peekPastTrivia fuel n) s := by
  induction fuel generalizing s n with
  | zero => exact .pure _ h
  | succ fuel ih =>
      rw [peekPastTrivia]
      refine (runs_peek h n).bind fun t u _ hu => ?_
      cases t with
      | none => exact .pure _ hu
      | some t =>
          dsimp only
          split
          · exact ih hu (n + 1)
          · exact .pure _ hu

theorem runs_peekSignificant (h : s.Free base) : Runs (Free base) peekSignificant s := by
  rw [peekSignificant]
  refine (runs_peek h 0).bind fun t u _ hu => ?_
  cases t with
  | none => exact .pure _ hu
  | some t =>
      dsimp only
      split
      · exact Runs.get_bind (runs_peekPastTrivia hu _ 0)
      · exact .pure _ hu

/-! ### Inside a block -/

/-- The contents of the block that was consumed last are free if they may be read. -/
theorem Free.contents {t : Token} {x : Stream} {rest : List Cell} (h : s.Free base)
    (hb : s.stream.behind = .block t x :: rest) (hx : x.locked = false) :
    Free x.position { s with stream := x } :=
  ⟨Cell.given_block_iff.1 (h.given.behind (.block t x) (by simp [hb])), hx, Nat.le_refl _⟩

/-- What is read inside a block leaves the source around it free. -/
theorem Free.leave {t : Token} {x y : Stream} {feed : Feed} {rest : List Cell} (h : s.Free base)
    (hb : s.stream.behind = .block t x :: rest) (hy : y.Given) :
    Free base { stream := { s.stream with behind := .block t y :: rest }, feed } := by
  have hbehind := h.given.behind
  simp only [hb, List.mem_cons, forall_eq_or_imp] at hbehind
  refine ⟨⟨h.given.supply, h.given.discarded, ?_, h.given.ahead, h.given.unseen⟩, h.unlocked, ?_⟩
  · simp only [List.mem_cons, forall_eq_or_imp]
    exact ⟨Cell.given_block_iff.2 hy, hbehind.2⟩
  · refine Nat.le_trans h.base_le (Nat.le_of_eq ?_)
    simp [Cursor.position, hb]

end Source

end DualSql
