import Mathlib.Logic.Relation
import DualSql.Proofs.Stream.Within

/-! # Locked and unlocked blocks

A stream is locked while its block waits to be consumed, and unlocked from then
on until the block is given back. Inside a block that was consumed, the blocks
that were consumed are unlocked in turn, and those ahead wait.

Main definitions: `Stream.Opened`, `Stream.Shut` and `Source.Move`, all that a
request can do to a stream but to let go of items. Main results:
`Request.opened_run` and `Request.shut_run`, which hold for requests that fail
as well, also in the lexing run. -/

namespace DualSql

/-- A cell that was consumed, with what was consumed of its contents. -/
inductive Cell.Entered : Cell → Prop
  | leaf (t : Token) : Entered (.leaf t)
  | block (t : Token) {x : Stream} (unlocked : x.locked = false)
      (behind : ∀ c ∈ x.behind, Entered c) (ahead : ∀ c ∈ x.ahead, c.Waits)
      (unseen : ∀ c ∈ x.unseen, c.Kept false) : Entered (.block t x)

namespace Stream

/-- What was consumed was entered, and what is ahead waits. -/
structure Latched (s : Stream) : Prop where
  behind : ∀ c ∈ s.behind, c.Entered
  ahead : ∀ c ∈ s.ahead, c.Waits
  unseen : ∀ c ∈ s.unseen, c.Kept false

/-- A stream that may be read from. -/
structure Opened (s : Stream) : Prop where
  unlocked : s.locked = false
  latched : s.Latched

/-- A stream that waits for its block to be consumed. -/
structure Shut (s : Stream) : Prop where
  locked : s.locked = true
  start : s.behind = []
  orderly : s.Orderly

end Stream

namespace Cell

variable {c : Cell} {t : Token} {x : Stream}

theorem entered_block_iff : (block t x).Entered ↔ x.Opened := by
  constructor
  · intro h
    cases h with
    | block _ unlocked behind ahead unseen => exact ⟨unlocked, behind, ahead, unseen⟩
  · intro h
    exact .block t h.unlocked h.latched.behind h.latched.ahead h.latched.unseen

theorem waits_block_iff : (block t x).Waits ↔ x.Shut := by
  rw [Waits, kept_block_iff]
  constructor
  · rintro ⟨⟨start, orderly⟩, locked⟩
    exact ⟨locked, start rfl, orderly⟩
  · rintro ⟨locked, start, orderly⟩
    exact ⟨⟨fun _ => start, orderly⟩, locked⟩

theorem Entered.kept (h : c.Entered) : c.Kept true := by
  induction h with
  | leaf t => exact .leaf true t
  | block t _ _ ahead unseen ih => exact kept_block_iff.2 ⟨nofun, ih, ahead, unseen⟩

/-- A cell that waits is entered by unlocking it. -/
theorem Waits.entered (h : c.Waits) : (c.setLocked false).Entered := by
  cases c with
  | leaf t => exact .leaf t
  | block t x =>
      obtain ⟨-, start, orderly⟩ := waits_block_iff.1 h
      have hbehind : ∀ c ∈ x.behind, c.Entered := by simp [start]
      exact .block t rfl hbehind orderly.ahead orderly.unseen

end Cell

namespace Stream

variable {s x y : Stream} {t : Token} {last : Option LexError}

theorem Latched.orderly (h : s.Latched) : s.Orderly where
  behind := fun c hc => (h.behind c hc).kept
  ahead := h.ahead
  unseen := h.unseen

/-! ### Arriving contents -/

theorem fail_of_none (h : s.openBlock? = none) : s.fail = s.finishHere false := by
  rw [fail]
  split
  next => rfl
  next t c hsome => simp [h] at hsome

theorem fail_of_some (h : s.openBlock? = some (t, x)) :
    s.fail = if x.isFinished then (s.setLatest (.block t { x with done := true })).finishHere false
      else { s.setLatest (.block t x.fail) with supply := .lexed false false } := by
  rw [fail]
  split
  next hnone => simp [h] at hnone
  next t c hsome =>
    obtain ⟨rfl, rfl⟩ : _ = t ∧ _ = c := by simpa [h] using hsome
    rfl

@[simp] theorem place_fail : s.fail.place = s.place := by
  cases ho : s.openBlock? with
  | none =>
      rw [fail_of_none ho]
      rfl
  | some b =>
      rw [fail_of_some ho]
      split
      · exact place_setLatest (.block b.1 { b.2 with done := true })
      · exact place_setLatest (.block b.1 b.2.fail)

theorem Orderly.fail (h : s.Orderly) : s.fail.Orderly := by
  induction s using fail.induct with
  | case1 s ho =>
      rw [fail_of_none ho]
      exact ⟨h.behind, h.ahead, h.unseen⟩
  | case2 s t x ho hfin =>
      have hset : (s.setLatest (.block t { x with done := true })).Orderly :=
        orderly_setLatest h ho (fun hx => ⟨hx.behind, hx.ahead, hx.unseen⟩) rfl
      rw [fail_of_some ho, if_pos hfin]
      exact ⟨hset.behind, hset.ahead, hset.unseen⟩
  | case3 s t x ho hfin ih =>
      have hset := orderly_setLatest h ho ih place_fail
      rw [fail_of_some ho, if_neg hfin]
      exact ⟨hset.behind, hset.ahead, hset.unseen⟩

/-- The open block is entered or waits, and stays so while its contents arrive. -/
theorem latched_setLatest (h : s.Latched) (ho : s.openBlock? = some (t, x))
    (latched : x.Latched → y.Latched) (orderly : x.Orderly → y.Orderly)
    (place : y.place = x.place) : (s.setLatest (.block t y)).Latched := by
  have hset := orderly_setLatest h.orderly ho orderly place
  refine ⟨?_, hset.ahead, hset.unseen⟩
  have hl := (openBlock?_eq_some.1 ho).2
  unfold setLatest
  split
  next b rest ha hb =>
    obtain rfl : b = .block t x := by simpa [known, ha, hb] using hl
    have hbehind := h.behind
    simp only [hb, List.mem_cons, forall_eq_or_imp] at hbehind ⊢
    have hx := Cell.entered_block_iff.1 hbehind.1
    have hlocked : y.locked = x.locked := congrArg Place.locked place
    exact ⟨Cell.entered_block_iff.2 ⟨hlocked.trans hx.unlocked, latched hx.latched⟩, hbehind.2⟩
  next => exact h.behind

theorem Latched.absorbHere (e : Event) (h : s.Latched) : (s.absorbHere e).Latched := by
  have horderly := orderly_absorbHere e h.orderly
  have hbehind : (s.absorbHere e).behind = s.behind := by cases e <;> rfl
  exact ⟨hbehind ▸ h.behind, horderly.ahead, horderly.unseen⟩

theorem Latched.absorb (e : Event) (h : s.Latched) : (s.absorb e).Latched := by
  induction s using absorb.induct with
  | case1 s ho =>
      rw [absorb_of_none e ho]
      exact h.absorbHere e
  | case2 s t x ho hfin =>
      have hset : (s.setLatest (.block t { x with done := true })).Latched :=
        latched_setLatest h ho (fun hx => ⟨hx.behind, hx.ahead, hx.unseen⟩)
          (fun hx => ⟨hx.behind, hx.ahead, hx.unseen⟩) rfl
      rw [absorb_of_some e ho, if_pos hfin]
      exact hset.absorbHere e
  | case3 s t x ho hfin ih =>
      rw [absorb_of_some e ho, if_neg hfin]
      exact latched_setLatest h ho ih (Orderly.absorb e) (place_absorb e)

theorem Latched.fail (h : s.Latched) : s.fail.Latched := by
  induction s using fail.induct with
  | case1 s ho =>
      rw [fail_of_none ho]
      exact ⟨h.behind, h.ahead, h.unseen⟩
  | case2 s t x ho hfin =>
      have hset : (s.setLatest (.block t { x with done := true })).Latched :=
        latched_setLatest h ho (fun hx => ⟨hx.behind, hx.ahead, hx.unseen⟩)
          (fun hx => ⟨hx.behind, hx.ahead, hx.unseen⟩) rfl
      rw [fail_of_some ho, if_pos hfin]
      exact ⟨hset.behind, hset.ahead, hset.unseen⟩
  | case3 s t x ho hfin ih =>
      have hset := latched_setLatest h ho ih Orderly.fail place_fail
      rw [fail_of_some ho, if_neg hfin]
      exact ⟨hset.behind, hset.ahead, hset.unseen⟩

theorem Latched.conclude (h : s.Latched) : s.conclude.Latched := by
  induction s using conclude.induct with
  | case1 s ho =>
      rw [conclude_of_none ho]
      exact ⟨h.behind, h.ahead, h.unseen⟩
  | case2 s t x ho ih =>
      have hset := latched_setLatest h ho ih Orderly.conclude place_conclude
      rw [conclude_of_some ho]
      exact ⟨hset.behind, hset.ahead, hset.unseen⟩

theorem Latched.showTo (count : Nat) (h : s.Latched) : (s.showTo count).Latched := by
  have horderly := h.orderly.showTo count
  have hbehind : (s.showTo count).behind = s.behind := by
    unfold Stream.showTo
    split <;> rfl
  exact ⟨hbehind ▸ h.behind, horderly.ahead, horderly.unseen⟩

/-- A property of streams that looking ahead keeps, whatever the lexing run brings. -/
structure Lasting (P : Stream → Prop) : Prop where
  absorb : ∀ s e, P s → P (s.absorb e)
  fail : ∀ s, P s → P s.fail
  conclude : ∀ s, P s → P s.conclude
  done : ∀ s : Stream, P s → P { s with done := true }
  showTo : ∀ s count, P s → P (s.showTo count)

theorem lasting_place (p : Place) : Lasting (·.place = p) where
  absorb := fun _ e h => (place_absorb e).trans h
  fail := fun _ h => place_fail.trans h
  conclude := fun _ h => place_conclude.trans h
  done := fun _ h => h
  showTo := fun _ count h => (place_showTo count).trans h

theorem lasting_orderly : Lasting Orderly where
  absorb := fun _ e h => h.absorb e
  fail := fun _ h => h.fail
  conclude := fun _ h => h.conclude
  done := fun _ h => ⟨h.behind, h.ahead, h.unseen⟩
  showTo := fun _ count h => h.showTo count

theorem lasting_latched : Lasting Latched where
  absorb := fun _ e h => h.absorb e
  fail := fun _ h => h.fail
  conclude := fun _ h => h.conclude
  done := fun _ h => ⟨h.behind, h.ahead, h.unseen⟩
  showTo := fun _ count h => h.showTo count

theorem Lasting.drawTo {P : Stream → Prop} (hP : Lasting P) (count : Nat)
    (last : Option LexError) (q : Queue) (h : P s) : P (s.drawTo count last q).2.1 := by
  fun_induction Stream.drawTo count last q s with
  | case1 q s _ => exact h
  | case2 q s _ _ => exact hP.done s h
  | case3 s _ _ _ => exact hP.conclude s h
  | case4 s _ _ _ _ => exact hP.fail s h
  | case5 s _ _ e rest ih => exact ih (hP.absorb s e h)
  | case6 s _ _ _ _ => exact hP.fail s h

end Stream

namespace Source

open Fallible

variable {s t : Source} {α β : Type}

theorem lasting_fillTo {P : Stream → Prop} (hP : Stream.Lasting P) (n : Nat) (h : P s.stream) :
    P (fillTo n s).2.stream := by
  rw [fillTo, bind_of_ok (get_eq_ok.2 ⟨rfl, rfl⟩)]
  cases hs : s.stream.supply with
  | given => exact hP.showTo s.stream n h
  | lexed blockOpen finished =>
      have hdraw := hP.drawTo n s.feed.last s.feed.queue h
      rcases hd : s.stream.drawTo n s.feed.last s.feed.queue with ⟨e | ⟨⟩, stream, queue⟩ <;>
      · rw [hd] at hdraw
        exact hdraw

/-! ### What a request can do -/

/-- One thing that a request does to a stream, other than to let go of items. -/
inductive Move : Source → Source → Prop
  | fill (s : Source) (n : Nat) : Move s (fillTo n s).2
  | consume {s : Source} {c : Cell} {rest : List Cell} (unlocked : s.stream.locked = false)
      (ahead : s.stream.ahead = c :: rest) : Move s (s.stepOver c rest)
  | finish {s : Source} (unlocked : s.stream.locked = false) (started : Bool) :
      Move s { s with stream := { s.stream with hasCurrent := false, started } }
  | mark {s : Source} (unlocked : s.stream.locked = false) (anchor : Option Nat) :
      Move s { s with stream := { s.stream with anchor } }
  | giveBack {s : Source} (unlocked : s.stream.locked = false) {index : Nat}
      (reachable : s.stream.canReturnTo index = true) :
      Move s { s with stream := s.stream.backUp Cell.rewound index }

/-- A stream that may only be looked at stays where it is. -/
theorem Move.shut (h : Move s t) (hs : s.stream.Shut) : t.stream.Shut := by
  cases h with
  | fill n =>
      have hplace := lasting_fillTo (Stream.lasting_place s.stream.place) n rfl
      refine ⟨(congrArg Place.locked hplace).trans hs.locked, ?_,
        lasting_fillTo Stream.lasting_orderly n hs.orderly⟩
      have hlength : (fillTo n s).2.stream.behind.length = s.stream.behind.length :=
        congrArg Place.consumed hplace
      rw [hs.start] at hlength
      exact List.length_eq_zero_iff.1 hlength
  | consume unlocked => rw [hs.locked] at unlocked; cases unlocked
  | finish unlocked => rw [hs.locked] at unlocked; cases unlocked
  | mark unlocked => rw [hs.locked] at unlocked; cases unlocked
  | giveBack unlocked => rw [hs.locked] at unlocked; cases unlocked

theorem Move.opened (h : Move s t) (hs : s.stream.Opened) : t.stream.Opened := by
  obtain ⟨hu, hbehind, hahead, hunseen⟩ := hs
  cases h with
  | fill n =>
      have hplace := lasting_fillTo (Stream.lasting_place s.stream.place) n rfl
      exact ⟨(congrArg Place.locked hplace).trans hu,
        lasting_fillTo Stream.lasting_latched n ⟨hbehind, hahead, hunseen⟩⟩
  | @consume c rest _ ahead =>
      simp only [ahead, List.mem_cons, forall_eq_or_imp] at hahead
      refine ⟨hu, ?_, hahead.2, hunseen⟩
      simp only [stepOver, List.mem_cons, forall_eq_or_imp]
      exact ⟨hahead.1.entered, hbehind⟩
  | finish _ _ => exact ⟨hu, hbehind, hahead, hunseen⟩
  | mark _ _ => exact ⟨hu, hbehind, hahead, hunseen⟩
  | @giveBack _ index _ =>
      have hback := orderly_backUp (Stream.Latched.orderly ⟨hbehind, hahead, hunseen⟩) index
      exact ⟨hu, fun c hc => hbehind c (List.mem_of_mem_drop hc), hback.ahead, hback.unseen⟩

theorem Move.discarded (h : Move s t) : t.stream.discarded = s.stream.discarded := by
  cases h with
  | fill n =>
      exact congrArg Place.discarded (lasting_fillTo (Stream.lasting_place s.stream.place) n rfl)
  | consume | finish | mark | giveBack => rfl

theorem shut_of_moves (h : Relation.ReflTransGen Move s t) (hs : s.stream.Shut) :
    t.stream.Shut ∧ t.stream.discarded = s.stream.discarded := by
  induction h with
  | refl => exact ⟨hs, rfl⟩
  | tail _ hmove ih => exact ⟨hmove.shut ih.1, hmove.discarded.trans ih.2⟩

theorem opened_of_moves (h : Relation.ReflTransGen Move s t) (hs : s.stream.Opened) :
    t.stream.Opened ∧ t.stream.discarded = s.stream.discarded := by
  induction h with
  | refl => exact ⟨hs, rfl⟩
  | tail _ hmove ih => exact ⟨hmove.opened ih.1, hmove.discarded.trans ih.2⟩

/-- A computation that does nothing but such moves, whether it fails or not. -/
def Moving (m : Reading α) : Prop :=
  ∀ s, Relation.ReflTransGen Move s (m s).2

theorem moving_pure (a : α) : Moving (pure a) := fun _ => .refl

theorem moving_throw (e : Error) : Moving (throw e : Reading α) := fun _ => .refl

theorem moving_get : Moving get := fun _ => .refl

theorem Moving.bind {m : Reading α} {k : α → Reading β} (hm : Moving m)
    (hk : ∀ a, Moving (k a)) : Moving (m >>= k) := by
  intro s
  rw [bind_apply]
  have hfirst := hm s
  rcases hr : m s with ⟨e | a, t⟩
  · rw [hr] at hfirst
    exact hfirst
  · rw [hr] at hfirst
    exact hfirst.trans (hk a t)

theorem moving_fillTo (n : Nat) : Moving (fillTo n) :=
  fun s => .single (.fill s n)

theorem moving_peek (n : Nat) : Moving (peek n) :=
  ((moving_fillTo n).bind fun _ => moving_get.bind fun _ => moving_pure _).bind fun _ =>
    moving_pure _

theorem moving_lookingAt (n : Nat) (kind : TokenKind) (value : Option String) :
    Moving (lookingAt n kind value) :=
  (moving_peek n).bind fun _ => moving_pure _

theorem checkUnlocked_eq (s : Source) : checkUnlocked s =
    (if s.stream.locked then .error (.stream .locked) else .ok (), s) := by
  have happly : checkUnlocked s = (if s.stream.locked then throw (.stream .locked)
      else pure () : Reading Unit) s := rfl
  rw [happly]
  cases s.stream.locked <;> rfl

/-- A request that begins with the check fails on a locked stream. -/
theorem bind_of_locked {k : Unit → Reading α} (h : s.stream.locked = true) :
    (checkUnlocked >>= k) s = (.error (.stream .locked), s) :=
  bind_of_error (by rw [checkUnlocked_eq, if_pos h])

theorem bind_of_unlocked {k : Unit → Reading α} (h : s.stream.locked = false) :
    (checkUnlocked >>= k) s = k () s :=
  bind_of_ok (by rw [checkUnlocked_eq, h]; rfl)

theorem moving_nextCell : Moving nextCell := by
  intro s
  cases hl : s.stream.locked with
  | true =>
      rw [nextCell, bind_of_locked hl]
  | false =>
      have hfill := Move.fill s 0
      rcases hf : fillTo 0 s with ⟨e | ⟨⟩, t⟩
      · rw [nextCell, bind_of_unlocked hl, bind_of_error hf]
        rw [hf] at hfill
        exact .single hfill
      · rw [hf] at hfill
        have hplace := lasting_fillTo (Stream.lasting_place s.stream.place) 0 rfl
        rw [hf] at hplace
        have hu : t.stream.locked = false := (congrArg Place.locked hplace).trans hl
        cases ha : t.stream.ahead with
        | cons c rest =>
            rw [nextCell_of_fillTo hl hf ha]
            exact (Relation.ReflTransGen.single hfill).tail (.consume hu ha)
        | nil =>
            rw [nextCell_of_fillTo_nil hl hf ha]
            simp only [Cursor.step, ha]
            exact (Relation.ReflTransGen.single hfill).tail (ha ▸ .finish hu _)

theorem moving_next : Moving next :=
  moving_nextCell.bind fun _ => moving_pure _

theorem moving_eat (kind : TokenKind) (value : Option String) : Moving (eat kind value) := by
  refine (moving_lookingAt 0 kind value).bind fun found => ?_
  cases found with
  | true => exact moving_next
  | false => exact moving_pure none

theorem moving_expect (kind : TokenKind) (value : Option String) :
    Moving (expect kind value) := by
  refine (moving_eat kind value).bind fun token => ?_
  cases token with
  | some token => exact moving_pure token
  | none => exact (moving_peek 0).bind fun _ => moving_throw _

theorem moving_savepoint : Moving savepoint := by
  intro s
  cases hl : s.stream.locked with
  | true => rw [savepoint, bind_of_locked hl]
  | false =>
      rw [savepoint, bind_of_unlocked hl]
      exact .single (.mark hl _)

theorem moving_restore (index : Nat) : Moving (restore index) := by
  intro s
  cases hl : s.stream.locked with
  | true => rw [restore, bind_of_locked hl]
  | false =>
      rw [restore, bind_of_unlocked hl, bind_apply, checkIndex_eq]
      cases hreach : s.stream.canReturnTo index with
      | true => exact .single (.giveBack hl hreach)
      | false => exact .refl

theorem moving_collectUpTo (fuel : Nat) : Moving (collectUpTo fuel) := by
  induction fuel with
  | zero => exact moving_pure []
  | succ fuel ih =>
      refine moving_next.bind fun token => ?_
      cases token with
      | none => exact moving_pure []
      | some token => exact ih.bind fun _ => moving_pure _

theorem moving_collect : Moving collect :=
  moving_get.bind fun _ => moving_collectUpTo _

/-- A commit lets go of items that were consumed, or of nothing. -/
theorem commit_apply (index : Nat) (s : Source) : (commit index s).2 = s ∨
    s.stream.locked = false ∧ s.stream.canReturnTo index = true ∧
      (commit index s).2 = { s with stream := s.stream.release index } := by
  cases hl : s.stream.locked with
  | true =>
      rw [commit, bind_of_locked hl]
      exact .inl rfl
  | false =>
      rw [commit, bind_of_unlocked hl, bind_apply, checkIndex_eq]
      cases s.stream.canReturnTo index with
      | false => exact .inl rfl
      | true =>
          by_cases ha : s.stream.anchor = some index
          · refine .inr ⟨rfl, rfl, ?_⟩
            exact if_pos ha
          · exact .inl (if_neg ha)

end Source

namespace Request

open Fallible Source

variable {s : Source}

/-- What a request does to a stream: moves, unless it is a commit that lets go
of items. -/
theorem run_cases (r : Request) (s : Source) :
    Relation.ReflTransGen Move s (r.run s).2 ∨
      ∃ index, s.stream.locked = false ∧ s.stream.canReturnTo index = true ∧
        (r.run s).2 = { s with stream := s.stream.release index } := by
  cases r with
  | next => exact .inl ((moving_next.bind fun _ => moving_pure _) s)
  | peek n => exact .inl (((moving_peek n).bind fun _ => moving_pure _) s)
  | lookingAt n kind value =>
      exact .inl (((moving_lookingAt n kind value).bind fun _ => moving_pure _) s)
  | eat kind value => exact .inl (((moving_eat kind value).bind fun _ => moving_pure _) s)
  | expect kind value => exact .inl (((moving_expect kind value).bind fun _ => moving_pure _) s)
  | savepoint => exact .inl ((moving_savepoint.bind fun _ => moving_pure _) s)
  | restore index => exact .inl (((moving_restore index).bind fun _ => moving_pure _) s)
  | isExhausted =>
      exact .inl ((((moving_peek 0).bind fun _ => moving_pure _).bind fun _ => moving_pure _) s)
  | collect => exact .inl ((moving_collect.bind fun _ => moving_pure _) s)
  | commit index =>
      have hstate : ((commit index).run s).2 = (Source.commit index s).2 := by
        rw [run, bind_apply]
        rcases Source.commit index s with ⟨e | u, t⟩ <;> rfl
      rw [hstate]
      rcases commit_apply index s with heq | ⟨hl, hi, heq⟩
      · rw [heq]
        exact .inl .refl
      · exact .inr ⟨index, hl, hi, heq⟩

/-- A stream that may only be looked at still waits after any request. -/
theorem shut_run (r : Request) (h : s.stream.Shut) :
    (r.run s).2.stream.Shut ∧ (r.run s).2.stream.discarded = s.stream.discarded := by
  rcases r.run_cases s with hmoves | ⟨index, hl, -⟩
  · exact shut_of_moves hmoves h
  · rw [h.locked] at hl
    cases hl

/-- A stream that may be read from is still so after any request, which lets go
of consumed items at most. -/
theorem opened_run (r : Request) (h : s.stream.Opened) :
    (r.run s).2.stream.Opened ∧
      (r.run s).2.stream.discarded ≤ s.stream.discarded + s.stream.behind.length := by
  rcases r.run_cases s with hmoves | ⟨index, -, hi, heq⟩
  · obtain ⟨hopened, hdiscarded⟩ := opened_of_moves hmoves h
    exact ⟨hopened, by omega⟩
  · obtain ⟨hu, hbehind, hahead, hunseen⟩ := h
    have hmost := (bounds_of_canReturnTo hi).2
    rw [heq]
    refine ⟨⟨hu, fun c hc => hbehind c (List.mem_of_mem_take hc), hahead, hunseen⟩, ?_⟩
    simp only [Cursor.release]
    rw [Cursor.position] at hmost
    omega

/-- What moves a stream fails on one that may only be looked at, and changes nothing. -/
theorem run_of_locked (h : s.stream.locked = true) {r : Request}
    (hr : r = .next ∨ r = .savepoint ∨ (∃ index, r = .restore index) ∨
      (∃ index, r = .commit index) ∨ r = .collect) :
    r.run s = (.error (.stream .locked), s) := by
  have hnext : Source.next s = (.error (.stream .locked), s) :=
    bind_of_error (bind_of_locked h)
  rcases hr with rfl | rfl | ⟨index, rfl⟩ | ⟨index, rfl⟩ | rfl
  · exact bind_of_error hnext
  · exact bind_of_error (bind_of_locked h)
  · exact bind_of_error (bind_of_locked h)
  · exact bind_of_error (bind_of_locked h)
  · have hcollect : Source.collect s = (.error (.stream .locked), s) :=
      bind_of_error (m := Source.next) hnext
    exact bind_of_error hcollect

end Request

end DualSql
