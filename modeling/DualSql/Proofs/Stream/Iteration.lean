import DualSql.Proofs.Grammar.Accepted
import DualSql.Proofs.Stream.Latches

/-! # What an iterator answers

An iterator over the outermost level of a text answers a call with the next
token of the level, the error of the run, or nothing. An event inside an open
block is taken into the block and answers nothing by itself. An error that is
met inside an open block ends that block but not the levels around it, which
lose sight of their blocks: the words that were still waiting when the error
arose follow as tokens of the outermost level, then the same error once more.
Only an error that is met outside every block ends the iteration.

Main definitions: `Source.answer`, the answer to one of the calls, and
`Queue.answers`, all answers in terms of the events. Main results:
`Source.answer_eq`, the two are the same, and `Source.answers_behind_error`,
what can follow an error. -/

namespace DualSql

namespace Event

/-- The token that an event adds to its level. A closing bracket adds none. -/
def added? : Event → Option Token
  | token t => some t
  | opened b position spaceBefore => some (Token.ofBracket b position spaceBefore)
  | closed .. => none

/-- How many blocks are open behind an event, given how many were open before. -/
def blocksAfter (depth : Nat) : Event → Nat
  | token _ => depth
  | opened .. => depth + 1
  | closed .. => depth - 1

/-- How many blocks are open behind some events, given how many were open
before. There is no answer if an event closes the level around them all. -/
def blocks : Nat → List Event → Option Nat
  | depth, [] => some depth
  | 0, e :: rest => e.added?.bind fun _ => blocks (e.blocksAfter 0) rest
  | depth + 1, e :: rest => blocks (e.blocksAfter (depth + 1)) rest

/-- The tokens that some events add to the outermost level, given how many
blocks are open before them. -/
def outermost : Nat → List Event → List Token
  | _, [] => []
  | 0, e :: rest => e.added?.elim [] fun t => t :: outermost (e.blocksAfter 0) rest
  | depth + 1, e :: rest => outermost (e.blocksAfter (depth + 1)) rest

end Event

namespace Queue

/-- What the calls to an iterator answer, given how many blocks are open. -/
def answers (last : Option LexError) : Nat → Queue → List (Except LexError Token)
  | 0, [] => last.toList.map .error
  | _ + 1, [] => (last.toList ++ last.toList).map .error
  | 0, .error e :: _ => [.error e]
  | _ + 1, .error e :: rest => .error e :: answers last 0 rest
  | 0, .ok e :: rest => e.added?.elim [] fun t => .ok t :: answers last (e.blocksAfter 0) rest
  | depth + 1, .ok e :: rest => answers last (e.blocksAfter (depth + 1)) rest

/-- What the calls answer from an error on, given which words wait at the error and
how many blocks are open. -/
def failing (e : LexError) (words : List Token) : Nat → List (Except LexError Token)
  | 0 => [.error e]
  | _ + 1 => .error e :: (words.map .ok ++ [.error e])

variable {last : Option LexError}

/-- Events are answered by the tokens that they add to the outermost level. -/
theorem answers_events (depth : Nat) (events : List Event) (q : Queue) :
    answers last depth (events.map .ok ++ q) =
      (Event.outermost depth events).map .ok ++
        (Event.blocks depth events).elim [] (answers last · q) := by
  induction events generalizing depth with
  | nil => cases depth <;> rfl
  | cons e events ih =>
      cases depth with
      | succ depth => exact ih _
      | zero =>
          simp only [List.map_cons, List.cons_append, answers, Event.outermost, Event.blocks, ih]
          cases e.added? <;> rfl

/-- Words that are still waiting at an error are answered before the error is
answered again. -/
theorem answers_words (e : LexError) (words : List Token) :
    answers (some e) 0 (words.map fun t => .ok (.token t)) = words.map .ok ++ [.error e] := by
  induction words with
  | nil => rfl
  | cons t words ih => exact congrArg (.ok t :: ·) ih

theorem answers_failure (e : LexError) (words : List Token) (depth : Nat) :
    answers (some e) depth (.error e :: words.map fun t => .ok (.token t)) =
      failing e words depth := by
  cases depth with
  | zero => rfl
  | succ depth => rw [answers, answers_words, failing]

end Queue

/-! ### The words that wait when a run fails -/

namespace Scanner

variable {s s' : Scanner} {e : LexError}

/-- When a scanner fails, only words are ready. -/
theorem ready_of_failed (h : s.next = (.failed e, s')) :
    ∃ words : List Token, s'.ready = words.map .token := by
  fun_induction next s with
  | case1 s hidle _ _ =>
      obtain ⟨hready, -⟩ : s.ready = [] ∧ s.finished = false := by simpa using hidle
      unfold finish at h
      dsimp only at h
      split at h
      next =>
        cases h
        exact ⟨(Phrase.settle s.dialect true s.words).1, by simp [flush, hready]⟩
      next =>
        unfold pop at h
        split at h <;> cases h
  | case2 => cases h
  | case3 => cases h
  | case4 s hidle _ _ _ _ _ =>
      obtain ⟨hready, -⟩ : s.ready = [] ∧ s.finished = false := by simpa using hidle
      cases h
      exact ⟨[], hready⟩
  | case5 s hidle _ _ _ _ _ _ _ _ =>
      obtain ⟨hready, -⟩ : s.ready = [] ∧ s.finished = false := by simpa using hidle
      cases h
      exact ⟨[], hready⟩
  | case6 s _ _ _ _ _ _ _ _ _ ih => exact ih h
  | case7 s _ =>
      unfold pop at h
      split at h <;> cases h

theorem ready_of_pull_failed {chunks rest : List String}
    (h : s.pull chunks = (.failed e, s', rest)) :
    ∃ words : List Token, s'.ready = words.map .token := by
  induction chunks generalizing s with
  | nil =>
      unfold pull at h
      split at h
      next t ht =>
        obtain ⟨ha, rfl, -⟩ : t.close.next.1 = .failed e ∧ t.close.next.2 = s' ∧ _ := by
          simpa using h
        exact ready_of_failed (Prod.ext ha rfl)
      next a t _ ht =>
        obtain ⟨rfl, rfl, -⟩ : a = .failed e ∧ t = s' ∧ _ := by simpa using h
        exact ready_of_failed ht
  | cons chunk chunks ih =>
      unfold pull at h
      split at h
      next t ht => exact ih h
      next a t _ ht =>
        obtain ⟨rfl, rfl, -⟩ : a = .failed e ∧ t = s' ∧ _ := by simpa using h
        exact ready_of_failed ht

theorem ready_of_run_failed {chunks : List String} {events : List Event}
    (h : s.run chunks = (events, .failed e, s')) :
    ∃ words : List Token, s'.ready = words.map .token := by
  fun_induction run s chunks generalizing events with
  | case1 s chunks event t rest hpull events' answer last hrun ih =>
      obtain ⟨rfl, rfl⟩ : answer = .failed e ∧ last = s' := by
        have hrest := congrArg Prod.snd h
        simpa using hrest
      exact ih hrun
  | case2 s chunks answer t rest hne hpull =>
      obtain ⟨rfl, rfl⟩ : answer = .failed e ∧ t = s' := by
        have hrest := congrArg Prod.snd h
        simpa using hrest
      exact ready_of_pull_failed hpull

end Scanner

/-- A run that fails is drawn event by event up to the error, and behind it come
the words that were waiting. -/
theorem Feed.exists_words {d : Dialect} {options : LexOptions} {chunks : List String}
    {e : LexError} (h : (lexEvents d options chunks).2 = some e) :
    ∃ words : List Token, ofChunks d options chunks =
      ⟨(lexEvents d options chunks).1.map .ok ++ .error e :: words.map fun t => .ok (.token t),
        some e⟩ := by
  unfold lexEvents at h ⊢
  unfold ofChunks
  dsimp only
  split at h
  next events e' last hrun =>
    cases h
    obtain ⟨words, hready⟩ := Scanner.ready_of_run_failed hrun
    refine ⟨words, ?_⟩
    rw [hready, List.map_map]
    rfl
  next => cases h

/-! ### Blocks that are still being filled -/

namespace Stream

variable {s : Stream} {last : Option LexError} {q : Queue}

/-- The number of blocks that the run is still inside of. -/
def openBlocks (s : Stream) : Nat :=
  match _open : s.openBlock? with
  | none => 0
  | some (_, c) => if c.isFinished then 0 else c.openBlocks + 1
termination_by sizeOf s
decreasing_by exact sizeOf_openBlock_lt _open

theorem openBlocks_of_none (h : s.openBlock? = none) : s.openBlocks = 0 := by
  rw [openBlocks]
  split
  next => rfl
  next t c hsome => simp [h] at hsome

theorem openBlocks_of_some {t : Token} {x : Stream} (h : s.openBlock? = some (t, x)) :
    s.openBlocks = if x.isFinished then 0 else x.openBlocks + 1 := by
  rw [openBlocks]
  split
  next hnone => simp [h] at hnone
  next t' c hsome =>
    obtain ⟨rfl, rfl⟩ : t' = t ∧ c = x := by simpa [h, eq_comm] using hsome
    rfl

theorem length_setLast {α : Type} (item : α) (l : List α) : (setLast item l).length = l.length := by
  induction l using setLast.induct with
  | case1 => rfl
  | case2 => rfl
  | case3 a b rest ih => exact congrArg (· + 1) ih

@[simp] theorem length_ahead_setLatest (c : Cell) :
    (s.setLatest c).ahead.length = s.ahead.length := by
  unfold setLatest
  split
  next => rfl
  next => exact length_setLast c s.ahead

/-- Outside every block a stream takes an event, or an error, at its own level. -/
theorem exists_here (h : s.openBlocks = 0) :
    ∃ s₀ : Stream, (∀ e, s.absorb e = s₀.absorbHere e) ∧ s.fail = s₀.finishHere false ∧
      s₀.ahead.length = s.ahead.length ∧ s₀.done = s.done := by
  cases ho : s.openBlock? with
  | none => exact ⟨s, fun e => absorb_of_none e ho, fail_of_none ho, rfl, rfl⟩
  | some b =>
      have hfin : b.2.isFinished = true := by
        rw [openBlocks_of_some ho] at h
        by_contra hfin
        rw [if_neg hfin] at h
        cases h
      refine ⟨s.setLatest (.block b.1 { b.2 with done := true }), fun e => ?_, ?_,
        length_ahead_setLatest _, done_setLatest _⟩
      · rw [absorb_of_some e ho, if_pos hfin]
      · rw [fail_of_some ho, if_pos hfin]

/-- Inside a block a stream hands an event, or an error, on to the block. -/
theorem exists_open {n : Nat} (h : s.openBlocks = n + 1) :
    ∃ t x, s.openBlock? = some (t, x) ∧ x.openBlocks = n ∧
      (∀ e, s.absorb e = s.setLatest (.block t (x.absorb e))) ∧
      s.fail = { s.setLatest (.block t x.fail) with supply := .lexed false false } := by
  cases ho : s.openBlock? with
  | none =>
      rw [openBlocks_of_none ho] at h
      cases h
  | some b =>
      rw [openBlocks_of_some ho] at h
      by_cases hfin : b.2.isFinished = true
      · rw [if_pos hfin] at h
        cases h
      · rw [if_neg hfin] at h
        refine ⟨b.1, b.2, rfl, by simpa using h, fun e => ?_, ?_⟩
        · rw [absorb_of_some e ho, if_neg hfin]
        · rw [fail_of_some ho, if_neg hfin]

/-- An event finishes a level exactly if it closes it. -/
theorem isFinished_absorb (e : Event) :
    (s.absorb e).isFinished = (s.openBlocks == 0 && e.added?.isNone) := by
  cases h : s.openBlocks with
  | zero =>
      obtain ⟨s₀, habsorb, -⟩ := exists_here h
      rw [habsorb]
      cases e <;> rfl
  | succ n =>
      obtain ⟨t, x, ho, -, habsorb, -⟩ := exists_open h
      rw [habsorb, isFinished, supply_setLatest, (openBlock?_eq_some.1 ho).1]
      rfl

/-- Drawing an event opens or closes a block as the event says. -/
theorem openBlocks_absorb (e : Event) : (s.absorb e).openBlocks = e.blocksAfter s.openBlocks := by
  generalize hn : s.openBlocks = n
  induction n generalizing s with
  | zero =>
      obtain ⟨s₀, habsorb, -⟩ := exists_here hn
      rw [habsorb]
      cases e with
      | token t => exact openBlocks_of_none rfl
      | opened b position spaceBefore =>
          rw [openBlocks_of_some (openBlock?_absorbHere_opened b position spaceBefore)]
          exact congrArg (· + 1) (openBlocks_of_none rfl)
      | closed b position => exact openBlocks_of_none rfl
  | succ n ih =>
      obtain ⟨t, x, ho, hx, habsorb, -⟩ := exists_open hn
      rw [habsorb, openBlocks_of_some (openBlock?_setLatest ho), isFinished_absorb, ih hx, hx]
      cases e <;> cases n <;> simp [Event.added?, Event.blocksAfter]

/-- An error ends the level exactly if it is met outside every block. -/
theorem isFinished_fail : s.fail.isFinished = (s.openBlocks == 0) := by
  cases h : s.openBlocks with
  | zero =>
      obtain ⟨s₀, -, hfail, -⟩ := exists_here h
      rw [hfail]
      rfl
  | succ n =>
      obtain ⟨t, x, -, -, -, hfail⟩ := exists_open h
      rw [hfail]
      rfl

/-- Behind an error no block is open. -/
theorem openBlocks_fail : s.fail.openBlocks = 0 := by
  cases h : s.openBlocks with
  | zero =>
      obtain ⟨s₀, -, hfail, -⟩ := exists_here h
      rw [hfail]
      exact openBlocks_of_none rfl
  | succ n =>
      obtain ⟨t, x, -, -, -, hfail⟩ := exists_open h
      rw [hfail]
      exact openBlocks_of_none rfl

/-- A level that may still get items. -/
structure Live (s : Stream) : Prop where
  done : s.done = false
  unfinished : s.isFinished = false

/-- Outside every block an event adds its token to the level, or ends the level. -/
theorem known_absorb (e : Event) (h : s.openBlocks = 0) :
    (s.absorb e).ahead[s.ahead.length]?.map Cell.token = e.added? ∧
      (s.absorb e).done = (s.done || e.added?.isNone) := by
  obtain ⟨s₀, habsorb, -, hlength, hdone⟩ := exists_here h
  rw [habsorb, ← hlength, ← hdone]
  cases e with
  | token t => simp [absorbHere, append, Event.added?, Cell.setLocked, Cell.mapContents, Cell.token]
  | opened b position spaceBefore =>
      simp [absorbHere, append, Event.added?, Cell.setLocked, Cell.mapContents, Cell.token]
  | closed b position => simp [absorbHere, Event.added?]

/-- Inside a block an event adds nothing to the level. -/
theorem known_absorb_inside {n : Nat} (e : Event) (h : s.openBlocks = n + 1) :
    (s.absorb e).ahead.length = s.ahead.length ∧ (s.absorb e).done = s.done := by
  obtain ⟨t, x, -, -, habsorb, -⟩ := exists_open h
  rw [habsorb]
  exact ⟨length_ahead_setLatest _, done_setLatest _⟩

/-- A level that may still get items draws from the run. -/
theorem drawTo_live (h : s.Live) :
    s.drawTo s.ahead.length last q =
      match q with
      | [] =>
        match last with
        | none => (.ok (), s.conclude, [])
        | some e => (.error e, s.fail, [])
      | .ok e :: rest => (s.absorb e).drawTo s.ahead.length last rest
      | .error e :: rest => (.error e, s.fail, rest) := by
  have hshow : ¬(s.done || (s.ahead[s.ahead.length]?).isSome) = true := by simp [h.done]
  have hfin : ¬s.isFinished = true := by simp [h.unfinished]
  rw [drawTo.eq_def]
  dsimp only
  rw [if_neg hshow, if_neg hfin]
  rfl

/-- Nothing is drawn when an item is known or none can come. -/
theorem drawTo_settled {count : Nat} (h : s.done = true ∨ (s.ahead[count]?).isSome = true) :
    s.drawTo count last q = (.ok (), s, q) := by
  have hshow : (s.done || (s.ahead[count]?).isSome) = true := by simpa using h
  rw [drawTo.eq_def]
  dsimp only
  rw [if_pos hshow]

/-- A level that the run has nothing more for is done as soon as an item is wanted. -/
theorem drawTo_finished (h : s.done = false) (hfin : s.isFinished = true) :
    s.drawTo s.ahead.length last q = (.ok (), { s with done := true }, q) := by
  have hshow : ¬(s.done || (s.ahead[s.ahead.length]?).isSome) = true := by simp [h]
  rw [drawTo.eq_def]
  dsimp only
  rw [if_neg hshow, if_pos hfin]

theorem length_conclude : s.conclude.ahead.length = s.ahead.length := by
  rw [conclude]
  split
  next => rfl
  next => simp [finishHere]

theorem Live.absorb (h : s.Live) {e : Event} (hadds : s.openBlocks ≠ 0 ∨ e.added? ≠ none) :
    (s.absorb e).Live := by
  cases hblocks : s.openBlocks with
  | zero =>
      have hsome : e.added?.isNone = false := by
        simpa [Option.isNone_eq_false_iff, Option.isSome_iff_ne_none, hblocks] using hadds
      constructor
      · rw [(known_absorb e hblocks).2, h.done, hsome]
        rfl
      · rw [isFinished_absorb, hsome, Bool.and_false]
  | succ n =>
      constructor
      · rw [(known_absorb_inside e hblocks).2, h.done]
      · rw [isFinished_absorb, hblocks]
        rfl

/-- An error inside a block leaves the level around it alive. -/
theorem Live.fail (h : s.Live) {n : Nat} (hblocks : s.openBlocks = n + 1) : s.fail.Live := by
  obtain ⟨t, x, -, -, -, hfail⟩ := exists_open hblocks
  constructor
  · rw [hfail]
    exact (done_setLatest _).trans h.done
  · rw [isFinished_fail, hblocks]
    rfl

theorem not_live_fail (hblocks : s.openBlocks = 0) : ¬s.fail.Live := by
  intro live
  have hfin := live.unfinished
  rw [isFinished_fail, hblocks] at hfin
  cases hfin

end Stream

namespace Source

variable {s : Stream} {last : Option LexError} {q : Queue}

/-- The answer to a call, given how many calls come before it. -/
def answer : Nat → Source → Option (Except LexError Token)
  | 0, s => s.iterate.1
  | calls + 1, s => answer calls s.iterate.2

/-- A call that draws an item answers its token. -/
theorem iterate_of_draw {s : Source} {stream : Stream} {queue : Queue}
    (h : s.stream.drawTo s.stream.ahead.length s.feed.last s.feed.queue = (.ok (), stream, queue)) :
    s.iterate = ((stream.ahead[s.stream.ahead.length]?).map fun c => .ok c.token,
      ⟨stream, ⟨queue, s.feed.last⟩⟩) := by
  unfold iterate
  simp only [h]

/-- A call that draws an error answers it. -/
theorem iterate_of_failure {s : Source} {stream : Stream} {queue : Queue} {e : LexError}
    (h : s.stream.drawTo s.stream.ahead.length s.feed.last s.feed.queue =
      (.error e, stream, queue)) :
    s.iterate = (some (.error e), ⟨stream, ⟨queue, s.feed.last⟩⟩) := by
  unfold iterate
  simp only [h]

/-- A level that can get no more items answers nothing, and stays so. -/
theorem iterate_over {s : Source} (h : ¬s.stream.Live) :
    s.iterate.1 = none ∧ ¬s.iterate.2.stream.Live := by
  have hover : s.stream.done = true ∨ s.stream.isFinished = true := by
    by_contra hne
    simp only [not_or, Bool.not_eq_true] at hne
    exact h ⟨hne.1, hne.2⟩
  cases hdone : s.stream.done with
  | true =>
      rw [iterate_of_draw (Stream.drawTo_settled (.inl hdone))]
      exact ⟨by simp, h⟩
  | false =>
      have hfin : s.stream.isFinished = true := hover.resolve_left (by simp [hdone])
      rw [iterate_of_draw (Stream.drawTo_finished hdone hfin)]
      exact ⟨by simp, fun live => Bool.noConfusion live.done⟩

theorem answer_over {s : Source} (h : ¬s.stream.Live) (i : Nat) : s.answer i = none := by
  induction i generalizing s with
  | zero => exact (iterate_over h).1
  | succ i ih => exact ih (iterate_over h).2

/-- Outside every block an event is answered by the token that it adds. -/
theorem iterate_event (h : s.Live) (hblocks : s.openBlocks = 0) (e : Event) :
    iterate ⟨s, ⟨.ok e :: q, last⟩⟩ = (e.added?.map .ok, ⟨s.absorb e, ⟨q, last⟩⟩) := by
  obtain ⟨hadded, hdone⟩ := Stream.known_absorb e hblocks
  have hdraw : (s.absorb e).drawTo s.ahead.length last q = (.ok (), s.absorb e, q) := by
    apply Stream.drawTo_settled
    cases ha : e.added? with
    | none => exact .inl (by simp [hdone, ha])
    | some t =>
        rw [ha, Option.map_eq_some_iff] at hadded
        obtain ⟨c, hc, -⟩ := hadded
        exact .inr (by simp [hc])
  have hlive : s.drawTo s.ahead.length last (.ok e :: q) = (.ok (), s.absorb e, q) :=
    (Stream.drawTo_live h).trans hdraw
  rw [iterate_of_draw hlive, ← hadded, Option.map_map]
  rfl

/-- Inside a block an event is not answered. -/
theorem iterate_inside (h : s.Live) {n : Nat} (hblocks : s.openBlocks = n + 1) (e : Event) :
    iterate ⟨s, ⟨.ok e :: q, last⟩⟩ = iterate ⟨s.absorb e, ⟨q, last⟩⟩ := by
  have hlength : (s.absorb e).ahead.length = s.ahead.length :=
    (Stream.known_absorb_inside e hblocks).1
  unfold iterate
  simp only [Stream.drawTo_live h, hlength]

theorem iterate_error (h : s.Live) (e : LexError) :
    iterate ⟨s, ⟨.error e :: q, last⟩⟩ = (some (.error e), ⟨s.fail, ⟨q, last⟩⟩) :=
  iterate_of_failure (Stream.drawTo_live h)

theorem iterate_last (h : s.Live) (e : LexError) :
    iterate ⟨s, ⟨[], some e⟩⟩ = (some (.error e), ⟨s.fail, ⟨[], some e⟩⟩) :=
  iterate_of_failure (Stream.drawTo_live h)

theorem iterate_end (h : s.Live) :
    iterate ⟨s, ⟨[], none⟩⟩ = (none, ⟨s.conclude, ⟨[], none⟩⟩) := by
  rw [iterate_of_draw (Stream.drawTo_live h)]
  simp [Stream.length_conclude]

/-- The first call is answered, and the other calls go on from there. -/
theorem answer_cons {s s' : Source} {a : Except LexError Token}
    {rest : List (Except LexError Token)} (h : s.iterate = (some a, s'))
    (hrest : ∀ i, s'.answer i = rest[i]?) (i : Nat) : s.answer i = (a :: rest)[i]? := by
  cases i with
  | zero => simp [answer, h]
  | succ i => simpa [answer, h] using hrest i

/-- The first call is not answered, and the level gets nothing more. -/
theorem answer_none {s s' : Source} (h : s.iterate = (none, s')) (hover : ¬s'.stream.Live)
    (i : Nat) : s.answer i = none := by
  cases i with
  | zero => simp [answer, h]
  | succ i => simpa [answer, h] using answer_over hover i

/-- The end of the run is met once. An error at the end is met again if a block
was open. -/
theorem answer_last (h : s.Live) (i : Nat) :
    answer i ⟨s, ⟨[], last⟩⟩ = (Queue.answers last s.openBlocks [])[i]? := by
  cases last with
  | none =>
      rw [answer_none (iterate_end h) (fun live => Bool.noConfusion
        (Stream.done_conclude.symm.trans live.done)) i]
      cases s.openBlocks <;> rfl
  | some e =>
      have houtside {s : Stream} (h : s.Live) (hblocks : s.openBlocks = 0) (i : Nat) :
          answer i ⟨s, ⟨[], some e⟩⟩ = [Except.error e][i]? :=
        answer_cons (iterate_last h e) (fun i => answer_over (Stream.not_live_fail hblocks) i) i
      cases hblocks : s.openBlocks with
      | zero => exact houtside h hblocks i
      | succ n =>
          exact answer_cons (iterate_last h e)
            (houtside (h.fail hblocks) Stream.openBlocks_fail) i

/-- The calls to an iterator are answered as the events say. -/
theorem answer_eq (h : s.Live) (i : Nat) :
    answer i ⟨s, ⟨q, last⟩⟩ = (q.answers last s.openBlocks)[i]? := by
  induction q generalizing s i with
  | nil => exact answer_last h i
  | cons item q ih =>
      cases hblocks : s.openBlocks with
      | zero =>
          cases item with
          | error e =>
              exact answer_cons (iterate_error h e)
                (fun i => answer_over (Stream.not_live_fail hblocks) i) i
          | ok e =>
              have hstep : iterate ⟨s, ⟨.ok e :: q, last⟩⟩ =
                  (e.added?.map .ok, ⟨s.absorb e, ⟨q, last⟩⟩) := iterate_event h hblocks e
              cases hadded : e.added? with
              | none =>
                  have hover : ¬(s.absorb e).Live := by
                    intro live
                    have hfin := live.unfinished
                    rw [Stream.isFinished_absorb, hblocks, hadded] at hfin
                    cases hfin
                  rw [hadded] at hstep
                  rw [answer_none hstep hover, Queue.answers, hadded]
                  rfl
              | some t =>
                  have hlive : (s.absorb e).Live := h.absorb (.inr (by simp [hadded]))
                  rw [hadded] at hstep
                  rw [Queue.answers, hadded]
                  refine answer_cons hstep (fun i => ?_) i
                  rw [ih hlive, Stream.openBlocks_absorb, hblocks]
      | succ n =>
          cases item with
          | error e =>
              refine answer_cons (iterate_error h e) (fun i => ?_) i
              rw [ih (h.fail hblocks), Stream.openBlocks_fail]
          | ok e =>
              have hlive : (s.absorb e).Live := h.absorb (.inl (by simp [hblocks]))
              have hsame : answer i ⟨s, ⟨.ok e :: q, last⟩⟩ = answer i ⟨s.absorb e, ⟨q, last⟩⟩ := by
                cases i with
                | zero => exact congrArg Prod.fst (iterate_inside h hblocks e)
                | succ i => exact congrArg (answer i ·.2) (iterate_inside h hblocks e)
              rw [hsame, ih hlive, Stream.openBlocks_absorb, hblocks, Queue.answers]

variable (d : Dialect) (options : LexOptions) (chunks : List String)

/-- The calls to an iterator over a text are answered as its events say. -/
theorem answer_ofChunks (i : Nat) :
    (ofChunks d options chunks).answer i =
      (Queue.answers (Feed.ofChunks d options chunks).last 0
        (Feed.ofChunks d options chunks).queue)[i]? := by
  have hblocks : Stream.lexing.openBlocks = 0 := Stream.openBlocks_of_none rfl
  rw [← hblocks]
  exact answer_eq ⟨rfl, rfl⟩ i

/-- A run that ends is answered by the tokens of the outermost level. -/
theorem answer_of_ended (h : (lexEvents d options chunks).2 = none) (i : Nat) :
    (ofChunks d options chunks).answer i =
      ((Event.outermost 0 (lexEvents d options chunks).1).map Except.ok)[i]? := by
  have hqueue := @Queue.answers_events none 0 (lexEvents d options chunks).1 []
  rw [List.append_nil] at hqueue
  rw [answer_ofChunks, Feed.ofChunks_of_ended h, hqueue]
  cases Event.blocks 0 (lexEvents d options chunks).1 with
  | none => simp
  | some depth => cases depth <;> simp [Queue.answers]

/-- A run that fails is answered by the tokens of the outermost level and what
follows from the error on. -/
theorem answer_of_failed {e : LexError} (h : (lexEvents d options chunks).2 = some e) :
    ∃ words : List Token, ∀ i, (ofChunks d options chunks).answer i =
      ((Event.outermost 0 (lexEvents d options chunks).1).map .ok ++
        (Event.blocks 0 (lexEvents d options chunks).1).elim [] (Queue.failing e words))[i]? := by
  obtain ⟨words, hfeed⟩ := Feed.exists_words h
  refine ⟨words, fun i => ?_⟩
  rw [answer_ofChunks, hfeed, Queue.answers_events]
  simp only [Queue.answers_failure]

/-- An error among answers comes behind the tokens. -/
theorem exists_of_error {tokens : List Token} {rest : List (Except LexError Token)} {i : Nat}
    {e : LexError} (h : (tokens.map .ok ++ rest)[i]? = some (.error e)) :
    ∃ k, i = tokens.length + k ∧ rest[k]? = some (.error e) := by
  by_cases hlt : i < (tokens.map (Except.ok (ε := LexError))).length
  · rw [List.getElem?_append_left hlt] at h
    obtain ⟨t, -, ht⟩ := List.mem_map.1 (List.mem_of_getElem? h)
    cases ht
  · rw [List.getElem?_append_right (Nat.le_of_not_lt hlt), List.length_map] at h
    rw [List.length_map] at hlt
    exact ⟨i - tokens.length, by omega, h⟩

/-- What follows an error depends on whether it is the first and on whether a
block is open. -/
theorem failing_behind_error {e e' : LexError} {words : List Token} {depth k : Nat}
    (h : (Queue.failing e' words depth)[k]? = some (.error e)) :
    e' = e ∧ ((Queue.failing e' words depth).length = k + 1 ∨
      depth ≠ 0 ∧ (Queue.failing e' words depth).drop (k + 1) = words.map .ok ++ [.error e]) := by
  cases depth with
  | zero =>
      obtain ⟨rfl, rfl⟩ : k = 0 ∧ e' = e := by
        simpa [Queue.failing, List.getElem?_singleton] using h
      exact ⟨rfl, .inl rfl⟩
  | succ depth =>
      cases k with
      | zero =>
          obtain rfl : e' = e := by simpa [Queue.failing] using h
          exact ⟨rfl, .inr ⟨Nat.succ_ne_zero depth, rfl⟩⟩
      | succ k =>
          obtain ⟨k, rfl, hk⟩ := exists_of_error (i := k) h
          obtain ⟨rfl, rfl⟩ : k = 0 ∧ e' = e := by simpa [List.getElem?_singleton] using hk
          exact ⟨rfl, .inl (by simp [Queue.failing])⟩

/-- What follows an answer that is an error. The error is that of the run. Either
nothing follows, or a block was open when the run failed: then the words that
waited follow as tokens, and the same error once more. -/
theorem answers_behind_error {i : Nat} {e : LexError}
    (h : (ofChunks d options chunks).answer i = some (.error e)) :
    (lexEvents d options chunks).2 = some e ∧
      ((∀ j, i < j → (ofChunks d options chunks).answer j = none) ∨
        (∃ depth, Event.blocks 0 (lexEvents d options chunks).1 = some (depth + 1)) ∧
          ∃ words : List Token, ∀ k, (ofChunks d options chunks).answer (i + 1 + k) =
            (words.map .ok ++ [.error e])[k]?) := by
  cases hend : (lexEvents d options chunks).2 with
  | none =>
      rw [answer_of_ended d options chunks hend] at h
      obtain ⟨t, -, ht⟩ := List.mem_map.1 (List.mem_of_getElem? h)
      cases ht
  | some e' =>
      obtain ⟨words, hall⟩ := answer_of_failed d options chunks hend
      simp only [hall] at h ⊢
      obtain ⟨k, rfl, hk⟩ := exists_of_error h
      cases hblocks : Event.blocks 0 (lexEvents d options chunks).1 with
      | none =>
          rw [hblocks] at hk
          cases hk
      | some depth =>
          rw [hblocks] at hk
          obtain ⟨rfl, hlength | ⟨hopen, hdrop⟩⟩ := failing_behind_error hk
          · refine ⟨rfl, .inl fun j hj => List.getElem?_eq_none ?_⟩
            simp [hlength]
            omega
          · refine ⟨rfl, .inr ⟨⟨depth - 1, ?_⟩, words, fun m => ?_⟩⟩
            · rw [Nat.sub_add_cancel (Nat.pos_of_ne_zero hopen)]
            · rw [← hdrop, List.getElem?_drop, Option.elim_some, List.getElem?_append_right]
              · congr 1
                simp
                omega
              · simp
                omega

/-- An open bracket at the end is an error of the block, behind which the word that
waited comes out. -/
theorem answers_behind_error_group :
    let s := ofChunks .postgres (.ofDialect .postgres) ["(group"]
    s.answer 1 = some (.error (.unclosed '(' .start)) ∧
      ∃ words : List Token, ∀ k, s.answer (1 + 1 + k) =
        (words.map .ok ++ [.error (.unclosed '(' .start)])[k]? := by
  intro s
  have herror : s.answer 1 = some (.error (.unclosed '(' .start)) := by decide +kernel
  have hlater : s.answer 2 ≠ none := by decide +kernel
  obtain ⟨-, hnone | ⟨-, hwords⟩⟩ :=
    answers_behind_error .postgres (.ofDialect .postgres) ["(group"] herror
  · exact absurd (hnone 2 (by decide)) hlater
  · exact ⟨herror, hwords⟩

/-- An error need not end the iteration: a token may come behind it. -/
theorem token_behind_error :
    ¬∀ (d : Dialect) (options : LexOptions) (chunks : List String) (i j : Nat) (e : LexError),
      (ofChunks d options chunks).answer i = some (.error e) → i < j →
        (ofChunks d options chunks).answer j = none := by
  intro hstops
  have hnone := hstops .postgres (.ofDialect .postgres) ["(group"] 1 2 (.unclosed '(' .start)
    (by decide +kernel) (by decide)
  exact absurd hnone (by decide +kernel)

end Source

end DualSql
