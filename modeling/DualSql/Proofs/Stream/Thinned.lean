import DualSql.Proofs.Grammar.Accepted
import DualSql.Proofs.Lexer.Trivia
import DualSql.Proofs.Stream.Twin

/-! # Streams of runs with and without trivia

The streams of two runs over the same text, one with trivia and one without,
are twins before they are read.

Main definition: `Queue.Thins`. Main result: `Source.twin_withoutTrivia`. -/

namespace DualSql

namespace Queue

open TokenTree

/-- The second queue is the first one with some trivia left out. -/
inductive Thins : Queue → Queue → Prop
  | nil : Thins [] []
  | keep (r : Except LexError Event) {q q' : Queue} (rest : Thins q q') : Thins (r :: q) (r :: q')
  | drop {t : Token} (trivia : t.kind.isTrivia = true) {q q' : Queue} (rest : Thins q q') :
      Thins (.ok (.token t) :: q) q'

/-- Two levels end at the same error, or in queues that differ in trivia. -/
inductive EndsAlike : Except LexError Queue → Except LexError Queue → Prop
  | error (e : LexError) : EndsAlike (.error e) (.error e)
  | ok {q q' : Queue} (rest : Thins q q') : EndsAlike (.ok q) (.ok q')

/-- Two spans with the same trees, trivia apart, that end alike. -/
structure SpansAlike (s s' : Span) : Prop where
  trees : essences s.trees = essences s'.trees
  ending : EndsAlike s.ending s'.ending

variable {last : Option LexError} {q q' : Queue}

theorem Thins.refl : (q : Queue) → Thins q q
  | [] => .nil
  | r :: q => .keep r (refl q)

theorem SpansAlike.cons (tree : TokenTree) {s s' : Span} (h : SpansAlike s s') :
    SpansAlike ⟨tree :: s.trees, s.ending⟩ ⟨tree :: s'.trees, s'.ending⟩ := by
  refine ⟨?_, h.ending⟩
  simp only [essences, h.trees]

/-- Blocks with the same contents, trivia apart, and what comes behind them. -/
theorem SpansAlike.enclosed {s s' : Span} (h : SpansAlike s s') (t : Token)
    (hmore : ∀ r r', s.ending = .ok r → Thins r r' → SpansAlike (level last r) (level last r')) :
    SpansAlike ((s.enclosed t).andThen (level last)) ((s'.enclosed t).andThen (level last)) := by
  obtain ⟨trees, ending⟩ := s
  obtain ⟨trees', ending'⟩ := s'
  obtain ⟨htrees, hending⟩ := h
  have hblock : (block t trees).essence = (block t trees').essence := by
    rw [essence, essence, htrees]
  cases hending with
  | error e =>
      refine ⟨?_, .error e⟩
      simp only [Span.enclosed, Span.andThen_error, essences, hblock]
      rfl
  | ok rest =>
      obtain ⟨hafter, hend⟩ := hmore _ _ rfl rest
      refine ⟨?_, hend⟩
      simp only [Span.enclosed, Span.andThen_ok, List.singleton_append, essences, hblock, hafter]
      rfl

/-- A level does not change, trivia apart, when trivia is left out. The
induction is on the number of events, since what follows a block is again a
level. -/
theorem Thins.level (h : Thins q q') : SpansAlike (level last q) (level last q') := by
  induction hlen : q.length using Nat.strong_induction_on generalizing q q' with
  | _ n ih =>
    cases h with
    | nil =>
        rw [level_nil]
        cases last with
        | none => exact ⟨rfl, .ok .nil⟩
        | some e => exact ⟨rfl, .error e⟩
    | @drop t trivia q q' rest =>
        obtain ⟨htrees, hending⟩ := ih q.length (by simp [← hlen]) rest rfl
        have hleaf : (leaf t).token.kind.isTrivia = true := trivia
        rw [level_token]
        exact ⟨(essences_cons_trivia hleaf).trans htrees, hending⟩
    | @keep r q q' rest =>
        have hshorter : q.length < n := by simp [← hlen]
        rcases r with e | t | ⟨b, position, spaceBefore⟩ | ⟨b, position⟩
        · rw [level_error, level_error]
          exact ⟨rfl, .error e⟩
        · rw [level_token, level_token]
          exact (ih q.length hshorter rest rfl).cons _
        · rw [level_opened, level_opened]
          refine (ih q.length hshorter rest rfl).enclosed _ fun r r' hr hthins => ?_
          have hlength := size_level_le last q
          simp only [Span.size, hr, Except.toOption, Option.elim] at hlength
          exact ih r.length (by omega) hthins rfl
        · rw [level_closed, level_closed]
          exact ⟨rfl, .ok rest⟩

theorem thins_filter (events : List Event) (tail : Queue) :
    Thins (events.map .ok ++ tail) ((events.filter Event.isSignificant).map .ok ++ tail) := by
  induction events with
  | nil => exact .refl tail
  | cons e events ih =>
      cases he : e.isSignificant with
      | true =>
          rw [List.filter_cons_of_pos he]
          exact .keep _ ih
      | false =>
          rw [List.filter_cons_of_neg (by simp [he])]
          cases e with
          | token t => exact .drop (by simpa [Event.isSignificant, Token.isSignificant] using he) ih
          | opened b position spaceBefore => cases he
          | closed b position => cases he

theorem marked_events (mark : Token) (depth : Nat) (events : List Event) (q : Queue) :
    marked mark depth last (events.map .ok ++ q) = events.map .ok ++ marked mark depth last q := by
  induction events with
  | nil => rfl
  | cons e events ih => exact congrArg (List.cons _) ih

theorem fault_events (events : List Event) (q : Queue) :
    fault last (events.map .ok ++ q) = fault last q := by
  induction events with
  | nil => rfl
  | cons e events ih => exact ih

end Queue

namespace Feed

theorem weightOf_events (events : List Event) (q : Queue) :
    weightOf (events.map .ok ++ q) = (events.map Event.weight).sum + weightOf q := by
  induction events with
  | nil => simp
  | cons e events ih =>
      simp only [List.map_cons, List.cons_append, weightOf, ih, List.sum_cons, Nat.add_assoc]

/-- Trivia has no weight. -/
theorem weight_filter (events : List Event) :
    ((events.filter Event.isSignificant).map Event.weight).sum =
      (events.map Event.weight).sum := by
  induction events with
  | nil => rfl
  | cons e events ih =>
      cases he : e.isSignificant with
      | true => rw [List.filter_cons_of_pos he, List.map_cons, List.map_cons, List.sum_cons, ih,
          List.sum_cons]
      | false =>
          have hzero : e.weight = 0 := by
            cases e with
            | token t =>
                have htrivia : t.kind.isTrivia = true := by
                  simpa [Event.isSignificant, Token.isSignificant] using he
                rw [Event.weight, if_pos htrivia]
            | opened b position spaceBefore => cases he
            | closed b position => cases he
          rw [List.filter_cons_of_neg (by simp [he]), ih, List.map_cons, List.sum_cons, hzero,
            Nat.zero_add]

/-- A run is drawn event by event, up to the error if there is one. -/
theorem ofChunks_eq (d : Dialect) (options : LexOptions) (chunks : List String) :
    ∃ tail, ofChunks d options chunks =
        ⟨(lexEvents d options chunks).1.map .ok ++ tail, (lexEvents d options chunks).2⟩ ∧
      ((lexEvents d options chunks).2 = none ∧ tail = [] ∨
        ∃ e more, (lexEvents d options chunks).2 = some e ∧ tail = .error e :: more) := by
  cases hend : (lexEvents d options chunks).2 with
  | none => exact ⟨[], by rw [ofChunks_of_ended hend, List.append_nil], .inl ⟨rfl, rfl⟩⟩
  | some e =>
      obtain ⟨more, hfeed⟩ := ofChunks_of_failed hend
      exact ⟨.error e :: more, hfeed, .inr ⟨e, more, rfl, rfl⟩⟩

end Feed

namespace Source

open TokenTree

variable (d : Dialect) (options : LexOptions) (chunks : List String)

theorem sound_ofChunks : (ofChunks d options chunks).Sound :=
  ⟨ready_ofChunks d options chunks, rfl, Stream.retained_lexing⟩

theorem fault_ofChunks : (ofChunks d options chunks).fault = (lexEvents d options chunks).2 := by
  obtain ⟨tail, hfeed, ⟨hend, rfl⟩ | ⟨e, more, hend, rfl⟩⟩ := Feed.ofChunks_eq d options chunks
  all_goals
    change Queue.fault (Feed.ofChunks d options chunks).last (Feed.ofChunks d options chunks).queue = _
    rw [hfeed, Queue.fault_events, hend]
    rfl

/-- What the stream of a text gives, in terms of its events. -/
theorem outlook_ofChunks (mark : Token) (depth : Nat) :
    (ofChunks d options chunks).outlook mark depth =
      (Queue.level none ((lexEvents d options chunks).1.map .ok ++
        (if (lexEvents d options chunks).2.isSome then Queue.closing mark depth else []))).trees := by
  have hline : (ofChunks d options chunks).outlook mark depth =
      (Queue.level none (Queue.marked mark depth (Feed.ofChunks d options chunks).last
        (Feed.ofChunks d options chunks).queue)).trees := by
    rw [outlook, upcoming, line, Stream.line_eq]
    rfl
  rw [hline]
  obtain ⟨tail, hfeed, ⟨hend, rfl⟩ | ⟨e, more, hend, rfl⟩⟩ := Feed.ofChunks_eq d options chunks
  all_goals
    rw [hfeed, Queue.marked_events, hend]
    rfl

theorem weight_ofChunks : (ofChunks d options chunks).weight =
    ((lexEvents d options chunks).1.map Event.weight).sum := by
  change Feed.weightOf (Feed.ofChunks d options chunks).queue + 0 = _
  obtain ⟨tail, hfeed, ⟨-, rfl⟩ | ⟨e, more, -, rfl⟩⟩ := Feed.ofChunks_eq d options chunks
  all_goals
    rw [hfeed, Feed.weightOf_events]
    rfl

/-- The streams of a text with and without trivia are twins. -/
theorem twin_withoutTrivia :
    (ofChunks d options chunks).Twin (ofChunks d options.withoutTrivia chunks) := by
  have hevents := lexEvents_withoutTrivia d options chunks
  refine ⟨sound_ofChunks .., sound_ofChunks .., ?_, fun mark depth _ => ?_⟩
  · rw [fault_ofChunks, fault_ofChunks, hevents]
  · rw [outlook_ofChunks, outlook_ofChunks, hevents]
    exact (Queue.thins_filter _ _).level.trees.symm

theorem weight_withoutTrivia : (ofChunks d options.withoutTrivia chunks).weight =
    (ofChunks d options chunks).weight := by
  rw [weight_ofChunks, weight_ofChunks, lexEvents_withoutTrivia, Feed.weight_filter]

end Source

end DualSql
