import DualSql.Proofs.Stream.PlainCursor
import DualSql.Proofs.Stream.Retained

/-! # Reading up to a failure

A lexing run may fail while a stream is read. What the stream gives up to that
point can be told by reading a run that does not fail: in place of the error
every open level gets a token, the mark, and ends. A reader meets the error
exactly where it would come upon the mark, whatever token that is.

Main definitions: `Source.marked`, `Source.outlook` and `Source.Later`. Main
results: one for each operation, such as `Source.next_of_heads` and
`Source.skipTrivia_cases`.

## Implementation notes

The number of levels that are open at the error is not known in advance, so
the mark is put at `depth` levels, and what is said of an error holds from
some depth on. -/

namespace DualSql

namespace Queue

variable {last : Option LexError}

/-- The error at which a run fails, if it does. -/
def fault (last : Option LexError) : Queue → Option LexError
  | [] => last
  | .ok _ :: rest => fault last rest
  | .error e :: _ => some e

/-- A token and the end of the level, for each of several levels. -/
def closing (mark : Token) : Nat → Queue
  | 0 => []
  | depth + 1 => .ok (.token mark) :: .ok (.closed .paren .start) :: closing mark depth

/-- The run with the mark in place of its failure. -/
def marked (mark : Token) (depth : Nat) (last : Option LexError) : Queue → Queue
  | [] => if last.isSome then closing mark depth else []
  | .ok e :: rest => .ok e :: marked mark depth last rest
  | .error _ :: _ => closing mark depth

theorem level_closing (mark : Token) (depth : Nat) :
    level none (closing mark (depth + 1)) = ⟨[.leaf mark], .ok (closing mark depth)⟩ := by
  simp [closing]

end Queue

namespace Stream

variable {s s' : Stream} {count : Nat} {last : Option LexError} {q q' : Queue}

/-- What is drawn without an error is drawn from the marked run as well. -/
theorem drawTo_marked (mark : Token) (depth : Nat)
    (h : s.drawTo count last q = (.ok (), s', q')) :
    s.drawTo count none (q.marked mark depth last) = (.ok (), s', q'.marked mark depth last) ∧
      q'.fault last = q.fault last := by
  fun_induction drawTo count last q s with
  | case1 q s hshow =>
      obtain ⟨rfl, rfl⟩ : s = s' ∧ q = q' := by simpa using h
      refine ⟨?_, rfl⟩
      rw [drawTo.eq_def]
      dsimp only
      rw [if_pos hshow]
  | case2 q s hshow hfin =>
      obtain ⟨rfl, rfl⟩ : { s with done := true } = s' ∧ q = q' := by simpa using h
      refine ⟨?_, rfl⟩
      rw [drawTo.eq_def]
      dsimp only
      rw [if_neg hshow, if_pos hfin]
  | case3 s hshow hfin hlast =>
      obtain ⟨rfl, rfl⟩ : s.conclude = s' ∧ [] = q' := by simpa using h
      refine ⟨?_, rfl⟩
      subst hlast
      change s.drawTo count none [] = _
      rw [drawTo, if_neg hshow, if_neg hfin]
      rfl
  | case4 => simp at h
  | case5 s hshow hfin e rest ih =>
      obtain ⟨hdraw, hfault⟩ := ih h
      refine ⟨?_, hfault⟩
      rw [Queue.marked, drawTo, if_neg hshow, if_neg hfin]
      exact hdraw
  | case6 => simp at h

/-- Where a run has nothing more but marks, every open level gets one. -/
theorem line_closing (h : s.Tidy) (harr : s.isArriving = true) :
    ∃ below, ∀ depth mark, s.line none (Queue.closing mark (depth + below)) =
      ⟨s.trees none (Queue.closing mark (depth + below)) ++ [.leaf mark],
        .ok (Queue.closing mark depth)⟩ := by
  induction h with
  | @closed s consistent none cells =>
      refine ⟨1, fun depth mark => ?_⟩
      rw [line_eq, harr, none, if_pos rfl, Option.elim_none, Span.andThen_ok, Queue.level_closing]
  | @opened s consistent t x some lexed tidy cells ih =>
      have hending {depth : Nat} {mark : Token} {q : Queue}
          (hx : (x.line none q).ending = .ok (Queue.closing mark (depth + 1))) :
          s.line none q = ⟨s.trees none q ++ [.leaf mark], .ok (Queue.closing mark depth)⟩ := by
        rw [line_eq, harr, some, if_pos rfl, Option.elim_some, hx, Span.andThen_ok,
          Queue.level_closing]
      by_cases hx : x.isArriving = true
      · obtain ⟨below, hbelow⟩ := ih hx
        refine ⟨below + 1, fun depth mark => hending ?_⟩
        rw [show depth + (below + 1) = depth + 1 + below by omega, hbelow]
      · refine ⟨1, fun depth mark => hending ?_⟩
        rw [line_of_shut (by simpa using hx)]

/-- Where drawing meets an error, the marked run has the mark. -/
theorem drawTo_fails {e : LexError} (h : s.Tidy) (lexed : s.supply ≠ .given)
    (hd : s.drawTo count last q = (.error e, s', q')) :
    q.fault last = some e ∧ ∃ k ≤ count, ∃ below, ∀ depth mark,
      (s.line none (q.marked mark (depth + below) last)).trees[s.behind.length + k]? =
        some (.leaf mark) := by
  have hstop {s : Stream} {q : Queue} (h : s.Tidy) (lexed : s.supply ≠ .given)
      (hshow : ¬(s.done || (s.ahead[count]?).isSome) = true) (hfin : ¬s.isFinished = true)
      (hq : ∀ mark depth, q.marked mark depth last = Queue.closing mark depth) :
      ∃ k ≤ count, ∃ below, ∀ depth mark,
        (s.line none (q.marked mark (depth + below) last)).trees[s.behind.length + k]? =
          some (.leaf mark) := by
    have harr : s.isArriving = true := by simpa [isFinished_eq lexed] using hfin
    have hcount : s.ahead.length ≤ count := by
      simp only [Bool.or_eq_true, not_or, Option.not_isSome_iff_eq_none] at hshow
      exact List.getElem?_eq_none_iff.1 hshow.2
    obtain ⟨below, hbelow⟩ := line_closing h harr
    refine ⟨s.ahead.length, hcount, below, fun depth mark => ?_⟩
    have hlength : s.behind.length + s.ahead.length =
        (s.trees none (Queue.closing mark (depth + below))).length := by
      simp [length_trees, known, h.consistent.lexed lexed]
    rw [hq, hbelow, hlength, List.getElem?_concat_length]
  fun_induction drawTo count last q s with
  | case1 => simp at hd
  | case2 => simp at hd
  | case3 => simp at hd
  | case4 s hshow hfin e' hlast =>
      obtain ⟨rfl, -⟩ : e' = e ∧ _ := by simpa using hd
      subst hlast
      exact ⟨rfl, hstop h lexed hshow hfin fun _ _ => rfl⟩
  | case5 s hshow hfin e' rest ih =>
      have harr : s.isArriving = true := by simpa [isFinished_eq lexed] using hfin
      obtain ⟨hfault, k, hk, below, hbelow⟩ := ih (h.absorb e' harr) (lexed_absorb e' lexed) hd
      refine ⟨hfault, k, hk, below, fun depth mark => ?_⟩
      have hplace : (s.absorb e').behind.length = s.behind.length :=
        congrArg Place.consumed (place_absorb e')
      rw [Queue.marked, ← line_absorb e' h harr, ← hplace]
      exact hbelow depth mark
  | case6 s hshow hfin e' rest =>
      obtain ⟨rfl, -⟩ : e' = e ∧ _ := by simpa using hd
      exact ⟨rfl, hstop h lexed hshow hfin fun _ _ => rfl⟩

end Stream

namespace Source

open Fallible

/-- The source with the mark in place of the failure of its run. -/
def marked (s : Source) (mark : Token) (depth : Nat) : Source where
  stream := s.stream
  feed := { queue := Queue.marked mark depth s.feed.last s.feed.queue, last := none }

/-- The error at which the run of the source fails, if it does. -/
def fault (s : Source) : Option LexError :=
  Queue.fault s.feed.last s.feed.queue

/-- What the stream will give next, up to the mark. -/
def outlook (s : Source) (mark : Token) (depth : Nat) : List TokenTree :=
  (s.marked mark depth).upcoming

/-- A source that a reader has come to who gave up no positions. -/
structure Sound (s : Source) : Prop where
  ready : s.Ready
  unlocked : s.stream.locked = false
  retained : s.stream.Retained

/-- The second source is the first one after some reading in which the run did
not fail, at the same place or behind it. -/
structure Later (s s' : Source) : Prop where
  sound : s'.Sound
  keeps : ∀ mark depth, (s.marked mark depth).Keeps (s'.marked mark depth)
  fault : s'.fault = s.fault
  position : s.stream.position ≤ s'.stream.position

/-- The run fails where the item `k` places ahead would become known. -/
def FailsAt (s : Source) (k : Nat) (e : LexError) : Prop :=
  s.fault = some e ∧ ∃ below, ∀ depth mark,
    (s.outlook mark (depth + below))[k]? = some (.leaf mark)

/-- The token that comes next is the given one, wherever the run fails behind it. -/
def Heads (s : Source) (t : Option Token) : Prop :=
  ∀ mark depth, (s.outlook mark depth).head?.map TokenTree.token = t

variable {s s' s'' : Source} {n : Nat} {e : Error} {t : Token}

theorem Ready.marked (h : s.Ready) (mark : Token) (depth : Nat) : (s.marked mark depth).Ready :=
  ⟨h.tidy, h.orderly⟩

theorem Later.refl (h : s.Sound) : s.Later s :=
  ⟨h, fun mark depth => .refl (h.ready.marked mark depth), rfl, Nat.le_refl _⟩

theorem Later.trans (h : s.Later s') (h' : s'.Later s'') : s.Later s'' where
  sound := h'.sound
  keeps mark depth := (h.keeps mark depth).trans (h'.keeps mark depth)
  fault := h'.fault.trans h.fault
  position := Nat.le_trans h.position h'.position

/-- What comes next depends on the position alone. -/
theorem Later.outlook (h : s.Later s') (hp : s'.stream.position = s.stream.position)
    (mark : Token) (depth : Nat) : s'.outlook mark depth = s.outlook mark depth :=
  (h.keeps mark depth).upcoming hp

theorem Later.heads {t : Option Token} (h : s.Later s')
    (hp : s'.stream.position = s.stream.position) (ht : s.Heads t) : s'.Heads t := by
  intro mark depth
  rw [h.outlook hp]
  exact ht mark depth

/-! ### Filling -/

theorem fillTo_marked (mark : Token) (depth : Nat) (h : fillTo n s = (.ok (), s')) :
    fillTo n (s.marked mark depth) = (.ok (), s'.marked mark depth) ∧ s'.fault = s.fault := by
  simp only [fillTo, bind_eq_ok, get_eq_ok] at h ⊢
  obtain ⟨a, u, ⟨rfl, rfl⟩, h⟩ := h
  cases hs : s.stream.supply with
  | given =>
      simp only [hs, set_eq_ok] at h
      subst h
      refine ⟨⟨_, _, ⟨rfl, rfl⟩, ?_⟩, rfl⟩
      simp only [marked, hs, set_eq_ok]
  | lexed blockOpen finished =>
      simp only [hs, bind_eq_ok, set_eq_ok] at h
      obtain ⟨-, u, rfl, h⟩ := h
      rcases hd : s.stream.drawTo n s.feed.last s.feed.queue with ⟨l | ⟨⟩, stream, queue⟩
      · simp only [hd, throw_eq_ok] at h
      · simp only [hd, pure_eq_ok, true_and] at h
        subst h
        obtain ⟨hmarked, hfault⟩ := Stream.drawTo_marked mark depth hd
        refine ⟨⟨_, _, ⟨rfl, rfl⟩, ?_⟩, hfault⟩
        simp only [marked, hs, hmarked, bind_eq_ok, set_eq_ok, pure_eq_ok, true_and]
        exact ⟨⟨⟩, _, rfl, rfl⟩

theorem retained_fillTo (h : s.stream.Retained) (hf : fillTo n s = (.ok (), s')) :
    s'.stream.Retained := by
  simp only [fillTo, bind_eq_ok, get_eq_ok] at hf
  obtain ⟨a, u, ⟨rfl, rfl⟩, hf⟩ := hf
  cases hs : s.stream.supply with
  | given =>
      simp only [hs, set_eq_ok] at hf
      subst hf
      exact h.showTo n
  | lexed blockOpen finished =>
      simp only [hs, bind_eq_ok, set_eq_ok] at hf
      obtain ⟨-, u, rfl, hf⟩ := hf
      rcases hd : s.stream.drawTo n s.feed.last s.feed.queue with ⟨l | ⟨⟩, stream, queue⟩
      · simp only [hd, throw_eq_ok] at hf
      · simp only [hd, pure_eq_ok, true_and] at hf
        subst hf
        exact h.drawTo hd

theorem fillTo_later (h : s.Sound) (hf : fillTo n s = (.ok (), s')) :
    s.Later s' ∧ s'.stream.place = s.stream.place := by
  obtain ⟨keeps, place, -⟩ := fillTo_ok h.ready hf
  refine ⟨⟨⟨keeps.ready, keeps.locked.trans h.unlocked, retained_fillTo h.retained hf⟩,
    fun mark depth => ?_, ?_, Nat.le_of_eq (position_of_place place).symm⟩, place⟩
  · exact (fillTo_ok (h.ready.marked mark depth) (fillTo_marked mark depth hf).1).1
  · exact (fillTo_marked { kind := .keyword, value := "" } 0 hf).2

theorem fillTo_fails (h : s.Ready) (hf : fillTo n s = (.error e, s')) :
    ∃ l, e = .lex l ∧ ∃ k ≤ n, s.FailsAt k l := by
  simp only [fillTo, bind_eq_error, get_eq_error, get_eq_ok, false_or] at hf
  obtain ⟨a, u, ⟨rfl, rfl⟩, hf⟩ := hf
  cases hs : s.stream.supply with
  | given => simp only [hs, set_eq_error] at hf
  | lexed blockOpen finished =>
      have hlexed : s.stream.supply ≠ .given := by simp [hs]
      simp only [hs, bind_eq_error, set_eq_error, false_or] at hf
      obtain ⟨-, u, -, hf⟩ := hf
      rcases hd : s.stream.drawTo n s.feed.last s.feed.queue with ⟨l | ⟨⟩, stream, queue⟩
      · simp only [hd, throw_eq_error] at hf
        obtain ⟨hfault, k, hk, below, hbelow⟩ := Stream.drawTo_fails h.tidy hlexed hd
        refine ⟨l, hf.1.symm, k, hk, hfault, below, fun depth mark => ?_⟩
        rw [outlook, upcoming, List.getElem?_drop]
        exact hbelow depth mark
      · simp only [hd, pure_eq_error] at hf

/-- A look ahead that does not fail, as the filling that it takes. -/
theorem peek_of_fillTo (hf : fillTo n s = (.ok (), s')) :
    peek n s = (.ok (s'.stream.ahead[n]?.map Cell.token), s') := by
  simp only [peek, peekCell, bind_eq_ok, get_eq_ok, pure_eq_ok]
  exact ⟨_, s', ⟨⟨⟩, s', hf, s', s', ⟨rfl, rfl⟩, rfl, rfl⟩, rfl, rfl⟩

/-- Looking ahead gives what is upcoming there, or fails where the run does. -/
theorem peek_cases (h : s.Sound) (n : Nat) :
    (∃ o s', peek n s = (.ok o, s') ∧ s.Later s' ∧ s'.stream.position = s.stream.position ∧
        ∀ mark depth, o = (s.outlook mark depth)[n]?.map TokenTree.token) ∨
      ∃ l s', peek n s = (.error (.lex l), s') ∧ ∃ k ≤ n, s.FailsAt k l := by
  rcases hf : fillTo n s with ⟨e | ⟨⟩, s'⟩
  · obtain ⟨l, rfl, hfails⟩ := fillTo_fails h.ready hf
    refine .inr ⟨l, s', ?_, hfails⟩
    simp only [peek, peekCell, bind_eq_error, get_eq_error, pure_eq_error, and_false, exists_false,
      or_false]
    exact hf
  · obtain ⟨later, place⟩ := fillTo_later h hf
    refine .inl ⟨_, s', peek_of_fillTo hf, later, position_of_place place, fun mark depth => ?_⟩
    have hpeek := peek_of_fillTo (fillTo_marked mark depth hf).1
    exact (peek_ok (h.ready.marked mark depth) hpeek).2.2

/-- No token is every mark. -/
theorem exists_mark_ne (o : Option Token) : ∃ mark : Token,
    mark.kind.isTrivia = false ∧ o ≠ some mark := by
  by_cases h : o = some { kind := .keyword, value := "" }
  · exact ⟨{ kind := .identifier, value := "" }, rfl, by simp [h]⟩
  · exact ⟨{ kind := .keyword, value := "" }, rfl, h⟩

/-- Where the next token is known, the run does not fail before it. -/
theorem Heads.not_failsAt {o : Option Token} {l : LexError} (h : s.Heads o) : ¬s.FailsAt 0 l := by
  rintro ⟨-, below, hbelow⟩
  obtain ⟨mark, -, hne⟩ := exists_mark_ne o
  refine hne ?_
  rw [← h mark (0 + below), List.head?_eq_getElem?, hbelow]
  rfl

theorem peek_of_heads {o : Option Token} (h : s.Sound) (ho : s.Heads o) :
    ∃ s', peek 0 s = (.ok o, s') ∧ s.Later s' ∧ s'.stream.position = s.stream.position := by
  rcases peek_cases h 0 with ⟨o', s', hpeek, later, position, ho'⟩ | ⟨l, s', -, k, hk, hfails⟩
  · have heq := ho' { kind := .keyword, value := "" } 0
    rw [← List.head?_eq_getElem?, ho] at heq
    exact ⟨s', heq ▸ hpeek, later, position⟩
  · obtain rfl : k = 0 := Nat.le_zero.1 hk
    exact absurd hfails ho.not_failsAt

theorem isExhausted_of_heads {o : Option Token} (h : s.Sound) (ho : s.Heads o) :
    ∃ s', isExhausted s = (.ok o.isNone, s') ∧ s.Later s' ∧
      s'.stream.position = s.stream.position := by
  obtain ⟨s', hpeek, later, position⟩ := peek_of_heads h ho
  refine ⟨s', ?_, later, position⟩
  simp only [isExhausted, bind_eq_ok, pure_eq_ok]
  exact ⟨o, s', hpeek, rfl, rfl⟩

/-! ### Consuming -/

theorem sound_stepOver {c : Cell} {rest : List Cell} (h : s.Sound)
    (ha : s.stream.ahead = c :: rest) : (s.stepOver c rest).Sound := by
  refine ⟨(keeps_stepOver h.ready ha).ready, h.unlocked, h.retained.discarded, fun d hd => ?_⟩
  simp only [stepOver, Stream.known, List.reverse_cons, List.append_assoc, List.singleton_append,
    List.mem_append, List.mem_cons] at hd
  rcases hd with hd | (rfl | hd) | hd
  · exact h.retained.cells d (by simp [Stream.known, List.mem_reverse.1 hd])
  · exact (h.retained.cells c (by simp [Stream.known, ha])).setLocked false
  · exact h.retained.cells d (by simp [Stream.known, ha, hd])
  · exact h.retained.cells d (by simp [hd])

/-- The next item is consumed if its token is known. -/
theorem nextCell_of_heads (h : s.Sound) (ht : s.Heads (some t)) :
    ∃ c s' rest, nextCell s = (.ok (some c), s') ∧ s.Later s' ∧ c.token = t ∧
      s'.stream.behind = c :: rest ∧
      (∀ mark depth, s.outlook mark depth =
        (s'.marked mark depth).treeOf c :: s'.outlook mark depth) ∧
      ∀ x ∈ c.contents?, x.behind = [] ∧ x.locked = false := by
  rcases hf : fillTo 0 s with ⟨e | ⟨⟩, u⟩
  · obtain ⟨l, -, k, hk, hfails⟩ := fillTo_fails h.ready hf
    obtain rfl : k = 0 := Nat.le_zero.1 hk
    exact absurd hfails ht.not_failsAt
  · obtain ⟨later, place⟩ := fillTo_later h hf
    obtain ⟨s', hpeek, -⟩ := peek_of_heads h ht
    rw [peek_of_fillTo hf] at hpeek
    obtain ⟨hcell, rfl⟩ := Prod.mk.inj hpeek
    replace hcell := Except.ok.inj hcell
    cases ha : u.stream.ahead with
    | nil =>
        rw [ha] at hcell
        cases hcell
    | cons d rest =>
        have hd : d.token = t := by simpa [ha] using hcell
        have hnext (mark : Token) (depth : Nat) :=
          nextCell_some (h.ready.marked mark depth)
            (nextCell_of_fillTo (s := s.marked mark depth) h.unlocked
              (fillTo_marked mark depth hf).1 ha)
        have hstep : s.Later (u.stepOver d rest) := by
          refine ⟨sound_stepOver later.sound ha, fun mark depth => (hnext mark depth).1,
            later.fault, ?_⟩
          have hposition := (hnext t 0).2.1
          change (u.stepOver d rest).stream.position = s.stream.position + 1 at hposition
          omega
        refine ⟨d.setLocked false, u.stepOver d rest, u.stream.behind,
          nextCell_of_fillTo h.unlocked hf ha, hstep, ?_, rfl, fun mark depth => ?_, ?_⟩
        · rw [← hd]
          cases d <;> rfl
        · exact (hnext mark depth).2.2.1
        · exact (hnext t 0).2.2.2.2

/-- The next token is consumed if it is known. -/
theorem next_of_heads (h : s.Sound) (ht : s.Heads (some t)) :
    ∃ s', next s = (.ok (some t), s') ∧ s.Later s' ∧
      ∀ mark depth, s'.outlook mark depth = (s.outlook mark depth).tail := by
  obtain ⟨c, s', rest, hnext, later, htoken, -, houtlook, -⟩ := nextCell_of_heads h ht
  refine ⟨s', ?_, later, fun mark depth => ?_⟩
  · simp only [next, bind_eq_ok, pure_eq_ok]
    exact ⟨some c, s', hnext, by rw [Option.map_some, htoken], rfl⟩
  · rw [houtlook mark depth, List.tail_cons]

/-- At the end nothing is consumed. -/
theorem next_of_heads_none (h : s.Sound) (ht : s.Heads none) :
    ∃ s', next s = (.ok none, s') ∧ s.Later s' ∧ s'.stream.position = s.stream.position := by
  rcases hf : fillTo 0 s with ⟨e | ⟨⟩, u⟩
  · obtain ⟨l, -, k, hk, hfails⟩ := fillTo_fails h.ready hf
    obtain rfl : k = 0 := Nat.le_zero.1 hk
    exact absurd hfails ht.not_failsAt
  · obtain ⟨later, place⟩ := fillTo_later h hf
    obtain ⟨s', hpeek, -⟩ := peek_of_heads h ht
    rw [peek_of_fillTo hf] at hpeek
    have ha : u.stream.ahead = [] := by simpa using (Prod.mk.inj hpeek).1
    have hcell := nextCell_of_fillTo_nil h.unlocked hf ha
    have hnext (mark : Token) (depth : Nat) := nextCell_none (h.ready.marked mark depth)
      (nextCell_of_fillTo_nil (s := s.marked mark depth) h.unlocked (fillTo_marked mark depth hf).1 ha)
    refine ⟨{ u with stream := u.stream.step.2 }, ?_, ⟨⟨?_, ?_, ?_⟩, ?_, later.fault, ?_⟩, ?_⟩
    · rw [next, bind_of_ok hcell]
      rfl
    · exact (nextCell_none h.ready hcell).1.ready
    · exact (nextCell_none h.ready hcell).1.locked.trans h.unlocked
    · obtain ⟨discarded, cells⟩ := later.sound.retained
      simp only [Cursor.step, ha]
      exact ⟨discarded, by simpa only [Stream.known, ha] using cells⟩
    · exact fun mark depth => (hnext mark depth).1
    · exact Nat.le_of_eq (nextCell_none h.ready hcell).2.1.symm
    · exact (nextCell_none h.ready hcell).2.1

/-! ### Going back -/

/-- A position can be taken at any time. -/
theorem savepoint_of_sound (h : s.Sound) :
    ∃ s', savepoint s = (.ok s.stream.position, s') ∧ s.Later s' ∧
      s'.stream.position = s.stream.position := by
  refine ⟨{ s with stream := { s.stream with
    anchor := s.stream.anchor.or (some s.stream.position) } }, ?_, ?_, rfl⟩
  · rw [savepoint, bind_of_ok (checkUnlocked_total h.unlocked)]
    rfl
  · have alike : s.stream.Alike
        { s.stream with anchor := s.stream.anchor.or (some s.stream.position) } :=
      Stream.alike_of_known rfl rfl rfl (Stream.forall₂_refl s.stream.known)
    have horderly := h.ready.orderly
    have keeps {u : Source} (hu : u.Ready) (hstream : u.stream = s.stream) :
        u.Keeps { u with stream := { s.stream with
          anchor := s.stream.anchor.or (some s.stream.position) } } := by
      refine keeps_of_alike hu (hstream ▸ alike)
        ⟨horderly.behind, horderly.ahead, horderly.unseen⟩ ?_ ?_
      · rw [hstream]
      · rw [hstream]
    exact ⟨⟨(keeps h.ready rfl).ready, h.unlocked, h.retained.discarded, h.retained.cells⟩,
      fun mark depth => keeps (h.ready.marked mark depth) rfl, rfl, Nat.le_refl _⟩

theorem checkIndex_later (h : s.Later s') : checkIndex s.stream.position s' = (.ok (), s') := by
  have hreturn : s'.stream.canReturnTo s.stream.position = true := by
    simp [Cursor.canReturnTo, Cursor.leastPosition, h.sound.retained.discarded, h.position]
  rw [checkIndex_eq, hreturn]
  rfl

/-- A reader can return to where it was. -/
theorem restore_of_later (h : s.Later s') :
    ∃ s'', restore s.stream.position s' = (.ok (), s'') ∧ s.Later s'' ∧
      s''.stream.position = s.stream.position := by
  have alike : s'.stream.Alike (s'.stream.backUp Cell.rewound s.stream.position) :=
    Stream.alike_of_known rfl rfl rfl (known_backUp _ _)
  have horderly := orderly_backUp h.sound.ready.orderly s.stream.position
  have hposition : (s'.stream.backUp Cell.rewound s.stream.position).position =
      s.stream.position := by
    have hle := h.position
    simp only [Cursor.position, Cursor.backUp, List.length_drop,
      h.sound.retained.discarded] at hle ⊢
    omega
  refine ⟨{ s' with stream := s'.stream.backUp Cell.rewound s.stream.position }, ?_,
    ⟨⟨(keeps_of_alike h.sound.ready alike horderly rfl rfl).ready, h.sound.unlocked,
      h.sound.retained.backUp _⟩, fun mark depth => ?_, h.fault, Nat.le_of_eq hposition.symm⟩,
    hposition⟩
  · rw [restore, bind_of_ok (checkUnlocked_total h.sound.unlocked),
      bind_of_ok (checkIndex_later h)]
    rfl
  · exact (h.keeps mark depth).trans
      (keeps_of_alike (h.sound.ready.marked mark depth) alike horderly rfl rfl)

/-- Positions behind can be given up. -/
theorem commit_of_later (h : s.Later s') :
    ∃ s'', commit s.stream.position s' = (.ok (), s'') := by
  refine ⟨if s'.stream.anchor = some s.stream.position then
    { s' with stream := s'.stream.release s.stream.position } else s', ?_⟩
  rw [commit, bind_of_ok (checkUnlocked_total h.sound.unlocked), bind_of_ok (checkIndex_later h)]
  rfl

/-! ### Inside a block -/

/-- What is read inside a block is read further in the stream around it, which
does not move. -/
theorem Later.leave {x : Stream} {u : Source} {rest : List Cell} (h : s.Sound)
    (hb : s.stream.behind = .block t x :: rest) (hu : Later { s with stream := x } u) :
    s.Later { stream := { s.stream with behind := .block t u.stream :: rest }, feed := u.feed } := by
  have keeps (mark : Token) (depth : Nat) :=
    keeps_inside (h.ready.marked mark depth) hb (hu.keeps mark depth)
  refine ⟨⟨⟨(keeps t 0).ready.tidy, (keeps t 0).ready.orderly⟩, h.unlocked,
    h.retained.discarded, fun c hc => ?_⟩, keeps, hu.fault, ?_⟩
  · simp only [Stream.known, List.reverse_cons, List.append_assoc, List.singleton_append,
      List.mem_append, List.mem_cons, List.mem_reverse] at hc
    rcases hc with hc | (rfl | hc) | hc
    · exact h.retained.cells c (by simp [Stream.known, hb, hc])
    · exact Cell.retained_block_iff.2 hu.sound.retained
    · exact h.retained.cells c (by simp [Stream.known, hc])
    · exact h.retained.cells c (by simp [hc])
  · simp [Cursor.position, hb]

/-- The contents of the block that was consumed last can be read. -/
theorem Sound.contents {x : Stream} {rest : List Cell} (h : s.Sound)
    (hb : s.stream.behind = .block t x :: rest) (hunlocked : x.locked = false) :
    Sound { s with stream := x } :=
  ⟨ready_contents h.ready hb, hunlocked, Cell.retained_block_iff.1
    (h.retained.cells (.block t x) (by simp [Stream.known, hb]))⟩

/-! ### Whitespace and comments -/

/-- The run fails before the next token that is neither whitespace nor a comment. -/
def Blocked (s : Source) (e : LexError) : Prop :=
  s.fault = some e ∧ ∃ below, ∀ depth mark, mark.kind.isTrivia = false →
    (TokenTree.significant (s.outlook mark (depth + below))).head? = some (.leaf mark)

/-- The next token that is neither whitespace nor a comment, wherever the run
fails behind it. -/
def Shows (s : Source) (t : Option Token) : Prop :=
  ∀ mark depth, (TokenTree.significant (s.outlook mark depth)).head?.map TokenTree.token = t

theorem significant_cons_trivia {tree : TokenTree} {rest : List TokenTree}
    (h : tree.token.kind.isTrivia = true) :
    TokenTree.significant (tree :: rest) = TokenTree.significant rest :=
  List.dropWhile_cons_of_pos h

theorem significant_cons_content {tree : TokenTree} {rest : List TokenTree}
    (h : tree.token.kind.isTrivia = false) :
    TokenTree.significant (tree :: rest) = tree :: rest :=
  List.dropWhile_cons_of_neg (by simp [TokenTree.isTrivia, h])

/-- Trees that do not begin with trivia are significant. -/
theorem significant_of_head {trees : List TokenTree} {o : Option Token}
    (ho : trees.head?.map TokenTree.token = o) (hcontent : ¬o.any (·.kind.isTrivia) = true) :
    TokenTree.significant trees = trees := by
  cases trees with
  | nil => rfl
  | cons tree rest =>
      subst ho
      exact significant_cons_content (by simpa using hcontent)

/-- The first `n` trees that come next are whitespace and comments, as far as
there are so many. -/
def Passes (s : Source) (n : Nat) : Prop :=
  ∀ mark depth, ∀ tree ∈ (s.outlook mark depth).take n, tree.isTrivia = true

theorem passes_zero (s : Source) : s.Passes 0 :=
  fun _ _ _ htree => by simp at htree

theorem Passes.significant (h : s.Passes n) (mark : Token) (depth : Nat) :
    TokenTree.significant ((s.outlook mark depth).drop n) =
      TokenTree.significant (s.outlook mark depth) := by
  nth_rewrite 2 [← List.take_append_drop n (s.outlook mark depth)]
  exact (List.dropWhile_append_of_pos (h mark depth)).symm

/-- A run that fails behind trivia is blocked. -/
theorem FailsAt.blocked {k : Nat} {l : LexError} (h : s.FailsAt k l) (hp : s.Passes n)
    (hk : k ≤ n) : s.Blocked l := by
  obtain ⟨hfault, below, hbelow⟩ := h
  refine ⟨hfault, below, fun depth mark hmark => ?_⟩
  have hleaf : (TokenTree.leaf mark).token.kind.isTrivia = false := hmark
  obtain rfl : k = n := by
    refine Nat.le_antisymm hk (Nat.le_of_not_lt fun hlt => ?_)
    have hmem : TokenTree.leaf mark ∈ (s.outlook mark (depth + below)).take n :=
      List.mem_of_getElem? ((List.getElem?_take_of_lt hlt).trans (hbelow depth mark))
    have htrivia := hp mark (depth + below) _ hmem
    rw [TokenTree.isTrivia, hleaf] at htrivia
    cases htrivia
  have hhead : ((s.outlook mark (depth + below)).drop k).head? = some (.leaf mark) := by
    rw [List.head?_drop, hbelow]
  rw [← hp.significant, significant_of_head (congrArg (Option.map TokenTree.token) hhead) (by
    simpa using hleaf), hhead]

/-- What comes next is significant, or there is nothing. -/
theorem Heads.significant {o : Option Token} (ho : s.Heads o)
    (hcontent : ¬o.any (·.kind.isTrivia) = true) (mark : Token) (depth : Nat) :
    TokenTree.significant (s.outlook mark depth) = s.outlook mark depth :=
  significant_of_head (ho mark depth) hcontent

/-- After trivia the same is significant as before it. -/
theorem Heads.significant_tail (ht : s.Heads (some t)) (htrivia : t.kind.isTrivia = true)
    (mark : Token) (depth : Nat) :
    TokenTree.significant (s.outlook mark depth).tail =
      TokenTree.significant (s.outlook mark depth) := by
  have hhead := ht mark depth
  cases houtlook : s.outlook mark depth with
  | nil => rfl
  | cons tree rest =>
      have htoken : tree.token = t := by simpa [houtlook] using hhead
      exact (significant_cons_trivia (by rw [htoken]; exact htrivia)).symm

theorem Blocked.of_later {l : LexError} (h : s.Later s')
    (houtlook : ∀ mark depth, TokenTree.significant (s'.outlook mark depth) =
      TokenTree.significant (s.outlook mark depth)) (hb : s'.Blocked l) : s.Blocked l := by
  obtain ⟨hfault, below, hbelow⟩ := hb
  refine ⟨h.fault ▸ hfault, below, fun depth mark hmark => ?_⟩
  rw [← houtlook]
  exact hbelow depth mark hmark

/-- Skipping trivia leaves what is significant, or fails where the run does. -/
theorem skipTriviaUpTo_cases {fuel : Nat} (h : s.Sound) (hfuel : s.upcoming.length < fuel) :
    (∃ s', skipTriviaUpTo fuel s = (.ok (), s') ∧ s.Later s' ∧
        (∀ mark depth, s'.outlook mark depth = TokenTree.significant (s.outlook mark depth)) ∧
        ∃ o, s'.Heads o) ∨
      ∃ l s', skipTriviaUpTo fuel s = (.error (.lex l), s') ∧ s.Blocked l := by
  induction fuel generalizing s with
  | zero => exact absurd hfuel (Nat.not_lt_zero _)
  | succ fuel ih =>
      rw [skipTriviaUpTo]
      rcases peek_cases h 0 with ⟨o, u, hpeek, later, position, ho⟩ | ⟨l, u, hpeek, k, hk, hfails⟩
      · have hheads : s.Heads o := fun mark depth => by
          rw [List.head?_eq_getElem?, ← ho mark depth]
        have houtlook := later.outlook position
        rw [bind_of_ok hpeek]
        by_cases htrivia : o.any (·.kind.isTrivia) = true
        · rw [if_pos htrivia]
          obtain ⟨t, rfl⟩ : ∃ t, o = some t := by
            cases o with
            | none => cases htrivia
            | some t => exact ⟨t, rfl⟩
          obtain ⟨v, hnext, later', htail⟩ :=
            next_of_heads later.sound (later.heads position hheads)
          rw [bind_of_ok hnext]
          have hsignificant (mark : Token) (depth : Nat) :
              TokenTree.significant (v.outlook mark depth) =
                TokenTree.significant (s.outlook mark depth) := by
            rw [htail, houtlook]
            exact hheads.significant_tail htrivia mark depth
          have hshorter : v.upcoming.length < fuel := by
            obtain ⟨keeps, position, hfirst⟩ := peek_ok h.ready hpeek
            obtain ⟨-, -, -, hrest⟩ := next_ok later.sound.ready hnext
            rw [keeps.upcoming position] at hrest
            rw [hrest, List.length_tail]
            cases hup : s.upcoming with
            | nil =>
                rw [hup] at hfirst
                cases hfirst
            | cons tree rest =>
                rw [hup, List.length_cons] at hfuel
                simpa using hfuel
          rcases ih later'.sound hshorter with ⟨w, hskip, later'', hw, o', ho'⟩ | ⟨l, w, hskip, hb⟩
          · refine .inl ⟨w, hskip, (later.trans later').trans later'', fun mark depth => ?_, o', ho'⟩
            rw [hw, hsignificant]
          · exact .inr ⟨l, w, hskip, .of_later (later.trans later') hsignificant hb⟩
        · rw [if_neg htrivia]
          refine .inl ⟨u, rfl, later, fun mark depth => ?_, o, later.heads position hheads⟩
          rw [houtlook, hheads.significant htrivia]
      · obtain rfl : k = 0 := Nat.le_zero.1 hk
        exact .inr ⟨l, u, bind_of_error hpeek, hfails.blocked s.passes_zero (Nat.le_refl 0)⟩

/-- Skipping trivia leaves what is significant, or fails where the run does. -/
theorem skipTrivia_cases (h : s.Sound) :
    (∃ s', skipTrivia s = (.ok (), s') ∧ s.Later s' ∧
        (∀ mark depth, s'.outlook mark depth = TokenTree.significant (s.outlook mark depth)) ∧
        ∃ o, s'.Heads o) ∨
      ∃ l s', skipTrivia s = (.error (.lex l), s') ∧ s.Blocked l := by
  rw [skipTrivia]
  rcases peek_cases h 0 with ⟨o, u, hpeek, later, position, ho⟩ | ⟨l, u, hpeek, k, hk, hfails⟩
  · have hheads : s.Heads o := fun mark depth => by
      rw [List.head?_eq_getElem?, ← ho mark depth]
    have houtlook := later.outlook position
    rw [bind_of_ok hpeek]
    by_cases htrivia : o.any (·.kind.isTrivia) = true
    · rw [if_pos htrivia, bind_of_ok (get_eq_ok.2 ⟨rfl, rfl⟩)]
      have hfuel := Nat.lt_succ_of_le (length_upcoming_le later.sound.ready)
      rcases skipTriviaUpTo_cases later.sound hfuel with
        ⟨v, hskip, later', hv, hheads'⟩ | ⟨l, v, hskip, hb⟩
      · refine .inl ⟨v, hskip, later.trans later', fun mark depth => ?_, hheads'⟩
        rw [hv, houtlook]
      · exact .inr ⟨l, v, hskip, .of_later later (fun mark depth => by rw [houtlook]) hb⟩
    · rw [if_neg htrivia]
      refine .inl ⟨u, rfl, later, fun mark depth => ?_, o, later.heads position hheads⟩
      rw [houtlook, hheads.significant htrivia]
  · exact .inr ⟨l, u, bind_of_error hpeek, hfails.blocked s.passes_zero hk⟩

/-- Looking past trivia shows what is significant, or fails where the run does. -/
theorem peekPastTrivia_cases {fuel : Nat} (h : s.Sound) (hp : s.Passes n)
    (hn : n ≤ s.upcoming.length) (hfuel : s.upcoming.length < n + fuel) :
    (∃ o s', peekPastTrivia fuel n s = (.ok o, s') ∧ s.Later s' ∧
        s'.stream.position = s.stream.position ∧ s.Shows o) ∨
      ∃ l s', peekPastTrivia fuel n s = (.error (.lex l), s') ∧ s.Blocked l := by
  induction fuel generalizing s n with
  | zero => omega
  | succ fuel ih =>
      rw [peekPastTrivia]
      rcases peek_cases h n with ⟨o, u, hpeek, later, position, ho⟩ | ⟨l, u, hpeek, k, hk, hfails⟩
      · have houtlook := later.outlook position
        have hhead (mark : Token) (depth : Nat) :
            ((s.outlook mark depth).drop n).head?.map TokenTree.token = o := by
          rw [List.head?_drop, ← ho mark depth]
        have hshows (hcontent : ¬o.any (·.kind.isTrivia) = true) : s.Shows o := fun mark depth => by
          rw [← hp.significant, significant_of_head (hhead mark depth) hcontent, hhead]
        rw [bind_of_ok hpeek]
        cases o with
        | none => exact .inl ⟨none, u, rfl, later, position, hshows (by simp)⟩
        | some t =>
            dsimp only
            split
            next htrivia =>
              obtain ⟨keeps, position', hget⟩ := peek_ok h.ready hpeek
              have hup := keeps.upcoming position'
              have hlt : n < s.upcoming.length := by
                by_contra hge
                rw [List.getElem?_eq_none (Nat.le_of_not_lt hge)] at hget
                cases hget
              have hpasses : u.Passes (n + 1) := fun mark depth tree htree => by
                rw [houtlook, List.take_add_one, List.mem_append] at htree
                rcases htree with htree | htree
                · exact hp mark depth tree htree
                · have htoken := ho mark depth
                  rw [Option.mem_toList.1 htree] at htoken
                  obtain rfl : t = tree.token := by simpa using htoken
                  exact htrivia
              rcases ih later.sound hpasses (by rw [hup]; exact hlt) (by rw [hup]; omega) with
                ⟨o', v, hpast, later', position'', hshows'⟩ | ⟨l, v, hpast, hb⟩
              · refine .inl ⟨o', v, hpast, later.trans later', position''.trans position,
                  fun mark depth => ?_⟩
                rw [← houtlook]
                exact hshows' mark depth
              · exact .inr ⟨l, v, hpast, .of_later later (fun mark depth => by rw [houtlook]) hb⟩
            next hcontent =>
              exact .inl ⟨some t, u, rfl, later, position, hshows (by simpa using hcontent)⟩
      · exact .inr ⟨l, u, bind_of_error hpeek, hfails.blocked hp hk⟩

/-- The next token that is neither whitespace nor a comment is told, or the run
fails before it. -/
theorem peekSignificant_cases (h : s.Sound) :
    (∃ o s', peekSignificant s = (.ok o, s') ∧ s.Later s' ∧
        s'.stream.position = s.stream.position ∧ s.Shows o) ∨
      ∃ l s', peekSignificant s = (.error (.lex l), s') ∧ s.Blocked l := by
  rw [peekSignificant]
  rcases peek_cases h 0 with ⟨o, u, hpeek, later, position, ho⟩ | ⟨l, u, hpeek, k, hk, hfails⟩
  · have hheads : s.Heads o := fun mark depth => by
      rw [List.head?_eq_getElem?, ← ho mark depth]
    have houtlook := later.outlook position
    have hshows (hcontent : ¬o.any (·.kind.isTrivia) = true) : s.Shows o := fun mark depth => by
      rw [hheads.significant hcontent]
      exact hheads mark depth
    rw [bind_of_ok hpeek]
    cases o with
    | none => exact .inl ⟨none, u, rfl, later, position, hshows (by simp)⟩
    | some t =>
        dsimp only
        split
        next htrivia =>
          rw [bind_of_ok (get_eq_ok.2 ⟨rfl, rfl⟩)]
          have hfuel : u.upcoming.length < 0 + (u.remaining + 1) := by
            have hlength := length_upcoming_le later.sound.ready
            omega
          rcases peekPastTrivia_cases later.sound u.passes_zero (Nat.zero_le _) hfuel with
            ⟨o', v, hpast, later', position', hshows'⟩ | ⟨l, v, hpast, hb⟩
          · refine .inl ⟨o', v, hpast, later.trans later', position'.trans position,
              fun mark depth => ?_⟩
            rw [← houtlook]
            exact hshows' mark depth
          · exact .inr ⟨l, v, hpast, .of_later later (fun mark depth => by rw [houtlook]) hb⟩
        next hcontent =>
          exact .inl ⟨some t, u, rfl, later, position, hshows (by simpa using hcontent)⟩
  · exact .inr ⟨l, u, bind_of_error hpeek, hfails.blocked s.passes_zero hk⟩

end Source

end DualSql
