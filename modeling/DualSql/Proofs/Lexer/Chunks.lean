import DualSql.Lexer.Feed
import DualSql.Proofs.Lexer.Stability

/-!
# Chunk independence

A text may reach a scanner in any pieces, and the scanner may be asked for
events at any time in between. What it delivers, requests for more text
apart, is what it delivers when the whole text is there from the start.

## Implementation notes

The reference run starts from the scanner *completed* by the text that is
still to come. A call on the arriving scanner and the same call on the
completed one stay in step, so one induction over the calls suffices.
-/

namespace DualSql

/-- An answer after which a scanner is not asked again. -/
def Answer.IsLast : Answer → Prop
  | ended | failed _ => True
  | event _ | needMore => False

namespace Scanner

/-- A call on a scanner whose text is still arriving. -/
inductive Call where
  | feed (chunk : String)
  | next
  deriving DecidableEq, Repr

/-- The text that reaches a scanner in a list of calls. -/
def fed : List Call → String
  | [] => ""
  | .feed chunk :: calls => chunk ++ fed calls
  | .next :: calls => fed calls

/-- The answers to repeated requests up to the first one that is no event. -/
def drain (s : Scanner) : List Answer :=
  match _next : s.next with
  | (.event e, s') => .event e :: drain s'
  | (answer, _) => [answer]
termination_by s.size
decreasing_by exact size_next_lt _next

/-- What a caller hears who makes the given calls, then closes the scanner and
asks to the end: every answer but the requests for more text, up to the end or
the first error. -/
def heard (s : Scanner) : List Call → List Answer
  | [] => s.close.drain
  | .feed chunk :: calls => (s.feed chunk).heard calls
  | .next :: calls =>
    match s.next with
    | (.event e, s') => .event e :: s'.heard calls
    | (.needMore, s') => s'.heard calls
    | (answer, _) => [answer]

/-! ## Taking in a lexeme does not look at the text -/

/-- The scanner before other text, in another phase of the run. -/
def withText (s : Scanner) (text : List Char) (closed finished : Bool) : Scanner :=
  { s with unread := text, closed, finished }

section Frame

variable (s : Scanner) (text : List Char) (closed finished : Bool)

theorem stageContent_withText (t : Token) :
    (s.withText text closed finished).stageContent t =
      (s.stageContent t).withText text closed finished := by
  unfold stageContent
  dsimp only
  rw [apply_ite (withText · text closed finished)]
  rfl

theorem stage_withText (t : Token) :
    (s.withText text closed finished).stage t = (s.stage t).withText text closed finished := by
  unfold stage
  split
  · dsimp only
    rw [apply_ite (withText · text closed finished)]
    rfl
  · dsimp only
    rw [apply_ite (withText · text closed finished)]
    rfl
  · exact stageContent_withText s text closed finished t

theorem openBlock_withText (b : Bracket) (place : Position) :
    (s.withText text closed finished).openBlock b place =
      (s.openBlock b place).withText text closed finished := by
  unfold openBlock
  dsimp only
  rw [apply_ite (withText · text closed finished), ← stageContent_withText]
  rfl

theorem closeBlock_withText (b : Bracket) (place : Position) :
    (s.withText text closed finished).closeBlock b place =
      (s.closeBlock b place).withText text closed finished := by
  unfold closeBlock
  dsimp only
  rw [apply_ite (withText · text closed finished), ← stageContent_withText]
  rfl

theorem accept_withText (place : Position) (lx : Lexeme) :
    (s.withText text closed finished).accept place lx =
      (s.accept place lx).map (withText · text closed finished) := by
  cases lx with
  | token t => simp only [accept, stage_withText, Except.map]
  | opening b => simp only [accept, openBlock_withText, Except.map]
  | closing b =>
      simp only [accept, closeBlock_withText]
      rw [apply_ite (Except.map (withText · text closed finished))]
      rfl

end Frame

theorem phase_accept {s s' : Scanner} {place : Position} {lx : Lexeme}
    (ha : s.accept place lx = .ok s') : s'.closed = s.closed ∧ s'.finished = s.finished := by
  -- The scanner before its own text is itself, so the frame law fixes both flags.
  have hframe := accept_withText s s.unread s.closed s.finished place lx
  change s.accept place lx = _ at hframe
  rw [ha] at hframe
  simp only [Except.map, Except.ok.injEq] at hframe
  rw [hframe]
  exact ⟨rfl, rfl⟩

/-! ## Text that is still to come -/

/-- The text of the scanner may still grow. -/
structure Arriving (s : Scanner) : Prop where
  not_closed : s.closed = false
  not_finished : s.finished = false

/-- The scanner when the rest of its text has come. -/
def completed (s : Scanner) (rest : String) : Scanner :=
  (s.feed rest).close

theorem completed_eq_withText (s : Scanner) (rest : String) :
    s.completed rest = s.withText (s.unread ++ rest.toList) true s.finished := rfl

theorem Arriving.accept {s s' : Scanner} {place : Position} {lx : Lexeme} (h : s.Arriving)
    (ha : s.accept place lx = .ok s') : s'.Arriving := by
  obtain ⟨hc, hf⟩ := phase_accept ha
  exact ⟨hc.trans h.not_closed, hf.trans h.not_finished⟩

theorem accept_completed {s s' : Scanner} {place : Position} {lx : Lexeme} (rest : String)
    (hs : s.Arriving) (ha : s.accept place lx = .ok s') :
    (s.completed rest).accept place lx = .ok (s'.completed rest) := by
  rw [completed_eq_withText, accept_withText, ha, completed_eq_withText, unread_accept ha,
    hs.not_finished, (hs.accept ha).not_finished]
  rfl

theorem accept_completed_error {s : Scanner} {place : Position} {lx : Lexeme} {e : LexError}
    (rest : String) (ha : s.accept place lx = .error e) :
    (s.completed rest).accept place lx = .error e := by
  rw [completed_eq_withText, accept_withText, ha]
  rfl

theorem completed_skip {s : Scanner} {c : Char} {text : List Char} {width : Nat}
    (rest : String) (hw : width ≤ text.length) :
    (s.completed rest).skip c (text ++ rest.toList) width =
      (s.skip c text width).completed rest := by
  simp only [skip, completed, feed, close, List.take_append_of_le_length hw,
    List.drop_append_of_le_length hw]

/-- The answer of a scanner that has nothing ready and text before it. -/
theorem next_eq_of_unread {s : Scanner} {c : Char} {text : List Char} (hr : s.ready = [])
    (hf : s.finished = false) (hu : s.unread = c :: text) :
    s.next =
      match lexeme s.context c s.closed text with
      | .more => (.needMore, s)
      | .fail e => (.failed e, s)
      | .done lx width =>
        match s.accept s.position lx with
        | .error e => (.failed e, s)
        | .ok s' => (s'.skip c text width).next := by
  rw [next, if_pos (by simp [hr, hf])]
  split
  next hn =>
      rw [hu] at hn
      cases hn
  next c' text' hc =>
      rw [hu] at hc
      cases hc
      rfl

theorem completed_next_eq {s : Scanner} {c : Char} {text : List Char} (rest : String)
    (hs : s.Arriving) (hr : s.ready = []) (hu : s.unread = c :: text) :
    (s.completed rest).next =
      match lexeme s.context c true (text ++ rest.toList) with
      | .more => (.needMore, s.completed rest)
      | .fail e => (.failed e, s.completed rest)
      | .done lx width =>
        match (s.completed rest).accept s.position lx with
        | .error e => (.failed e, s.completed rest)
        | .ok s' => (s'.skip c (text ++ rest.toList) width).next := by
  have hu' : (s.completed rest).unread = c :: (text ++ rest.toList) := by
    simp only [completed, feed, close, hu, List.cons_append]
  exact next_eq_of_unread (s := s.completed rest) hr hs.not_finished hu'

/-- What an answer of a scanner says of the scanner with all of its text. -/
def Foretells (s : Scanner) (rest : String) : Answer × Scanner → Prop
  | (.event e, s') => s'.Arriving ∧ (s.completed rest).next = (.event e, s'.completed rest)
  | (.needMore, s') => s'.Arriving ∧ (s.completed rest).next = (s'.completed rest).next
  | (.ended, _) => False
  | (.failed e, _) => (s.completed rest).next.1 = .failed e

theorem Foretells.of_next_eq {s t : Scanner} {rest : String} {answer : Answer × Scanner}
    (h : (s.completed rest).next = (t.completed rest).next) (ht : t.Foretells rest answer) :
    s.Foretells rest answer := by
  obtain ⟨a, s'⟩ := answer
  cases a with
  | event e => exact ⟨ht.1, h.trans ht.2⟩
  | needMore => exact ⟨ht.1, h.trans ht.2⟩
  | ended => exact ht
  | failed e =>
      change (s.completed rest).next.1 = _
      rw [h]
      exact ht

/-- Every answer of a scanner whose text is arriving is one that the completed
scanner gives too, or a request for more text that changes nothing. -/
theorem next_foretells (s : Scanner) (rest : String) (hs : s.Arriving) :
    s.Foretells rest s.next := by
  fun_induction next s with
  | case1 s _ _ hc =>
      rw [hs.not_closed] at hc
      cases hc
  | case2 s _ _ _ => exact ⟨hs, rfl⟩
  | case3 s _ c text hu hl => exact ⟨hs, rfl⟩
  | case4 s hready c text hu e hl =>
      have hr : s.ready = [] := by simpa [hs.not_finished] using hready
      rw [hs.not_closed] at hl
      change (s.completed rest).next.1 = _
      rw [completed_next_eq rest hs hr hu, (lexeme_stable s.context c).fail_append hl]
  | case5 s hready c text hu lx width hl e ha =>
      have hr : s.ready = [] := by simpa [hs.not_finished] using hready
      rw [hs.not_closed] at hl
      change (s.completed rest).next.1 = _
      rw [completed_next_eq rest hs hr hu, (lexeme_stable s.context c).done_append hl]
      simp only [accept_completed_error rest ha]
  | case6 s hready c text hu lx width hl t ha ih =>
      have hr : s.ready = [] := by simpa [hs.not_finished] using hready
      rw [hs.not_closed] at hl
      have ht := hs.accept ha
      refine Foretells.of_next_eq ?_ (ih ⟨ht.not_closed, ht.not_finished⟩)
      rw [completed_next_eq rest hs hr hu, (lexeme_stable s.context c).done_append hl]
      simp only [accept_completed rest hs ha]
      rw [completed_skip rest ((lexeme_stable s.context c).width_le hl)]
  | case7 s hready =>
      -- Only an event that is ready answers without looking at the text.
      obtain ⟨e, events, he⟩ : ∃ e events, s.ready = e :: events := by
        cases hr : s.ready with
        | nil => simp [hr, hs.not_finished] at hready
        | cons e events => exact ⟨e, events, rfl⟩
      rw [pop, he]
      refine ⟨⟨hs.not_closed, hs.not_finished⟩, ?_⟩
      have hready' : ¬((s.completed rest).ready.isEmpty && !(s.completed rest).finished) :=
        hready
      rw [next, if_neg hready', pop]
      simp only [completed, feed, close, he]

/-! ## Runs -/

theorem Arriving.feed {s : Scanner} (h : s.Arriving) (chunk : String) :
    (s.feed chunk).Arriving :=
  ⟨h.not_closed, h.not_finished⟩

theorem completed_feed (s : Scanner) (chunk rest : String) :
    (s.feed chunk).completed rest = s.completed (chunk ++ rest) := by
  simp only [completed, Scanner.feed, close, String.toList_append, List.append_assoc]

theorem drain_of_event {s s' : Scanner} {e : Event} (h : s.next = (.event e, s')) :
    s.drain = .event e :: s'.drain := by
  rw [drain]
  split
  next e' t ht =>
      rw [h] at ht
      cases ht
      rfl
  next a t hne ht =>
      rw [h] at ht
      cases ht
      exact absurd rfl (hne e)

theorem drain_of_not_event {s : Scanner} (h : ∀ e, s.next.1 ≠ .event e) :
    s.drain = [s.next.1] := by
  rw [drain]
  split
  next e t ht => exact absurd (congrArg Prod.fst ht) (h e)
  next a t _ ht => rw [ht]

theorem drain_eq_of_next_eq {s t : Scanner} (h : s.next = t.next) : s.drain = t.drain := by
  cases ha : s.next with
  | mk a s' =>
      rw [h] at ha
      cases a with
      | event e => rw [drain_of_event (h.trans ha), drain_of_event ha]
      | needMore | ended | failed =>
          rw [drain_of_not_event (by simp [h, ha]), drain_of_not_event (by simp [ha]), h]

/-- The calls before the end of the text do not show in what is heard. -/
theorem heard_eq_drain_completed (s : Scanner) (calls : List Call) (hs : s.Arriving) :
    s.heard calls = (s.completed (fed calls)).drain := by
  induction calls generalizing s with
  | nil =>
      have hnil : s.completed "" = s.close := by
        simp [completed, Scanner.feed, close]
      rw [heard, fed, hnil]
  | cons call calls ih =>
      cases call with
      | feed chunk =>
          rw [heard, fed, ih _ (hs.feed chunk), completed_feed]
      | next =>
          have hn := next_foretells s (fed calls) hs
          rw [heard, fed]
          cases ha : s.next with
          | mk a s' =>
              rw [ha] at hn
              cases a with
              | event e =>
                  rw [drain_of_event hn.2, ← ih s' hn.1]
              | needMore =>
                  rw [drain_eq_of_next_eq hn.2, ← ih s' hn.1]
              | ended => exact hn.elim
              | failed e =>
                  have hfail : (s.completed (fed calls)).next.1 = .failed e := hn
                  rw [drain_of_not_event (by simp [hfail]), hfail]

theorem pop_ne_needMore (s : Scanner) : s.pop.1 ≠ .needMore := by
  unfold pop
  split <;> nofun

/-- A scanner with all of its text does not ask for more, and stays closed. -/
theorem next_of_closed (s : Scanner) (hc : s.closed = true) :
    s.next.1 ≠ .needMore ∧ s.next.2.closed = true := by
  have hpop (t : Scanner) (ht : t.closed = true) : t.pop.2.closed = true := by
    unfold pop
    split <;> exact ht
  fun_induction next s with
  | case1 s _ _ _ =>
      unfold finish
      dsimp only
      split
      · exact ⟨by simp, hc⟩
      · exact ⟨pop_ne_needMore _, hpop _ hc⟩
  | case2 s _ _ hopen => exact absurd hc hopen
  | case3 s _ c text hu hl =>
      rw [hc] at hl
      exact absurd hl ((lexeme_stable s.context c).decides text)
  | case4 s _ c text hu e hl => exact ⟨by simp, hc⟩
  | case5 s _ c text hu lx width hl e ha => exact ⟨by simp, hc⟩
  | case6 s _ c text hu lx width _ t ht ih => exact ih ((phase_accept ht).1.trans hc)
  | case7 s _ => exact ⟨pop_ne_needMore s, hpop s hc⟩

/-- Asked to the end, a scanner with all of its text delivers events and then
reports the end or an error. -/
theorem drain_of_closed (s : Scanner) (hc : s.closed = true) :
    ∃ (events : List Event) (last : Answer), last.IsLast ∧
      s.drain = events.map .event ++ [last] := by
  fun_induction drain s with
  | case1 s e s' hn ih =>
      have hc' := (next_of_closed s hc).2
      rw [hn] at hc'
      obtain ⟨events, last, hl, hd⟩ := ih hc'
      exact ⟨e :: events, last, hl, by rw [hd]; rfl⟩
  | case2 s a s' hne hn =>
      have hm := (next_of_closed s hc).1
      rw [hn] at hm
      refine ⟨[], a, ?_, rfl⟩
      cases a with
      | event e => exact hne e rfl
      | needMore => exact hm rfl
      | ended => trivial
      | failed e => trivial

/-- However a text is cut into pieces and whenever events are asked for in
between, a scanner delivers the same events and ends in the same way as when
it has the whole text from the start. -/
theorem heard_eq_of_whole (d : Dialect) (options : LexOptions) (calls : List Call) :
    let start : Scanner := { dialect := d, options }
    start.heard calls = ((start.feed (fed calls)).close).drain ∧
      ∃ (events : List Event) (last : Answer), last.IsLast ∧
        start.heard calls = events.map .event ++ [last] := by
  intro start
  have hheard : start.heard calls = (start.completed (fed calls)).drain :=
    heard_eq_drain_completed start calls ⟨rfl, rfl⟩
  refine ⟨hheard, ?_⟩
  rw [hheard]
  exact drain_of_closed _ rfl

end Scanner

end DualSql
