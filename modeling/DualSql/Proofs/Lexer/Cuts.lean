import DualSql.Proofs.Lexer.Digest

/-! # How a run cuts its text

A run reads one lexeme after the other. Each of them covers a stretch of the
text, and the stretches follow each other without a gap.

Main definitions: `Cut` and `lexCuts`. Main results: `lexCuts_eq`, that the
pieces in which the text arrives do not show in how it is cut, and
`Scanner.placed_cuts`.

## Implementation notes

`Scanner.nextCuts` follows the recursion of `Scanner.next`, and so on up to
whole runs. It records what each step takes from the unread text there. -/

namespace DualSql

/-- A lexeme that was read, the place of the scanner before it, and the
characters by which the scanner moved on. -/
structure Cut where
  lexeme : Lexeme
  place : Position
  text : List Char
  deriving DecidableEq, Repr

/-- The characters that cuts cover. -/
def Cut.covered (cuts : List Cut) : List Char :=
  cuts.flatMap Cut.text

/-- Cuts that cover one character or more each and follow each other from a
place on. -/
def Cut.Placed (p : Position) : List Cut → Prop
  | [] => True
  | cut :: cuts => cut.place = p ∧ cut.text ≠ [] ∧ Placed (p.advanceAll cut.text) cuts

namespace Scanner

/-- The lexemes that are read for the next answer. -/
def nextCuts (s : Scanner) : List Cut :=
  if s.ready.isEmpty && !s.finished then
    match _unread : s.unread with
    | [] => []
    | c :: rest =>
      match lexeme s.context c s.closed rest with
      | .more | .fail _ => []
      | .done lx width =>
        match s.accept s.position lx with
        | .error _ => []
        | .ok s' => ⟨lx, s.position, c :: rest.take width⟩ :: nextCuts (s'.skip c rest width)
  else []
termination_by s.unread.length
decreasing_by
  rw [_unread]
  change (rest.drop width).length < (c :: rest).length
  rw [List.length_drop, List.length_cons]
  omega

/-- The lexemes that are read for the next event, feeding pieces of text as
they are asked for. -/
def pullCuts (s : Scanner) : List String → List Cut
  | [] =>
    match s.next with
    | (.needMore, s') => s.nextCuts ++ s'.close.nextCuts
    | _ => s.nextCuts
  | chunk :: chunks =>
    match s.next with
    | (.needMore, s') => s.nextCuts ++ pullCuts (s'.feed chunk) chunks
    | _ => s.nextCuts

/-- The lexemes that a run reads. -/
def runCuts (s : Scanner) (chunks : List String) : List Cut :=
  match _pulled : s.pull chunks with
  | (.event _, s', rest) => s.pullCuts chunks ++ runCuts s' rest
  | _ => s.pullCuts chunks
termination_by s.size + charCount chunks
decreasing_by exact size_pull_lt _pulled

end Scanner

/-- The lexemes that are read from a text that arrives in pieces. -/
def lexCuts (d : Dialect) (options : LexOptions) (chunks : List String) : List Cut :=
  ({ dialect := d, options : Scanner }).runCuts chunks

namespace Scanner

/-! ### Cuts of a complete text -/

/-- The lexemes that are read from a complete text. -/
def cuts (s : Scanner) : List Cut :=
  match _unread : s.unread with
  | [] => []
  | c :: rest =>
    match lexeme s.context c true rest with
    | .more | .fail _ => []
    | .done lx width =>
      match s.accept s.position lx with
      | .error _ => []
      | .ok s' => ⟨lx, s.position, c :: rest.take width⟩ :: cuts (s'.skip c rest width)
termination_by s.unread.length
decreasing_by
  rw [_unread]
  change (rest.drop width).length < (c :: rest).length
  rw [List.length_drop, List.length_cons]
  omega

theorem cuts_of_nil {s : Scanner} (hu : s.unread = []) : s.cuts = [] := by
  rw [cuts]
  split
  next => rfl
  next c rest hc => cases hu.symm.trans hc

theorem cuts_of_cons {s : Scanner} {c : Char} {rest : List Char} (hu : s.unread = c :: rest) :
    s.cuts =
      match lexeme s.context c true rest with
      | .more | .fail _ => []
      | .done lx width =>
        match s.accept s.position lx with
        | .error _ => []
        | .ok s' => ⟨lx, s.position, c :: rest.take width⟩ :: (s'.skip c rest width).cuts := by
  rw [cuts]
  split
  next hn => cases hu.symm.trans hn
  next c' rest' hc =>
    cases hu.symm.trans hc
    rfl

/-- Scanners in step cut their text alike. -/
theorem Simulation.cuts {R : Scanner → Scanner → Prop} {s t : Scanner} (sim : Simulation R)
    (h : R s t) : t.cuts = s.cuts := by
  fun_induction Scanner.cuts s generalizing t with
  | case1 s hu => exact cuts_of_nil ((sim.unread h).trans hu)
  | case2 s c rest hu hl => rw [cuts_of_cons ((sim.unread h).trans hu), sim.lexeme h, hl]
  | case3 s c rest hu e hl => rw [cuts_of_cons ((sim.unread h).trans hu), sim.lexeme h, hl]
  | case4 s c rest hu lx width hl e ha =>
      rcases sim.accept h s.position lx with ⟨e', -, ht⟩ | ⟨s', t', hs, -, -⟩
      · simp only [cuts_of_cons ((sim.unread h).trans hu), sim.lexeme h, hl, sim.position h, ht]
      · cases ha.symm.trans hs
  | case5 s c rest hu lx width hl s' ha ih =>
      rcases sim.accept h s.position lx with ⟨e', hs, -⟩ | ⟨s'', t', hs, ht, h'⟩
      · cases ha.symm.trans hs
      · cases ha.symm.trans hs
        simp only [cuts_of_cons ((sim.unread h).trans hu), sim.lexeme h, hl, sim.position h, ht,
          ih (sim.skip c rest width h')]

/-- The cuts of a text and what is left of it are the text. -/
theorem covered_cuts (s : Scanner) : Cut.covered s.cuts ++ s.digest.1.unread = s.unread := by
  fun_induction Scanner.digest s with
  | case1 s hu | case2 s hu =>
      rw [cuts_of_nil hu]
      rfl
  | case3 s c rest hu hl | case4 s c rest hu e hl =>
      rw [cuts_of_cons hu, hl]
      rfl
  | case5 s c rest hu lx width hl e ha =>
      simp only [cuts_of_cons hu, hl, ha]
      rfl
  | case6 s c rest hu lx width hl s' ha ih =>
      simp only [cuts_of_cons hu, hl, ha]
      rw [Cut.covered, List.flatMap_cons, List.append_assoc]
      change _ ++ (Cut.covered _ ++ _) = _
      rw [ih, hu]
      change c :: rest.take width ++ rest.drop width = _
      rw [List.cons_append, List.take_append_drop]

/-- What taking in a lexeme does to a scanner. -/
inductive Accepts (s : Scanner) (place : Position) : Lexeme → Scanner → Prop
  | token (t : Token) : Accepts s place (.token t) (s.stage t)
  | opening (b : Bracket) : Accepts s place (.opening b) (s.openBlock b place)
  | closing (b : Bracket) {opened : Position} {around : List (Bracket × Position)}
      (partner : s.nesting = (b, opened) :: around) :
      Accepts s place (.closing b) (s.closeBlock b place)

theorem accepts_of_ok {s s' : Scanner} {place : Position} {lx : Lexeme}
    (h : s.accept place lx = .ok s') : s.Accepts place lx s' := by
  cases lx with
  | token t =>
      cases h
      exact .token t
  | opening b =>
      cases h
      exact .opening b
  | closing b =>
      rw [accept] at h
      split at h
      next hpartner =>
        cases h
        cases hn : s.nesting with
        | nil => simp [hn] at hpartner
        | cons block around =>
            obtain ⟨b', opened⟩ := block
            obtain rfl : b' = b := by simpa [hn] using hpartner
            exact .closing b' hn
      next => cases h

/-- A scanner that differs from another one in what waits and what is ready. -/
def Restaged (s s' : Scanner) : Prop :=
  ∃ words ready spacePending, s' = { s with words, ready, spacePending }

theorem restaged_stageContent (s : Scanner) (t : Token) : s.Restaged (s.stageContent t) := by
  unfold stageContent
  dsimp only
  split <;> exact ⟨_, _, _, rfl⟩

theorem restaged_stage (s : Scanner) (t : Token) : s.Restaged (s.stage t) := by
  unfold stage
  split
  · dsimp only
    split <;> exact ⟨_, _, _, rfl⟩
  · dsimp only
    split <;> exact ⟨_, _, _, rfl⟩
  · exact s.restaged_stageContent t

theorem restaged_openBlock (s : Scanner) (b : Bracket) (place : Position) :
    Restaged { s with nesting := (b, place) :: s.nesting } (s.openBlock b place) := by
  unfold openBlock
  dsimp only
  split
  · exact ⟨_, _, _, rfl⟩
  · exact restaged_stageContent _ _

theorem restaged_closeBlock (s : Scanner) (b : Bracket) (place : Position) :
    Restaged { s with nesting := s.nesting.tail } (s.closeBlock b place) := by
  unfold closeBlock
  dsimp only
  split
  · exact ⟨_, _, _, rfl⟩
  · exact restaged_stageContent _ _

/-- Taking in a lexeme does not move the scanner. -/
theorem context_accept {s s' : Scanner} {place : Position} {lx : Lexeme}
    (h : s.accept place lx = .ok s') : s'.context = s.context := by
  cases accepts_of_ok h with
  | token t =>
      obtain ⟨_, _, _, hframe⟩ := s.restaged_stage t
      rw [hframe]
      rfl
  | opening b =>
      obtain ⟨_, _, _, hframe⟩ := s.restaged_openBlock b place
      rw [hframe]
      rfl
  | closing b =>
      obtain ⟨_, _, _, hframe⟩ := s.restaged_closeBlock b place
      rw [hframe]
      rfl

theorem context_skip {s s' : Scanner} {place : Position} {lx : Lexeme} (c : Char)
    (rest : List Char) (width : Nat) (h : s.accept place lx = .ok s') :
    (s'.skip c rest width).context =
      { s.context with
        start := s.position.advanceAll (c :: rest.take width)
        before := (c :: rest.take width).getLast? } := by
  have hcontext := context_accept h
  rw [← show s'.position = s.position from congrArg LexContext.start hcontext, ← hcontext]
  rfl

/-- The cuts of a text follow each other from where the scanner stands. -/
theorem placed_cuts (s : Scanner) : Cut.Placed s.position s.cuts := by
  fun_induction Scanner.cuts s with
  | case1 | case2 | case3 | case4 => trivial
  | case5 s c rest hu lx width hl s' ha ih =>
      refine ⟨rfl, List.cons_ne_nil _ _, ?_⟩
      rwa [show (s'.skip c rest width).position = s.position.advanceAll (c :: rest.take width) from
        congrArg LexContext.start (context_skip c rest width ha)] at ih

/-- A run through a complete text leaves the scanner behind what it cut. -/
theorem context_digest (s : Scanner) :
    s.digest.1.context =
      { s.context with
        start := s.position.advanceAll (Cut.covered s.cuts)
        before := (Cut.covered s.cuts).getLast?.or s.before } := by
  fun_induction Scanner.digest s with
  | case1 s hu | case2 s hu =>
      rw [cuts_of_nil hu]
      rfl
  | case3 s c rest hu hl | case4 s c rest hu e hl =>
      rw [cuts_of_cons hu, hl]
      rfl
  | case5 s c rest hu lx width hl e ha =>
      simp only [cuts_of_cons hu, hl, ha]
      rfl
  | case6 s c rest hu lx width hl s' ha ih =>
      have hskip := context_skip c rest width ha
      have hposition := congrArg LexContext.start hskip
      have hbefore := congrArg LexContext.before hskip
      simp only [context] at hposition hbefore
      simp only [cuts_of_cons hu, hl, ha]
      rw [ih, hskip, hposition, hbefore]
      simp only [Cut.covered, List.flatMap_cons, Position.advanceAll, List.foldl_append,
        List.getLast?_append, Option.or_assoc, List.getLast?_cons, Option.some_or]

/-- Every cut is what the recogniser reads behind the cuts before it. -/
theorem exists_lexeme_of_cuts {s : Scanner} {earlier later : List Cut} {cut : Cut}
    (h : s.cuts = earlier ++ cut :: later) :
    ∃ c rest width, Cut.covered earlier ++ c :: rest = s.unread ∧
      lexeme { s.context with
          start := cut.place
          before := (Cut.covered earlier).getLast?.or s.before } c true rest =
        .done cut.lexeme width ∧
      cut.text = c :: rest.take width := by
  fun_induction Scanner.cuts s generalizing earlier with
  | case1 | case2 | case3 | case4 => simp at h
  | case5 s c rest hu lx width hl s' ha ih =>
      cases earlier with
      | nil =>
          cases h
          exact ⟨c, rest, width, hu.symm, hl, rfl⟩
      | cons first earlier =>
          obtain ⟨rfl, hlater⟩ := List.cons.inj h
          obtain ⟨c', rest', width', hunread, hread, htext⟩ := ih hlater
          refine ⟨c', rest', width', ?_, ?_, htext⟩
          · change (c :: rest.take width ++ Cut.covered earlier) ++ c' :: rest' = _
            rw [List.append_assoc, hunread, hu, List.cons_append]
            exact congrArg (c :: ·) (List.take_append_drop width rest)
          · have hskip := context_skip c rest width ha
            have hbefore : (s'.skip c rest width).before = _ := congrArg LexContext.before hskip
            rw [hskip, hbefore] at hread
            rw [show Cut.covered (_ :: earlier) = (c :: rest.take width) ++ Cut.covered earlier from
              rfl, List.getLast?_append, Option.or_assoc, List.getLast?_cons, Option.some_or]
            rwa [List.getLast?_cons] at hread

/-! ### Cuts of a text that arrives in pieces -/

/-- The lexemes that a scanner with all of its text has still to read. -/
def coming (s : Scanner) : List Cut :=
  if s.finished then [] else s.cuts

theorem coming_of_nil {s : Scanner} (hu : s.unread = []) : s.coming = [] := by
  rw [coming, cuts_of_nil hu, ite_self]

theorem coming_setReady (s : Scanner) (ready : List Event) :
    coming { s with ready } = s.coming := by
  have hbare := (simulation_behind ready).cuts
    (s := { s with ready := [] }) (t := { s with ready }) (by simp [behind])
  have hown := (simulation_behind s.ready).cuts
    (s := { s with ready := [] }) (t := s) (by simp [behind])
  simp only [coming, hbare, hown]

theorem coming_pop (s : Scanner) : s.pop.2.coming = s.coming := by
  unfold pop
  split
  · exact coming_setReady s _
  · rfl

theorem nextCuts_of_busy {s : Scanner} (h : ¬(s.ready.isEmpty && !s.finished) = true) :
    s.nextCuts = [] := by
  rw [nextCuts, if_neg h]

theorem nextCuts_of_nil {s : Scanner} (hu : s.unread = []) : s.nextCuts = [] := by
  rw [nextCuts]
  split
  · split
    next => rfl
    next c rest hc => cases hu.symm.trans hc
  · rfl

theorem nextCuts_of_cons {s : Scanner} {c : Char} {rest : List Char}
    (hidle : (s.ready.isEmpty && !s.finished) = true) (hu : s.unread = c :: rest) :
    s.nextCuts =
      match lexeme s.context c s.closed rest with
      | .more | .fail _ => []
      | .done lx width =>
        match s.accept s.position lx with
        | .error _ => []
        | .ok s' => ⟨lx, s.position, c :: rest.take width⟩ :: (s'.skip c rest width).nextCuts := by
  rw [nextCuts, if_pos hidle]
  split
  next hn => cases hu.symm.trans hn
  next c' rest' hc =>
    cases hu.symm.trans hc
    rfl

theorem coming_of_done {s s' : Scanner} {c : Char} {rest : List Char} {lx : Lexeme} {width : Nat}
    (hf : s.finished = false) (hu : s.unread = c :: rest)
    (hl : lexeme s.context c true rest = .done lx width) (ha : s.accept s.position lx = .ok s') :
    s.coming = ⟨lx, s.position, c :: rest.take width⟩ :: (s'.skip c rest width).coming := by
  have hf' : (s'.skip c rest width).finished = false := (phase_accept ha).2.trans hf
  simp only [coming, hf, hf', cuts_of_cons hu, hl, ha, Bool.false_eq_true, if_false]

/-- What a scanner with all of its text reads for an answer comes first of what
it has still to read. -/
theorem next_coming {s : Scanner} (hc : s.closed = true) :
    s.coming = s.nextCuts ++ s.next.2.coming := by
  fun_induction next s with
  | case1 s hidle hu _ =>
      have hfinish : s.finish.2.coming = [] := by
        unfold finish
        dsimp only
        split
        · exact coming_of_nil hu
        · rw [coming_pop]
          rfl
      rw [coming_of_nil hu, nextCuts_of_nil hu, hfinish, List.append_nil]
  | case2 s _ _ hopen => exact absurd hc hopen
  | case3 s _ c rest hu hl =>
      rw [hc] at hl
      exact absurd hl ((lexeme_stable s.context c).decides rest)
  | case4 s hidle c rest hu e hl => rw [nextCuts_of_cons hidle hu, hl, List.nil_append]
  | case5 s hidle c rest hu lx width hl e ha =>
      simp only [nextCuts_of_cons hidle hu, hl, ha, List.nil_append]
  | case6 s hidle c rest hu lx width hl s' ha ih =>
      obtain ⟨-, hf⟩ : s.ready = [] ∧ s.finished = false := by simpa using hidle
      simp only [nextCuts_of_cons hidle hu, hl, ha]
      rw [hc] at hl
      rw [coming_of_done hf hu hl ha, ih ((phase_accept ha).1.trans hc), List.cons_append]
  | case7 s hbusy => rw [nextCuts_of_busy hbusy, coming_pop, List.nil_append]

theorem completed_pop (s : Scanner) (rest : String) :
    s.pop.2.completed rest = (s.completed rest).pop.2 := by
  unfold pop completed feed close
  dsimp only
  split <;> rfl

/-- What a scanner reads for an answer while its text is arriving comes first
of what it has to read once the rest has come. -/
theorem completed_coming {s : Scanner} (h : s.Arriving) (rest : String) :
    (s.completed rest).coming = s.nextCuts ++ (s.next.2.completed rest).coming := by
  fun_induction next s with
  | case1 s _ _ hc => cases h.not_closed.symm.trans hc
  | case2 s _ hu _ => rw [nextCuts_of_nil hu, List.nil_append]
  | case3 s hidle c text hu hl => rw [nextCuts_of_cons hidle hu, hl, List.nil_append]
  | case4 s hidle c text hu e hl => rw [nextCuts_of_cons hidle hu, hl, List.nil_append]
  | case5 s hidle c text hu lx width hl e ha =>
      simp only [nextCuts_of_cons hidle hu, hl, ha, List.nil_append]
  | case6 s hidle c text hu lx width hl t ha ih =>
      have ht := h.accept ha
      simp only [nextCuts_of_cons hidle hu, hl, ha]
      rw [h.not_closed] at hl
      have hu' : (s.completed rest).unread = c :: (text ++ rest.toList) := by
        simp only [completed, feed, close, hu, List.cons_append]
      have hcoming := coming_of_done (s := s.completed rest) h.not_finished hu'
        ((lexeme_stable s.context c).done_append hl true rest.toList) (accept_completed rest h ha)
      have hw := (lexeme_stable s.context c).width_le hl
      rw [completed_skip rest hw, List.take_append_of_le_length hw,
        ih ⟨ht.not_closed, ht.not_finished⟩] at hcoming
      exact hcoming
  | case7 s hbusy => rw [nextCuts_of_busy hbusy, completed_pop, coming_pop, List.nil_append]

theorem coming_of_fail {s : Scanner} {c : Char} {rest : List Char} {e : LexError}
    (hu : s.unread = c :: rest) (hl : lexeme s.context c true rest = .fail e) :
    s.coming = [] := by
  rw [coming, cuts_of_cons hu, hl, ite_self]

theorem coming_of_refused {s : Scanner} {c : Char} {rest : List Char} {lx : Lexeme} {width : Nat}
    {e : LexError} (hu : s.unread = c :: rest)
    (hl : lexeme s.context c true rest = .done lx width)
    (ha : s.accept s.position lx = .error e) : s.coming = [] := by
  simp only [coming, cuts_of_cons hu, hl, ha, ite_self]

/-- Nothing is read behind the last answer. -/
theorem coming_of_last {s : Scanner} (hc : s.closed = true) (hlast : s.next.1.IsLast) :
    s.next.2.coming = [] := by
  fun_induction next s with
  | case1 s hidle hu _ =>
      unfold finish
      dsimp only
      split
      · exact coming_of_nil hu
      · rw [coming_pop]
        rfl
  | case2 | case3 => exact hlast.elim
  | case4 s _ c rest hu e hl =>
      rw [hc] at hl
      exact coming_of_fail hu hl
  | case5 s _ c rest hu lx width hl e ha =>
      rw [hc] at hl
      exact coming_of_refused hu hl ha
  | case6 s _ c rest hu lx width hl s' ha ih => exact ih ((phase_accept ha).1.trans hc) hlast
  | case7 s hbusy =>
      have hfinished : s.finished = true := by
        unfold pop at hlast
        split at hlast
        next => exact hlast.elim
        next hr => simpa [hr] using hbusy
      rw [coming_pop, coming, if_pos hfinished]

/-- Nothing is read behind the last answer, even if more text is to come. -/
theorem completed_coming_of_last {s : Scanner} (h : s.Arriving) (hlast : s.next.1.IsLast)
    (rest : String) : (s.next.2.completed rest).coming = [] := by
  fun_induction next s with
  | case1 s _ _ hc => cases h.not_closed.symm.trans hc
  | case2 | case3 => exact hlast.elim
  | case4 s _ c text hu e hl =>
      rw [h.not_closed] at hl
      refine coming_of_fail (e := e) (?_ : _ = c :: (text ++ rest.toList))
        ((lexeme_stable s.context c).fail_append hl true rest.toList)
      simp only [completed, feed, close, hu, List.cons_append]
  | case5 s _ c text hu lx width hl e ha =>
      rw [h.not_closed] at hl
      refine coming_of_refused (?_ : _ = c :: (text ++ rest.toList))
        ((lexeme_stable s.context c).done_append hl true rest.toList)
        (accept_completed_error rest ha)
      simp only [completed, feed, close, hu, List.cons_append]
  | case6 s _ c text hu lx width hl t ha ih =>
      exact ih ⟨(h.accept ha).not_closed, (h.accept ha).not_finished⟩ hlast
  | case7 s hbusy =>
      unfold pop at hlast
      split at hlast
      next => exact hlast.elim
      next hr => simp [hr, h.not_finished] at hbusy

/-- A scanner and the pieces that it is still to be fed, from which it has the
given lexemes to read. -/
inductive Expects (s : Scanner) (chunks : List String) (cuts : List Cut) : Prop
  | arriving (h : s.Arriving) (coming : (s.completed (String.join chunks)).coming = cuts)
  | closed (h : s.closed = true) (drained : chunks = []) (coming : s.coming = cuts)

/-- The lexemes that are left to read behind an answer. -/
def Leaves (cuts : List Cut) : Answer × Scanner × List String → Prop
  | (.event _, s, chunks) => s.Expects chunks cuts
  | (_, _, _) => cuts = []

theorem closed_leaves {s s' : Scanner} {answer : Answer} (hc : s.closed = true)
    (hn : s.next = (answer, s')) : Leaves s'.coming (answer, s', []) := by
  obtain ⟨hmore, hc'⟩ := next_of_closed s hc
  have hlast := coming_of_last hc
  rw [hn] at hmore hc' hlast
  cases answer with
  | event e => exact .closed hc' rfl rfl
  | needMore => exact absurd rfl hmore
  | ended | failed => exact hlast trivial

theorem Arriving.leaves {s s' : Scanner} {answer : Answer} (h : s.Arriving)
    (chunks : List String) (hn : s.next = (answer, s')) (hmore : answer ≠ .needMore) :
    Leaves (s'.completed (String.join chunks)).coming (answer, s', chunks) := by
  have hforetells := next_foretells s (String.join chunks) h
  have hlast := completed_coming_of_last h
  rw [hn] at hforetells hlast
  cases answer with
  | event e => exact .arriving hforetells.1 rfl
  | needMore => exact absurd rfl hmore
  | ended | failed => exact hlast trivial _

theorem pull_of_answer {s s' : Scanner} {answer : Answer} (chunks : List String)
    (hn : s.next = (answer, s')) (hmore : answer ≠ .needMore) :
    s.pull chunks = (answer, s', chunks) ∧ s.pullCuts chunks = s.nextCuts := by
  cases chunks <;> cases answer <;> simp_all [pull, pullCuts]

theorem pull_of_more {s s' : Scanner} (hn : s.next = (.needMore, s')) :
    (s.pull [] = (s'.close.next.1, s'.close.next.2, []) ∧
        s.pullCuts [] = s.nextCuts ++ s'.close.nextCuts) ∧
      ∀ chunk chunks, s.pull (chunk :: chunks) = (s'.feed chunk).pull chunks ∧
        s.pullCuts (chunk :: chunks) = s.nextCuts ++ (s'.feed chunk).pullCuts chunks := by
  simp [pull, pullCuts, hn]

/-- What is read for an event comes first of what there is to read. -/
theorem pull_expects {s : Scanner} {chunks : List String} {cuts : List Cut}
    (h : s.Expects chunks cuts) :
    ∃ later, cuts = s.pullCuts chunks ++ later ∧ Leaves later (s.pull chunks) := by
  induction chunks generalizing s cuts with
  | nil =>
      cases hn : s.next with
      | mk answer s' =>
          cases h with
          | closed hc _ hcuts =>
              have hmore := (next_of_closed s hc).1
              rw [hn] at hmore
              obtain ⟨hpull, hpullCuts⟩ := pull_of_answer [] hn hmore
              refine ⟨s'.coming, ?_, hpull ▸ closed_leaves hc hn⟩
              rw [hpullCuts, ← hcuts, next_coming hc, hn]
          | arriving h hcuts =>
              rw [completed_coming h, hn] at hcuts
              by_cases hmore : answer = .needMore
              · subst hmore
                obtain ⟨⟨hpull, hpullCuts⟩, -⟩ := pull_of_more hn
                refine ⟨s'.close.next.2.coming, ?_, hpull ▸ closed_leaves (s := s'.close) rfl rfl⟩
                rw [hpullCuts, List.append_assoc, ← next_coming (s := s'.close) rfl,
                  close_eq_completed]
                exact hcuts.symm
              · obtain ⟨hpull, hpullCuts⟩ := pull_of_answer [] hn hmore
                exact ⟨_, hpullCuts ▸ hcuts.symm, hpull ▸ h.leaves [] hn hmore⟩
  | cons chunk chunks ih =>
      cases h with
      | closed _ hdrained _ => cases hdrained
      | arriving h hcuts =>
          have hforetells := next_foretells s (String.join (chunk :: chunks)) h
          rw [completed_coming h] at hcuts
          cases hn : s.next with
          | mk answer s' =>
              rw [hn] at hforetells hcuts
              by_cases hmore : answer = .needMore
              · subst hmore
                obtain ⟨-, hpull⟩ := pull_of_more hn
                obtain ⟨hpull, hpullCuts⟩ := hpull chunk chunks
                rw [String.join_cons, ← completed_feed] at hcuts
                obtain ⟨later, hlater, hleaves⟩ := ih (.arriving (hforetells.1.feed chunk) rfl)
                refine ⟨later, ?_, hpull ▸ hleaves⟩
                rw [hpullCuts, List.append_assoc, ← hlater, hcuts]
              · obtain ⟨hpull, hpullCuts⟩ := pull_of_answer (chunk :: chunks) hn hmore
                exact ⟨_, hpullCuts ▸ hcuts.symm, hpull ▸ h.leaves _ hn hmore⟩

theorem runCuts_of_expects {s : Scanner} {chunks : List String} {cuts : List Cut}
    (h : s.Expects chunks cuts) : s.runCuts chunks = cuts := by
  fun_induction runCuts s chunks generalizing cuts with
  | case1 s chunks e s' rest hpull ih =>
      obtain ⟨later, hcuts, hleaves⟩ := pull_expects h
      rw [hpull] at hleaves
      rw [ih hleaves, hcuts]
  | case2 s chunks hlast =>
      obtain ⟨later, hcuts, hleaves⟩ := pull_expects h
      cases hpull : s.pull chunks with
      | mk answer behind =>
          rw [hpull] at hleaves
          cases answer with
          | event e => exact (hlast _ _ _ hpull).elim
          | needMore | ended | failed =>
              have hlater : later = [] := hleaves
              rw [hcuts, hlater, List.append_nil]

end Scanner

/-- Into which pieces a text is cut before it arrives does not matter to the
lexemes that are read from it. -/
theorem lexCuts_eq (d : Dialect) (options : LexOptions) (chunks : List String) :
    lexCuts d options chunks =
      (Scanner.completed { dialect := d, options } (String.join chunks)).cuts :=
  Scanner.runCuts_of_expects (.arriving ⟨rfl, rfl⟩ rfl)

end DualSql
