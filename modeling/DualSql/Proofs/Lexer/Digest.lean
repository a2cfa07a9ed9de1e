import DualSql.Proofs.Lexer.Tokens

/-! # Runs taken as a whole

A scanner that has all of its text can take it in without delivering anything
in between. What is ready in the end are the events of the run. Two scanners
that take in lexemes in step thus have runs that correspond, whenever each of
them delivers what it has.

Main definitions: `Scanner.digest` and `Scanner.Simulation`. Main results:
`Scanner.Simulation.digest` and `lexEvents_eq`. -/

namespace DualSql

/-! ### Lexemes and options -/

section Options

variable (d : Dialect) (o o' : LexOptions) (place : Position) (before : Option Char)

theorem quotedBody_setOptions :
    quotedBody ⟨d, o', place, before⟩ = quotedBody ⟨d, o, place, before⟩ := by
  with_unfolding_all rfl

theorem blockCommentBody_setOptions (closed : Bool) (depth : Nat) (text : List Char) :
    blockCommentBody ⟨d, o', place, before⟩ closed depth text =
      blockCommentBody ⟨d, o, place, before⟩ closed depth text := by
  fun_induction blockCommentBody ⟨d, o, place, before⟩ closed depth text with
  | case1 | case2 => rfl
  | case3 depth c e rest h ih => rw [blockCommentBody, if_pos h, ih]
  | case4 depth c e rest h h' hd => rw [blockCommentBody, if_neg h, if_pos h', if_pos hd]
  | case5 depth c e rest h h' hd ih => rw [blockCommentBody, if_neg h, if_pos h', if_neg hd, ih]
  | case6 depth c e rest h h' ih => rw [blockCommentBody, if_neg h, if_neg h', ih]

theorem dollarBody_setOptions (tag : List Char) :
    dollarBody ⟨d, o', place, before⟩ tag = dollarBody ⟨d, o, place, before⟩ tag := by
  funext closed text
  induction text with
  | nil => rfl
  | cons c rest ih => rw [dollarBody, dollarBody, ih]

/-- Only the options about quotes and escapes matter to a lexeme. -/
theorem lexeme_setOptions (hquotes : o'.ansiQuotes = o.ansiQuotes)
    (hescapes : o'.backslashEscapes = o.backslashEscapes) (c : Char) :
    lexeme ⟨d, o', place, before⟩ c = lexeme ⟨d, o, place, before⟩ c := by
  simp only [lexeme, ordinaryLexeme, wordLexeme, bareWord, introducedLiteral?, quotedDigits,
    stringLexeme, identifierLexeme, variableLexeme, variableName, quoted, dollarLexeme,
    dollarString, blockComment, lineComment, dashesStartComment, operatorLexeme, numberLexeme,
    numberTail, dotStartsNumber, fraction, exponent, exponentDigits, basedLexeme, checkDigits,
    LexContext.escapes, LexContext.plain, LexContext.token, LexContext.invalid, hquotes, hescapes,
    quotedBody_setOptions d o o' place before, blockCommentBody_setOptions d o o' place before,
    dollarBody_setOptions d o o' place before]

end Options

namespace Scanner

theorem lexeme_context {s t : Scanner} (hdialect : t.dialect = s.dialect)
    (hposition : t.position = s.position) (hbefore : t.before = s.before)
    (hquotes : t.options.ansiQuotes = s.options.ansiQuotes)
    (hescapes : t.options.backslashEscapes = s.options.backslashEscapes) :
    lexeme t.context = lexeme s.context := by
  funext c
  rw [context, context, hdialect, hposition, hbefore]
  exact lexeme_setOptions s.dialect s.options t.options s.position s.before hquotes hescapes c

/-- Takes in the rest of a complete text. What is then ready are the events up
to the end, or up to the error that is met. -/
def digest (s : Scanner) : Scanner × Option LexError :=
  match _unread : s.unread with
  | [] =>
    match s.nesting with
    | (b, opened) :: _ => (s, some (.unclosed b.opener opened))
    | [] => (s.flush, none)
  | c :: rest =>
    match lexeme s.context c true rest with
    | .more => (s, none)
    | .fail e => (s, some e)
    | .done lx width =>
      match s.accept s.position lx with
      | .error e => (s, some e)
      | .ok s' => digest (s'.skip c rest width)
termination_by s.unread.length
decreasing_by
  rw [_unread]
  change (rest.drop width).length < (c :: rest).length
  rw [List.length_drop, List.length_cons]
  omega

theorem digest_of_nil {s : Scanner} (hu : s.unread = []) :
    s.digest =
      match s.nesting with
      | (b, opened) :: _ => (s, some (.unclosed b.opener opened))
      | [] => (s.flush, none) := by
  rw [digest]
  split
  next => rfl
  next c rest hc =>
    rw [hu] at hc
    cases hc

theorem digest_of_cons {s : Scanner} {c : Char} {rest : List Char} (hu : s.unread = c :: rest) :
    s.digest =
      match lexeme s.context c true rest with
      | .more => (s, none)
      | .fail e => (s, some e)
      | .done lx width =>
        match s.accept s.position lx with
        | .error e => (s, some e)
        | .ok s' => (s'.skip c rest width).digest := by
  rw [digest]
  split
  next hn =>
    rw [hu] at hn
    cases hn
  next c' rest' hc =>
    rw [hu] at hc
    cases hc
    rfl

/-! ### Scanners in step -/

/-- A relation between scanners before the same text that is kept by whatever
both of them take in. -/
structure Simulation (R : Scanner → Scanner → Prop) : Prop where
  unread {s t : Scanner} : R s t → t.unread = s.unread
  position {s t : Scanner} : R s t → t.position = s.position
  nesting {s t : Scanner} : R s t → t.nesting = s.nesting
  lexeme {s t : Scanner} : R s t → DualSql.lexeme t.context = DualSql.lexeme s.context
  stage {s t : Scanner} (token : Token) : R s t → R (s.stage token) (t.stage token)
  openBlock {s t : Scanner} (b : Bracket) (place : Position) :
    R s t → R (s.openBlock b place) (t.openBlock b place)
  closeBlock {s t : Scanner} (b : Bracket) (place : Position) :
    R s t → R (s.closeBlock b place) (t.closeBlock b place)
  skip {s t : Scanner} (c : Char) (rest : List Char) (width : Nat) :
    R s t → R (s.skip c rest width) (t.skip c rest width)
  flush {s t : Scanner} : R s t → R s.flush t.flush

namespace Simulation

variable {R : Scanner → Scanner → Prop} {s t : Scanner}

/-- Scanners in step take in the same lexemes. -/
theorem accept (sim : Simulation R) (h : R s t) (place : Position) (lx : Lexeme) :
    (∃ e, s.accept place lx = .error e ∧ t.accept place lx = .error e) ∨
      ∃ s' t', s.accept place lx = .ok s' ∧ t.accept place lx = .ok t' ∧ R s' t' := by
  cases lx with
  | token token => exact .inr ⟨_, _, rfl, rfl, sim.stage token h⟩
  | opening b => exact .inr ⟨_, _, rfl, rfl, sim.openBlock b place h⟩
  | closing b =>
      simp only [Scanner.accept, sim.nesting h]
      by_cases hpartner : s.nesting.head?.any (·.1 = b)
      · rw [if_pos hpartner, if_pos hpartner]
        exact .inr ⟨_, _, rfl, rfl, sim.closeBlock b place h⟩
      · rw [if_neg hpartner, if_neg hpartner]
        exact .inl ⟨_, rfl, rfl⟩

/-- Scanners in step stay so to the end of the text, or meet the same error. -/
theorem digest (sim : Simulation R) (h : R s t) :
    R s.digest.1 t.digest.1 ∧ t.digest.2 = s.digest.2 := by
  fun_induction Scanner.digest s generalizing t with
  | case1 s hu b opened rest hn =>
      rw [digest_of_nil ((sim.unread h).trans hu), sim.nesting h, hn]
      exact ⟨h, rfl⟩
  | case2 s hu hn =>
      rw [digest_of_nil ((sim.unread h).trans hu), sim.nesting h, hn]
      exact ⟨sim.flush h, rfl⟩
  | case3 s c rest hu hl =>
      rw [digest_of_cons ((sim.unread h).trans hu), sim.lexeme h, hl]
      exact ⟨h, rfl⟩
  | case4 s c rest hu e hl =>
      rw [digest_of_cons ((sim.unread h).trans hu), sim.lexeme h, hl]
      exact ⟨h, rfl⟩
  | case5 s c rest hu lx width hl e ha =>
      rw [digest_of_cons ((sim.unread h).trans hu), sim.lexeme h, hl, sim.position h]
      rcases sim.accept h s.position lx with ⟨e', hs, ht⟩ | ⟨s', t', hs, ht, -⟩
      · rw [ha] at hs
        cases hs
        simp only [ht]
        exact ⟨h, trivial⟩
      · rw [ha] at hs
        cases hs
  | case6 s c rest hu lx width hl s' ha ih =>
      rw [digest_of_cons ((sim.unread h).trans hu), sim.lexeme h, hl, sim.position h]
      rcases sim.accept h s.position lx with ⟨e', hs, ht⟩ | ⟨s'', t', hs, ht, h'⟩
      · rw [ha] at hs
        cases hs
      · rw [ha] at hs
        cases hs
        simp only [ht]
        exact ih (sim.skip c rest width h')

end Simulation

/-! ### Events that are ready already -/

/-- The scanner with events before those that are ready. -/
def behind (s : Scanner) (events : List Event) : Scanner :=
  { s with ready := events ++ s.ready }

section Behind

variable (s : Scanner) (events : List Event)

theorem wait_behind (t : Token) : (s.behind events).wait t = (s.wait t).behind events := by
  simp only [wait, behind, List.append_assoc]

theorem flush_behind : (s.behind events).flush = s.flush.behind events := by
  simp only [flush, behind, List.append_assoc]

theorem deliver_behind (e : Event) :
    (s.behind events).deliver e = (s.deliver e).behind events := by
  simp only [deliver, flush_behind]
  simp only [behind, List.append_assoc]

theorem stageContent_behind (t : Token) :
    (s.behind events).stageContent t = (s.stageContent t).behind events := by
  unfold stageContent
  dsimp only
  rw [apply_ite (behind · events), ← wait_behind, ← deliver_behind]
  rfl

theorem stage_behind (t : Token) : (s.behind events).stage t = (s.stage t).behind events := by
  unfold stage
  split
  · dsimp only
    rw [apply_ite (behind · events), ← wait_behind]
    rfl
  · dsimp only
    rw [apply_ite (behind · events), ← deliver_behind, ← flush_behind]
    rfl
  · exact stageContent_behind s events t

theorem openBlock_behind (b : Bracket) (place : Position) :
    (s.behind events).openBlock b place = (s.openBlock b place).behind events := by
  unfold openBlock
  dsimp only
  rw [apply_ite (behind · events), ← stageContent_behind]
  congr 1
  exact congrArg (fun s : Scanner => { s with spacePending := false })
    (deliver_behind { s with nesting := (b, place) :: s.nesting } events _)

theorem closeBlock_behind (b : Bracket) (place : Position) :
    (s.behind events).closeBlock b place = (s.closeBlock b place).behind events := by
  unfold closeBlock
  dsimp only
  rw [apply_ite (behind · events), ← stageContent_behind]
  congr 1
  exact congrArg (fun s : Scanner => { s with spacePending := false })
    (deliver_behind { s with nesting := s.nesting.tail } events _)

end Behind

/-- Events that are ready do not matter to what is taken in. -/
theorem simulation_behind (events : List Event) :
    Simulation fun s t => t = s.behind events where
  unread h := h ▸ rfl
  position h := h ▸ rfl
  nesting h := h ▸ rfl
  lexeme h := h ▸ rfl
  stage token h := h ▸ stage_behind _ events token
  openBlock b place h := h ▸ openBlock_behind _ events b place
  closeBlock b place h := h ▸ closeBlock_behind _ events b place
  skip _ _ _ h := h ▸ rfl
  flush h := h ▸ flush_behind _ events

/-! ### What a run delivers -/

/-- The events that a scanner with all of its text will deliver, and the error
that ends them if there is one. -/
def outcome (s : Scanner) : List Event × Option LexError :=
  if s.finished then (s.ready, none) else (s.digest.1.ready, s.digest.2)

/-- An answer of a scanner that has a given outcome. -/
def Fits (o : List Event × Option LexError) : Answer × Scanner → Prop
  | (.event e, s) => s.closed = true ∧ o = (e :: s.outcome.1, s.outcome.2)
  | (.needMore, _) => False
  | (.ended, _) => o = ([], none)
  | (.failed e, _) => o = ([], some e)

/-- Delivering an event takes it off the outcome. -/
theorem outcome_of_ready {s : Scanner} {e : Event} {rest : List Event} (h : s.ready = e :: rest) :
    s.outcome =
      (e :: (outcome { s with ready := rest }).1, (outcome { s with ready := rest }).2) := by
  unfold outcome
  dsimp only
  by_cases hf : s.finished
  · rw [if_pos hf, if_pos hf, h]
  · rw [if_neg hf, if_neg hf]
    have hs : s = behind { s with ready := rest } [e] := by
      rw [behind, List.singleton_append, ← h]
    obtain ⟨hready, herror⟩ :=
      (simulation_behind [e]).digest (s := { s with ready := rest }) (t := s) hs
    rw [hready, herror]
    rfl

theorem pop_fits {s : Scanner} (hc : s.closed = true) (hend : s.ready = [] → s.finished = true) :
    Fits s.outcome s.pop := by
  unfold pop
  cases h : s.ready with
  | nil =>
      change s.outcome = ([], none)
      rw [outcome, if_pos (hend h), h]
  | cons e rest => exact ⟨hc, outcome_of_ready h⟩

theorem finish_of_nil {s : Scanner} (h : s.nesting = []) :
    s.finish = { s.flush with finished := true }.pop := by
  unfold finish
  dsimp only
  split
  next block around hn =>
    cases h.symm.trans hn
  next => rfl

theorem finish_of_cons {s : Scanner} {b : Bracket} {opened : Position}
    {around : List (Bracket × Position)} (h : s.nesting = (b, opened) :: around) :
    s.finish = (.failed (.unclosed b.opener opened), s.flush) := by
  unfold finish
  dsimp only
  split
  next hn =>
    cases h.symm.trans hn
    rfl
  next hn =>
    cases h.symm.trans hn

/-- Every answer of a scanner with all of its text fits its outcome. -/
theorem next_fits {s : Scanner} (hc : s.closed = true) : Fits s.outcome s.next := by
  fun_induction next s with
  | case1 s hidle hu _ =>
      obtain ⟨hr, hf⟩ : s.ready = [] ∧ s.finished = false := by simpa using hidle
      have hout : s.outcome = (s.digest.1.ready, s.digest.2) := by
        rw [outcome, hf]
        rfl
      rw [digest_of_nil hu] at hout
      cases hn : s.nesting with
      | cons block around =>
          rw [hn] at hout
          rw [finish_of_cons hn]
          change s.outcome = _
          rw [hout, hr]
      | nil =>
          rw [hn] at hout
          rw [finish_of_nil hn, hout]
          exact pop_fits (s := { s.flush with finished := true }) hc fun _ => rfl
  | case2 s _ _ hopen => exact absurd hc hopen
  | case3 s _ c rest hu hl =>
      rw [hc] at hl
      exact absurd hl ((lexeme_stable s.context c).decides rest)
  | case4 s hidle c rest hu e hl =>
      obtain ⟨hr, hf⟩ : s.ready = [] ∧ s.finished = false := by simpa using hidle
      rw [hc] at hl
      change s.outcome = ([], some e)
      simp only [outcome, hf, digest_of_cons hu, hl, hr]
      rfl
  | case5 s hidle c rest hu lx width hl e ha =>
      obtain ⟨hr, hf⟩ : s.ready = [] ∧ s.finished = false := by simpa using hidle
      rw [hc] at hl
      change s.outcome = ([], some e)
      simp only [outcome, hf, digest_of_cons hu, hl, ha, hr]
      rfl
  | case6 s hidle c rest hu lx width hl s' ha ih =>
      obtain ⟨-, hf⟩ : s.ready = [] ∧ s.finished = false := by simpa using hidle
      rw [hc] at hl
      obtain ⟨hc', hf'⟩ := phase_accept ha
      have hout : s.outcome = (s'.skip c rest width).outcome := by
        have hf'' : (s'.skip c rest width).finished = false := hf'.trans hf
        simp only [outcome, hf, hf'', digest_of_cons hu, hl, ha, Bool.false_eq_true, if_false]
      rw [hout]
      exact ih (hc'.trans hc)
  | case7 s hidle =>
      refine pop_fits hc fun hr => ?_
      simpa [hr] using hidle

/-- An answer tells the outcome. -/
theorem Fits.eq {o o' : List Event × Option LexError} {answer : Answer × Scanner}
    (h : Fits o answer) (h' : Fits o' answer) : o = o' := by
  obtain ⟨answer, s⟩ := answer
  cases answer with
  | event e => exact h.2.trans h'.2.symm
  | needMore => exact h.elim
  | ended => exact Eq.trans h h'.symm
  | failed e => exact Eq.trans h h'.symm

/-- A scanner and the pieces that it is still to be fed, which together have
the given outcome. -/
inductive Awaits (s : Scanner) (chunks : List String) (o : List Event × Option LexError) : Prop
  | arriving (h : s.Arriving) (outcome : (s.completed (String.join chunks)).outcome = o)
  | closed (h : s.closed = true) (drained : chunks = []) (outcome : s.outcome = o)

/-- What drawing the next event says of the outcome. -/
def Draws (o : List Event × Option LexError) : Answer × Scanner × List String → Prop
  | (.event e, s, chunks) => ∃ o', o = (e :: o'.1, o'.2) ∧ s.Awaits chunks o'
  | (.needMore, _, _) => False
  | (.ended, _, _) => o = ([], none)
  | (.failed e, _, _) => o = ([], some e)

theorem Fits.draws {o : List Event × Option LexError} {answer : Answer} {s : Scanner}
    (h : Fits o (answer, s)) : Draws o (answer, s, []) := by
  cases answer with
  | event e => exact ⟨_, h.2, .closed h.1 rfl rfl⟩
  | needMore | ended | failed => exact h

/-- A scanner whose text is arriving either answers as its outcome has it, or
asks for more and keeps its outcome. -/
theorem Arriving.next_draws {s : Scanner} (h : s.Arriving) (chunks : List String) :
    match s.next with
    | (.needMore, s') => s'.Arriving ∧
        (s'.completed (String.join chunks)).outcome = (s.completed (String.join chunks)).outcome
    | (answer, s') => Draws (s.completed (String.join chunks)).outcome (answer, s', chunks) := by
  have hforetells := next_foretells s (String.join chunks) h
  have hfits : Fits (s.completed (String.join chunks)).outcome _ := next_fits rfl
  cases hn : s.next with
  | mk answer s' =>
      rw [hn] at hforetells
      cases answer with
      | event e =>
          rw [hforetells.2] at hfits
          exact ⟨_, hfits.2, .arriving hforetells.1 rfl⟩
      | needMore =>
          refine ⟨hforetells.1, ?_⟩
          rw [hforetells.2] at hfits
          exact (next_fits (s := s'.completed (String.join chunks)) rfl).eq hfits
      | ended => exact hforetells.elim
      | failed e =>
          obtain ⟨t, ht⟩ : ∃ t, (s.completed (String.join chunks)).next = (.failed e, t) :=
            ⟨_, Prod.ext hforetells rfl⟩
          rw [ht] at hfits
          exact hfits

theorem close_eq_completed (s : Scanner) : s.close = s.completed "" := by
  simp [completed, feed, close]

theorem pull_draws {s : Scanner} {chunks : List String} {o : List Event × Option LexError}
    (h : s.Awaits chunks o) : Draws o (s.pull chunks) := by
  induction chunks generalizing s with
  | nil =>
      rw [pull]
      cases h with
      | arriving h ho =>
          have hnext := h.next_draws []
          subst ho
          split
          next s' hn =>
            rw [hn] at hnext
            obtain ⟨-, ho⟩ := hnext
            rw [← ho, String.join_nil, ← close_eq_completed]
            exact (next_fits (s := s'.close) rfl).draws
          next answer s' hne hn =>
            rw [hn] at hnext
            cases answer with
            | needMore => exact absurd rfl hne
            | event | ended | failed => exact hnext
      | closed hc _ ho =>
          have hfits := next_fits hc
          rw [ho] at hfits
          split
          next s' hn =>
            rw [hn] at hfits
            exact hfits.elim
          next answer s' hne hn =>
            rw [hn] at hfits
            exact hfits.draws
  | cons chunk chunks ih =>
      rw [pull]
      cases h with
      | arriving h ho =>
          have hnext := h.next_draws (chunk :: chunks)
          subst ho
          split
          next s' hn =>
            rw [hn] at hnext
            obtain ⟨hs', ho⟩ := hnext
            refine ih (.arriving (hs'.feed chunk) ?_)
            rw [completed_feed, ← String.join_cons, ho]
          next answer s' hne hn =>
            rw [hn] at hnext
            cases answer with
            | needMore => exact absurd rfl hne
            | event | ended | failed => exact hnext
      | closed _ hnone _ => cases hnone

theorem run_of_awaits {s : Scanner} {chunks : List String} {o : List Event × Option LexError}
    (h : s.Awaits chunks o) :
    (s.run chunks).1 = o.1 ∧ ∀ e, (s.run chunks).2.1 = .failed e ↔ o.2 = some e := by
  fun_induction run s chunks generalizing o with
  | case1 s chunks e s' rest hpull events answer last hrun ih =>
      have hdraws := pull_draws h
      rw [hpull] at hdraws
      obtain ⟨o', rfl, ho'⟩ := hdraws
      obtain ⟨hevents, hlast⟩ := ih ho'
      rw [hrun] at hevents hlast
      exact ⟨congrArg (e :: ·) hevents, hlast⟩
  | case2 s chunks answer s' rest hne hpull =>
      have hdraws := pull_draws h
      rw [hpull] at hdraws
      cases answer with
      | event e => exact absurd rfl (hne e)
      | needMore => exact hdraws.elim
      | ended =>
          obtain rfl : o = ([], none) := hdraws
          exact ⟨rfl, fun e => by simp⟩
      | failed e =>
          obtain rfl : o = ([], some e) := hdraws
          exact ⟨rfl, fun e' => ⟨fun h => by cases h; rfl, fun h => by cases h; rfl⟩⟩

end Scanner

/-- The events of a text that arrives in pieces are those that a scanner has
ready once it has taken in the whole text. -/
theorem lexEvents_eq (d : Dialect) (options : LexOptions) (chunks : List String) :
    lexEvents d options chunks =
      (Scanner.completed { dialect := d, options } (String.join chunks)).outcome := by
  have hstart : Scanner.Awaits { dialect := d, options } chunks _ := .arriving ⟨rfl, rfl⟩ rfl
  obtain ⟨hevents, hlast⟩ := Scanner.run_of_awaits hstart
  unfold lexEvents
  split
  next events e last hrun =>
    rw [hrun] at hevents hlast
    exact Prod.ext hevents ((hlast e).1 rfl).symm
  next events answer last hne hrun =>
    rw [hrun] at hevents hlast
    refine Prod.ext hevents ?_
    cases ho : (Scanner.completed { dialect := d, options } (String.join chunks)).outcome.2 with
    | none => rfl
    | some e => exact absurd ((hlast e).2 ho) (hne e)

/-- Into which pieces a text is cut does not matter to its events. -/
theorem lexEvents_join (d : Dialect) (options : LexOptions) (chunks : List String) :
    lexEvents d options [String.join chunks] = lexEvents d options chunks := by
  rw [lexEvents_eq, lexEvents_eq, String.join_cons, String.join_nil, String.append_empty]

end DualSql
