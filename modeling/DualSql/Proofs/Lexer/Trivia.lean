import DualSql.Proofs.Lexer.Digest

/-! # Runs with and without trivia

Whitespace and comments can be delivered or left out. Whitespace may stand
between the words of a phrase while they wait, so the words that wait differ,
but not the phrases that they form.

Main definition: `Event.isSignificant`. Main result: `lexEvents_withoutTrivia`. -/

namespace DualSql

/-- Whether a token is neither whitespace nor a comment. -/
def Token.isSignificant (t : Token) : Bool :=
  !t.kind.isTrivia

/-- Whether an event is neither whitespace nor a comment. -/
def Event.isSignificant : Event → Bool
  | .token t => t.isSignificant
  | .opened .. | .closed .. => true

/-- The options under which neither whitespace nor comments are delivered. -/
def LexOptions.withoutTrivia (o : LexOptions) : LexOptions :=
  { o with emitWhitespace := false, emitComments := false }

namespace Phrase

variable (d : Dialect)

theorem spelling_filter (words : List Token) :
    spelling (words.filter Token.isSignificant) = spelling words := by
  unfold spelling
  rw [List.filter_filter]
  simp only [Token.isSignificant, Bool.and_self]

theorem mayGrow_filter (words : List Token) :
    mayGrow d (words.filter Token.isSignificant) = mayGrow d words := by
  rw [mayGrow, spelling_filter, mayGrow]

/-- Compounds found among words with and without the trivia between them. -/
inductive Found.Alike (words : List Token) : Option Found → Option Found → Prop
  | none : Alike words none none
  | some (phrase : String) (kind : TokenKind) (extent : Nat) :
      Alike words (some ⟨phrase, kind, extent⟩)
        (some ⟨phrase, kind, ((words.take extent).filter Token.isSignificant).length⟩)

/-- The same compound is found when the trivia is left out. -/
theorem longest_filter (phrase : String) (seen words : List Token) {best best' : Option Found}
    (h : Found.Alike (seen ++ words) best best') :
    Found.Alike (seen ++ words) (longest d phrase seen.length best words)
      (longest d phrase (seen.filter Token.isSignificant).length best'
        (words.filter Token.isSignificant)) := by
  induction words generalizing phrase seen best best' with
  | nil => exact h
  | cons t rest ih =>
      have hseen : seen ++ t :: rest = (seen ++ [t]) ++ rest := by simp
      rw [hseen] at h ⊢
      cases ht : t.kind.isTrivia with
      | true =>
          have hnot : t.isSignificant = false := by simp [Token.isSignificant, ht]
          have hrest := ih phrase (seen ++ [t]) h
          rw [List.length_append, List.filter_append] at hrest
          simpa [longest, ht, hnot] using hrest
      | false =>
          have hsig : t.isSignificant = true := by simp [Token.isSignificant, ht]
          rw [List.filter_cons_of_pos hsig, longest, longest]
          simp only [ht, Bool.false_eq_true, if_false]
          have hlength : ((seen ++ [t]).filter Token.isSignificant).length =
              (seen.filter Token.isSignificant).length + 1 := by
            simp [hsig]
          cases (Vocabulary.phrase d (phrase ++ " " ++ Text.toUpper t.value)).complete with
          | none =>
              have hrest := ih (phrase ++ " " ++ Text.toUpper t.value) (seen ++ [t]) h
              rwa [hlength, List.length_append] at hrest
          | some kind =>
              have htake : ((seen ++ [t]) ++ rest).take (seen.length + 1) = seen ++ [t] := by
                rw [List.take_append_of_le_length (by simp), List.take_of_length_le (by simp)]
              have hbest : Found.Alike ((seen ++ [t]) ++ rest) _ _ :=
                .some (phrase ++ " " ++ Text.toUpper t.value) kind (seen.length + 1)
              rw [htake, hlength] at hbest
              have hrest := ih (phrase ++ " " ++ Text.toUpper t.value) (seen ++ [t]) hbest
              rwa [hlength, List.length_append] at hrest

/-- The first token that words form is the same when the trivia is left out,
and so is what stands behind it. -/
theorem head_filter (word : Token) (rest : List Token) :
    (head d word (rest.filter Token.isSignificant)).1 = (head d word rest).1 ∧
      (rest.filter Token.isSignificant).drop
          (head d word (rest.filter Token.isSignificant)).2 =
        (rest.drop (head d word rest).2).filter Token.isSignificant := by
  have hfound := longest_filter d (Text.toUpper word.value) [] rest .none
  simp only [List.length_nil, List.filter_nil, List.nil_append] at hfound
  unfold head
  revert hfound
  generalize longest d (Text.toUpper word.value) 0 none rest = found
  generalize longest d (Text.toUpper word.value) 0 none (rest.filter Token.isSignificant) = found'
  intro hfound
  cases hfound with
  | none => exact ⟨rfl, rfl⟩
  | some phrase kind extent =>
      refine ⟨rfl, ?_⟩
      have hsplit := congrArg (List.filter Token.isSignificant) (List.take_append_drop extent rest)
      rw [List.filter_append] at hsplit
      rw [← hsplit, List.drop_left]

/-- Whether a token is significant is known of those that words form. -/
theorem isSignificant_head {word : Token} (rest : List Token) (h : word.isSignificant = true) :
    (head d word rest).1.isSignificant = true := by
  unfold head
  split
  next found hfound =>
    have hcomplete := longest_complete hfound nofun
    have htrivia := Vocabulary.isTrivia_of_complete hcomplete
    simp [Token.isSignificant, compound, htrivia]
  next =>
    unfold single
    split <;> exact h

/-- Words are settled alike when the trivia is left out. -/
theorem settle_filter (final : Bool) (words : List Token) :
    settle d final (words.filter Token.isSignificant) =
      ((settle d final words).1.filter Token.isSignificant,
        (settle d final words).2.filter Token.isSignificant) := by
  fun_induction settle d final words with
  | case1 => rw [List.filter_nil, settle]
  | case2 t rest ht out waiting h ih =>
      have hnot : ¬t.isSignificant = true := by simp [Token.isSignificant, ht]
      rw [List.filter_cons_of_neg hnot, ih, h, List.filter_cons_of_neg hnot]
  | case3 t rest ht hgrow =>
      have hsig : t.isSignificant = true := by simpa [Token.isSignificant] using ht
      have hgrow' : (!final && mayGrow d (t :: rest.filter Token.isSignificant)) = true := by
        rwa [← List.filter_cons_of_pos hsig, mayGrow_filter]
      rw [List.filter_cons_of_pos hsig, settle, if_neg ht, if_pos hgrow', List.filter_nil]
  | case4 t rest ht hgrow first extent hhead out waiting h ih =>
      have hsig : t.isSignificant = true := by simpa [Token.isSignificant] using ht
      have hgrow' : ¬(!final && mayGrow d (t :: rest.filter Token.isSignificant)) = true := by
        rwa [← List.filter_cons_of_pos hsig, mayGrow_filter]
      obtain ⟨hfirst, hdrop⟩ := head_filter d t rest
      have hfirstSig := isSignificant_head d rest hsig
      cases hhead' : head d t (rest.filter Token.isSignificant) with
      | mk first' extent' =>
          rw [hhead, hhead'] at hfirst hdrop
          rw [hhead] at hfirstSig
          obtain rfl : first' = first := hfirst
          rw [List.filter_cons_of_pos hsig, settle, if_neg ht, if_neg hgrow', hhead']
          simp only [hdrop, ih, h, List.filter_cons_of_pos hfirstSig]

/-- Words that wait go on waiting as long as none is added. -/
theorem settle_waiting (final : Bool) (words : List Token) :
    settle d false (settle d final words).2 = ([], (settle d final words).2) := by
  fun_induction settle d final words with
  | case1 => rw [settle]
  | case2 t rest ht out waiting h ih => rwa [h] at ih
  | case3 t rest ht hgrow =>
      have hgrow' : (!false && mayGrow d (t :: rest)) = true := by
        simpa using (Bool.and_eq_true_iff.1 hgrow).2
      rw [settle, if_neg ht, if_pos hgrow']
  | case4 t rest ht hgrow first extent hhead out waiting h ih => rwa [h] at ih

end Phrase

namespace Scanner

/-- The scanner as it is when trivia is left out. -/
def stripped (s : Scanner) : Scanner :=
  { s with
    options := s.options.withoutTrivia
    words := s.words.filter Token.isSignificant
    ready := s.ready.filter Event.isSignificant }

/-- A scanner and the one in its place when trivia is left out. Only words
that may still grow wait in it. -/
structure Stripped (s p : Scanner) : Prop where
  eq : p = s.stripped
  waiting : Phrase.settle p.dialect false p.words = ([], p.words)

theorem filter_tokens (tokens : List Token) :
    (tokens.map Event.token).filter Event.isSignificant =
      (tokens.filter Token.isSignificant).map Event.token := by
  rw [List.filter_map]
  rfl

namespace Stripped

variable {s p : Scanner}

/-- Settling words is the same when trivia is left out. -/
theorem settled (h : Stripped s p) (final : Bool) (words : List Token) :
    Stripped
      { s with
        words := (Phrase.settle s.dialect final words).2
        ready := s.ready ++ (Phrase.settle s.dialect final words).1.map .token }
      { p with
        words := (Phrase.settle p.dialect final (words.filter Token.isSignificant)).2
        ready := p.ready ++
          (Phrase.settle p.dialect final (words.filter Token.isSignificant)).1.map .token } := by
  obtain ⟨rfl, -⟩ := h
  refine ⟨?_, Phrase.settle_waiting _ final _⟩
  have hfilter := Phrase.settle_filter s.dialect final words
  simp only [stripped, hfilter, List.filter_append, filter_tokens]

theorem wait (h : Stripped s p) {t : Token} (ht : t.isSignificant = true) :
    Stripped (s.wait t) (p.wait t) := by
  have hsettled := h.settled false (s.words ++ [t])
  rw [List.filter_append, List.filter_cons_of_pos ht, List.filter_nil] at hsettled
  obtain ⟨rfl, -⟩ := h
  exact hsettled

/-- Trivia that waits with the words does not matter to them. -/
theorem wait_trivia (h : Stripped s p) {t : Token} (ht : t.isSignificant = false) :
    Stripped (s.wait t) p := by
  have hsettled := h.settled false (s.words ++ [t])
  have hwaiting := h.waiting
  rw [List.filter_append, List.filter_cons_of_neg (by simp [ht]), List.filter_nil,
    List.append_nil] at hsettled
  have hwords : p.words = s.words.filter Token.isSignificant := by rw [h.eq]; rfl
  rw [← hwords, hwaiting, List.map_nil, List.append_nil] at hsettled
  exact hsettled

theorem flush (h : Stripped s p) : Stripped s.flush p.flush := by
  have hsettled := h.settled true s.words
  obtain ⟨rfl, -⟩ := h
  exact hsettled

theorem deliver (h : Stripped s p) {e : Event} (he : e.isSignificant = true) :
    Stripped (s.deliver e) (p.deliver e) := by
  obtain ⟨heq, hwaiting⟩ := h.flush
  refine ⟨?_, hwaiting⟩
  rw [Scanner.deliver, heq]
  simp only [Scanner.deliver, stripped, List.filter_append, List.filter_cons_of_pos he,
    List.filter_nil]

/-- A comment ends a phrase whether it is delivered or not. -/
theorem deliver_trivia (h : Stripped s p) {t : Token} (ht : t.isSignificant = false) :
    Stripped (s.deliver (.token t)) p.flush := by
  obtain ⟨heq, hwaiting⟩ := h.flush
  refine ⟨?_, hwaiting⟩
  have hnot : ¬(Event.token t).isSignificant = true := by simp [Event.isSignificant, ht]
  rw [heq]
  simp only [Scanner.deliver, stripped, List.filter_append, List.filter_cons_of_neg hnot,
    List.filter_nil, List.append_nil]

theorem spacePending (h : Stripped s p) (spacePending : Bool) :
    Stripped { s with spacePending } { p with spacePending } := by
  obtain ⟨rfl, hwaiting⟩ := h
  exact ⟨rfl, hwaiting⟩

theorem nesting (h : Stripped s p) (nesting : List (Bracket × Position)) :
    Stripped { s with nesting } { p with nesting } := by
  obtain ⟨rfl, hwaiting⟩ := h
  exact ⟨rfl, hwaiting⟩

theorem spacePending_eq (h : Stripped s p) : p.spacePending = s.spacePending := by
  rw [h.eq]
  rfl

theorem nesting_eq (h : Stripped s p) : p.nesting = s.nesting := by
  rw [h.eq]
  rfl

theorem options_eq (h : Stripped s p) : p.options = s.options.withoutTrivia := by
  rw [h.eq]
  rfl

theorem stageContent (h : Stripped s p) {t : Token} (ht : t.isSignificant = true) :
    Stripped (s.stageContent t) (p.stageContent t) := by
  unfold Scanner.stageContent
  dsimp only
  rw [h.spacePending_eq]
  split
  · exact (h.spacePending false).wait ht
  · exact (h.spacePending false).deliver ht

theorem stage (h : Stripped s p) (t : Token) : Stripped (s.stage t) (p.stage t) := by
  have hwhitespace : p.options.emitWhitespace = false := by rw [h.options_eq]; rfl
  have hcomments : p.options.emitComments = false := by rw [h.options_eq]; rfl
  have hpending := h.spacePending true
  unfold Scanner.stage
  split
  next hkind =>
    have ht : t.isSignificant = false := by simp [Token.isSignificant, hkind, TokenKind.isTrivia]
    dsimp only
    rw [hwhitespace, if_neg Bool.false_ne_true]
    split
    · exact hpending.wait_trivia ht
    · exact hpending
  next hkind =>
    have ht : t.isSignificant = false := by simp [Token.isSignificant, hkind, TokenKind.isTrivia]
    dsimp only
    rw [hcomments, if_neg Bool.false_ne_true]
    split
    · exact hpending.deliver_trivia ht
    · exact hpending.flush
  next hnotWhitespace hnotComment =>
    refine h.stageContent ?_
    cases hkind : t.kind <;> simp_all [Token.isSignificant, TokenKind.isTrivia]

theorem openBlock (h : Stripped s p) (b : Bracket) (place : Position) :
    Stripped (s.openBlock b place) (p.openBlock b place) := by
  have hstructured : p.options.structured = s.options.structured := by rw [h.options_eq]; rfl
  unfold Scanner.openBlock
  dsimp only
  rw [hstructured, h.nesting_eq]
  have hopen := h.nesting ((b, place) :: s.nesting)
  split
  · rw [h.spacePending_eq]
    exact (hopen.deliver rfl).spacePending false
  · refine hopen.stageContent ?_
    rfl

theorem closeBlock (h : Stripped s p) (b : Bracket) (place : Position) :
    Stripped (s.closeBlock b place) (p.closeBlock b place) := by
  have hstructured : p.options.structured = s.options.structured := by rw [h.options_eq]; rfl
  unfold Scanner.closeBlock
  dsimp only
  rw [hstructured, h.nesting_eq]
  have hclose := h.nesting s.nesting.tail
  split
  · exact (hclose.deliver rfl).spacePending false
  · refine hclose.stageContent ?_
    rfl

end Stripped

/-- Scanners that deliver trivia and that do not stay in step. -/
theorem simulation_stripped : Simulation Stripped where
  unread h := h.eq ▸ rfl
  position h := h.eq ▸ rfl
  nesting h := h.nesting_eq
  lexeme h := by
    rw [h.eq]
    exact lexeme_context rfl rfl rfl rfl rfl
  stage t h := h.stage t
  openBlock b place h := h.openBlock b place
  closeBlock b place h := h.closeBlock b place
  skip c rest width h := by
    obtain ⟨rfl, hwaiting⟩ := h
    exact ⟨rfl, hwaiting⟩
  flush h := h.flush

end Scanner

/-- A run with trivia ends like the run without it, and its other events are
those of the run without it. -/
theorem lexEvents_withoutTrivia (d : Dialect) (options : LexOptions) (chunks : List String) :
    lexEvents d options.withoutTrivia chunks =
      ((lexEvents d options chunks).1.filter Event.isSignificant,
        (lexEvents d options chunks).2) := by
  have hstart : Scanner.Stripped
      (.completed { dialect := d, options } (String.join chunks))
      (.completed { dialect := d, options := options.withoutTrivia } (String.join chunks)) := by
    refine ⟨rfl, ?_⟩
    change Phrase.settle d false [] = _
    rw [Phrase.settle]
    rfl
  obtain ⟨hready, hend⟩ := Scanner.simulation_stripped.digest hstart
  rw [lexEvents_eq, lexEvents_eq]
  refine Prod.ext ?_ hend
  change Scanner.ready _ = _
  rw [hready.eq]
  rfl

end DualSql
