import DualSql.Proofs.Lexer.Digest

/-! # What tokens have from their lexemes

What holds of every token that is read as a lexeme, and passes from words to the
phrases that they form, holds of every token of a run.

Main definition: `Token.Inherited`. Main result: `Token.Inherited.of_mem_lexEvents`. -/

namespace DualSql

open Recogniser

/-- A lexeme with a property, if it is a token. -/
def Lexeme.Holds (Q : Token → Prop) : Lexeme → Prop
  | .token t => Q t
  | .opening _ | .closing _ => True

/-- What tokens have from their lexemes, single brackets included. -/
structure Token.Inherited (d : Dialect) (Q : Token → Prop) : Prop where
  lexeme (ctx : LexContext) (c : Char) (hd : ctx.dialect = d) :
    Gives (Lexeme.Holds Q) (DualSql.lexeme ctx c)
  bracket (b : Bracket) (place : Position) :
    Q { kind := .punctuation, value := b.opener.toString, position := place } ∧
      Q { kind := .punctuation, value := b.closer.toString, position := place }
  spaced {t : Token} (spaceBefore : Bool) (h : Q t) : Q { t with spaceBefore }
  head {word : Token} (rest : List Token) (h : Q word) : Q (Phrase.head d word rest).1

/-- What words form is a phrase that the dialect lists, or the first of them. -/
theorem Phrase.head_cases (d : Dialect) (word : Token) (rest : List Token) :
    (∃ found : Found, (Vocabulary.phrase d found.phrase).complete = some found.kind ∧
        (head d word rest).1 = compound d word found) ∨
      (word.kind = .keyword ∧
        (head d word rest).1 = { word with operator := Vocabulary.operator? d word.value }) ∨
      (head d word rest).1 = word := by
  unfold head
  split
  next found hfound => exact .inl ⟨found, longest_complete hfound nofun, rfl⟩
  next =>
    unfold single
    split
    next hkeyword => exact .inr (.inl ⟨hkeyword, rfl⟩)
    next => exact .inr (.inr rfl)

namespace Scanner

/-- A scanner whose tokens have a property. -/
structure Holds (d : Dialect) (Q : Token → Prop) (s : Scanner) : Prop where
  dialect : s.dialect = d
  words : ∀ t ∈ s.words, Q t
  ready : ∀ t, .token t ∈ s.ready → Q t

namespace Holds

variable {d : Dialect} {Q : Token → Prop} {s s' : Scanner}

theorem tokens (h : s.Holds d Q) {words out : List Token} (hwords : ∀ t ∈ words, Q t)
    (hout : ∀ t ∈ out, Q t) :
    Holds d Q { s with words, ready := s.ready ++ out.map .token } where
  dialect := h.dialect
  words := hwords
  ready t ht := by
    rcases List.mem_append.1 ht with ht | ht
    · exact h.ready t ht
    · obtain ⟨u, hu, ⟨⟩⟩ := List.mem_map.1 ht
      exact hout _ hu

theorem settled (h : s.Holds d Q) (inherited : Token.Inherited d Q) (final : Bool)
    {words : List Token} (hwords : ∀ t ∈ words, Q t) :
    Holds d Q
      { s with
        words := (Phrase.settle s.dialect final words).2
        ready := s.ready ++ (Phrase.settle s.dialect final words).1.map .token } := by
  obtain rfl := h.dialect
  have hsettle := Phrase.settle_forall final (fun _ rest => inherited.head rest) hwords
  exact h.tokens hsettle.2 hsettle.1

theorem wait (h : s.Holds d Q) (inherited : Token.Inherited d Q) {t : Token} (ht : Q t) :
    (s.wait t).Holds d Q := by
  refine h.settled inherited false ?_
  simpa [or_imp, forall_and] using ⟨h.words, ht⟩

theorem flush (h : s.Holds d Q) (inherited : Token.Inherited d Q) : s.flush.Holds d Q :=
  h.settled inherited true h.words

theorem deliver (h : s.Holds d Q) (inherited : Token.Inherited d Q) {e : Event}
    (he : ∀ t, e = .token t → Q t) : (s.deliver e).Holds d Q where
  dialect := h.dialect
  words := (h.flush inherited).words
  ready t ht := by
    rcases List.mem_append.1 ht with ht | ht
    · exact (h.flush inherited).ready t ht
    · exact he t (List.mem_singleton.1 ht).symm

theorem spacePending (h : s.Holds d Q) (spacePending : Bool) :
    Holds d Q { s with spacePending } :=
  ⟨h.dialect, h.words, h.ready⟩

theorem nesting (h : s.Holds d Q) (nesting : List (Bracket × Position)) :
    Holds d Q { s with nesting } :=
  ⟨h.dialect, h.words, h.ready⟩

theorem stageContent (h : s.Holds d Q) (inherited : Token.Inherited d Q) {t : Token} (ht : Q t) :
    (s.stageContent t).Holds d Q := by
  have ht' := inherited.spaced s.spacePending ht
  unfold Scanner.stageContent
  dsimp only
  split
  · exact (h.spacePending false).wait inherited ht'
  · refine (h.spacePending false).deliver inherited fun u hu => ?_
    cases hu
    exact ht'

theorem stage (h : s.Holds d Q) (inherited : Token.Inherited d Q) {t : Token} (ht : Q t) :
    (s.stage t).Holds d Q := by
  unfold Scanner.stage
  split
  · dsimp only
    split
    · exact (h.spacePending true).wait inherited ht
    · exact h.spacePending true
  · dsimp only
    split
    · refine (h.spacePending true).deliver inherited fun u hu => ?_
      cases hu
      exact ht
    · exact (h.spacePending true).flush inherited
  · exact h.stageContent inherited ht

theorem openBlock (h : s.Holds d Q) (inherited : Token.Inherited d Q) (b : Bracket)
    (place : Position) : (s.openBlock b place).Holds d Q := by
  have h' := h.nesting ((b, place) :: s.nesting)
  unfold Scanner.openBlock
  dsimp only
  split
  · have hevent (t : Token) (ht : Event.opened b place s.spacePending = .token t) : Q t := by
      cases ht
    exact (h'.deliver inherited hevent).spacePending false
  · exact h'.stageContent inherited (inherited.bracket b place).1

theorem closeBlock (h : s.Holds d Q) (inherited : Token.Inherited d Q) (b : Bracket)
    (place : Position) : (s.closeBlock b place).Holds d Q := by
  have h' := h.nesting s.nesting.tail
  unfold Scanner.closeBlock
  dsimp only
  split
  · have hevent (t : Token) (ht : Event.closed b place = .token t) : Q t := by
      cases ht
    exact (h'.deliver inherited hevent).spacePending false
  · exact h'.stageContent inherited (inherited.bracket b place).2

theorem accept (h : s.Holds d Q) (inherited : Token.Inherited d Q) {place : Position}
    {lx : Lexeme} (hlx : lx.Holds Q) (ha : s.accept place lx = .ok s') : s'.Holds d Q := by
  cases lx with
  | token t =>
      cases ha
      exact h.stage inherited hlx
  | opening b =>
      cases ha
      exact h.openBlock inherited b place
  | closing b =>
      rw [Scanner.accept] at ha
      split at ha
      · cases ha
        exact h.closeBlock inherited b place
      · cases ha

theorem digest (h : s.Holds d Q) (inherited : Token.Inherited d Q) : s.digest.1.Holds d Q := by
  fun_induction Scanner.digest s with
  | case1 | case3 | case4 | case5 => exact h
  | case2 => exact h.flush inherited
  | case6 s c rest _ lx width hlx s' ha ih =>
      have hholds := inherited.lexeme s.context c h.dialect _ _ _ _ hlx
      obtain ⟨hdialect, hwords, hready⟩ := h.accept inherited hholds ha
      exact ih ⟨hdialect, hwords, hready⟩

end Holds

end Scanner

/-- What tokens have from their lexemes, all tokens of a text have. -/
theorem Token.Inherited.of_mem_lexEvents {d : Dialect} {Q : Token → Prop}
    (inherited : Token.Inherited d Q) {options : LexOptions} {chunks : List String} {t : Token}
    (ht : .token t ∈ (lexEvents d options chunks).1) : Q t := by
  have hstart : Scanner.Holds d Q (.completed { dialect := d, options } (String.join chunks)) :=
    ⟨rfl, fun t ht => (by cases ht), fun t ht => (by cases ht)⟩
  rw [lexEvents_eq, Scanner.outcome] at ht
  exact (hstart.digest inherited).ready t ht

end DualSql
