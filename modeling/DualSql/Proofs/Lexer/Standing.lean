import DualSql.Proofs.Lexer.Inheritance

/-! # Where lexemes stand

A lexeme, and an error in it, tells the place of its first character.

Main definitions: `LexError.position` and `Recogniser.Stands`. Main result:
`lexeme_stands`. -/

namespace DualSql

open Recogniser

/-- The place that an error tells. -/
def LexError.position : LexError → Position
  | unexpectedCharacter _ place | unterminated _ place | invalidLiteral _ _ place
  | unbalancedClose _ place | unclosed _ place => place

/-- An error in the lexeme that starts at a place. -/
structure LexError.At (place : Position) (e : LexError) : Prop where
  position : e.position = place
  inside : ∀ symbol opened, e ≠ .unclosed symbol opened

/-- A lexeme that tells the place where it starts, if it is a token. -/
abbrev Lexeme.StandsAt (place : Position) : Lexeme → Prop :=
  Holds fun t => t.position = place

namespace Recogniser

variable {α β : Type} {place : Position} {P : α → Prop} {Q : β → Prop}

/-- Every failure of a recogniser tells a place. -/
def Fails (place : Position) (p : Recogniser α) : Prop :=
  ∀ closed text e, p closed text = .fail e → e.At place

/-- A recogniser whose answers have a property and whose failures tell a place. -/
structure Stands (place : Position) (P : α → Prop) (p : Recogniser α) : Prop where
  gives : Gives P p
  fails : Fails place p

theorem atEnd_eq_fail {closed : Bool} {r : Scan α} {e : LexError}
    (h : atEnd closed r = .fail e) : r = .fail e := by
  cases closed with
  | true => exact h
  | false => cases h

theorem look_fails (n : Nat) : Fails place (look n) := by
  intro closed text e h
  unfold look at h
  split at h
  · cases h
  · cases atEnd_eq_fail h

theorem take_fails (n : Nat) : Fails place (take n) := by
  intro closed text e h
  unfold take at h
  split at h
  · cases h
  · cases atEnd_eq_fail h

theorem takeWhile_fails (p : Char → Bool) : Fails place (takeWhile p) := by
  intro closed text e h
  unfold takeWhile at h
  dsimp only at h
  split at h
  · cases h
  · cases atEnd_eq_fail h

theorem Fails.ahead {p : Recogniser α} (hp : Fails place p) : Fails place (ahead p) := by
  intro closed text e h
  unfold Recogniser.ahead at h
  split at h
  · cases h
  next e' hfail =>
    cases h
    exact hp _ _ _ hfail
  · cases h

theorem Fails.covered {p : Recogniser α} (hp : Fails place p) : Fails place (covered p) := by
  intro closed text e h
  unfold Recogniser.covered at h
  split at h
  · cases h
  next e' hfail =>
    cases h
    exact hp _ _ _ hfail
  · cases h

theorem widen_eq_fail {r : Scan α} {k : Nat} {e : LexError} (h : r.widen k = .fail e) :
    r = .fail e := by
  cases r with
  | more | done => cases h
  | fail e' => exact h

theorem map_eq_fail {f : α → β} {r : Scan α} {e : LexError} (h : r.map f = .fail e) :
    r = .fail e := by
  cases r with
  | more | done => cases h
  | fail e' =>
      cases h
      rfl

theorem Fails.pure (a : α) : Fails place (Pure.pure a : Recogniser α) := by
  intro closed text e h
  cases h

theorem Fails.fail {e : LexError} (he : e.At place) :
    Fails place (Recogniser.fail e : Recogniser α) := by
  intro closed text e' h
  cases h
  exact he

theorem Fails.bind {p : Recogniser α} {f : α → Recogniser β} (hp : Fails place p)
    (hf : ∀ a, Fails place (f a)) : Fails place (p >>= f) := by
  intro closed text e h
  change andThen p f closed text = .fail e at h
  unfold andThen at h
  split at h
  · cases h
  next e' hfail =>
    cases h
    exact hp _ _ _ hfail
  next a n _ => exact hf a _ _ _ (widen_eq_fail h)

theorem Fails.ite {c : Prop} [Decidable c] {p q : Recogniser α} (hp : Fails place p)
    (hq : Fails place q) : Fails place (if c then p else q) := by
  split
  · exact hp
  · exact hq

theorem Stands.pure {a : α} (h : P a) : Stands place P (Pure.pure a : Recogniser α) :=
  ⟨Gives.pure h, Fails.pure a⟩

theorem Stands.fail {e : LexError} (he : e.At place) :
    Stands place P (Recogniser.fail e : Recogniser α) :=
  ⟨Gives.fail e, Fails.fail he⟩

theorem Stands.bind {p : Recogniser α} {f : α → Recogniser β} (hp : Fails place p)
    (hf : ∀ a, Stands place Q (f a)) : Stands place Q (p >>= f) :=
  ⟨Gives.bind fun a => (hf a).gives, hp.bind fun a => (hf a).fails⟩

theorem Stands.ite {c : Prop} [Decidable c] {p q : Recogniser α} (hp : Stands place P p)
    (hq : Stands place P q) : Stands place P (if c then p else q) :=
  ⟨Gives.ite hp.gives hq.gives, hp.fails.ite hq.fails⟩

end Recogniser

/-! ### Lexemes -/

section Lexemes

variable (ctx : LexContext)

theorem invalid_at (what : Construct) (defect : Defect) :
    LexError.At ctx.start (.invalidLiteral what defect ctx.start) :=
  ⟨rfl, nofun⟩

theorem unterminated_at (what : Construct) : LexError.At ctx.start (.unterminated what ctx.start) :=
  ⟨rfl, nofun⟩

theorem unexpected_at (c : Char) : LexError.At ctx.start (.unexpectedCharacter c ctx.start) :=
  ⟨rfl, nofun⟩

theorem invalid_fails {α : Type} (what : Construct) (defect : Defect) :
    Fails ctx.start (ctx.invalid what defect : Recogniser α) :=
  .fail (invalid_at ctx what defect)

theorem postgresEscape_fails (letter : Char) : Fails ctx.start (postgresEscape ctx letter) := by
  have htake (max : Nat) (p : Char → Bool) : Fails ctx.start (takeUpTo max p) := by
    intro closed text e h
    unfold takeUpTo at h
    dsimp only at h
    split at h
    · cases atEnd_eq_fail h
    · cases h
  unfold postgresEscape
  split
  · exact .pure _
  split
  · exact .pure _
  refine (htake _ _).bind fun more => .ite (.pure _) (.ite (invalid_fails ctx _ _) ?_)
  split
  · exact .pure _
  · exact invalid_fails ctx _ _

theorem quotedBody_fails (quote : Char) (style : EscapeStyle) (what : Construct) :
    Fails ctx.start (quotedBody ctx quote style what) := by
  intro closed text e h
  have hunfinished {e : LexError} (h : (atEnd closed (.fail (.unterminated what ctx.start)) :
      Scan (List Char)) = .fail e) : e.At ctx.start := by
    cases atEnd_eq_fail h
    exact unterminated_at ctx what
  fun_induction quotedBody ctx quote style what closed text with
  | case1 | case5 => exact hunfinished h
  | case2 => cases atEnd_eq_fail h
  | case3 rest ih | case6 _ _ _ _ _ _ ih | case9 _ _ _ _ _ _ _ _ _ ih | case10 _ _ _ _ ih =>
      exact ih (map_eq_fail (widen_eq_fail h))
  | case4 | case7 => cases h
  | case8 _ _ _ letter rest _ e' hfail =>
      cases h
      exact postgresEscape_fails ctx letter closed rest _ hfail

theorem blockCommentBody_fails (depth : Nat) :
    Fails ctx.start fun closed => blockCommentBody ctx closed depth := by
  intro closed text e h
  dsimp only at h
  have hunfinished {e : LexError} (h : (atEnd closed (.fail (.unterminated .blockComment ctx.start)) :
      Scan Unit) = .fail e) : e.At ctx.start := by
    cases atEnd_eq_fail h
    exact unterminated_at ctx .blockComment
  fun_induction blockCommentBody ctx closed depth text with
  | case1 | case2 => exact hunfinished h
  | case3 _ _ _ _ _ ih | case5 _ _ _ _ _ _ _ ih | case6 _ _ _ _ _ _ ih =>
      exact ih (widen_eq_fail h)
  | case4 => cases h

theorem dollarBody_fails (tag : List Char) : Fails ctx.start (dollarBody ctx tag) := by
  intro closed text e h
  induction text generalizing e with
  | nil =>
      cases atEnd_eq_fail h
      exact unterminated_at ctx .dollarString
  | cons c rest ih =>
      rw [dollarBody] at h
      split at h
      · cases h
      · exact ih e (map_eq_fail (widen_eq_fail h))

theorem checkDigits_fails (what : Construct) (digits : List Char) :
    Fails ctx.start (checkDigits ctx what digits) := by
  unfold checkDigits
  dsimp only
  split
  · exact invalid_fails ctx _ _
  · exact .pure _

theorem stringLexeme_stands (quote : Char) (modifier : Option String) :
    Stands ctx.start (Lexeme.StandsAt ctx.start) (stringLexeme ctx quote modifier) :=
  .bind (quotedBody_fails ctx _ _ _) fun _ => .pure rfl

theorem identifierLexeme_stands (quote : Char) :
    Stands ctx.start (Lexeme.StandsAt ctx.start) (identifierLexeme ctx quote) :=
  .bind (quotedBody_fails ctx _ _ _) fun _ => .ite (.fail (invalid_at ctx _ _)) (.pure rfl)

theorem quotedDigits_stands (kind : TokenKind) (marker : String) :
    Stands ctx.start (Lexeme.StandsAt ctx.start) (quotedDigits ctx kind marker) :=
  .bind (quotedBody_fails ctx _ _ _) fun digits =>
    .bind (checkDigits_fails ctx _ digits) fun _ => .pure rfl

theorem blockComment_stands :
    Stands ctx.start (Lexeme.StandsAt ctx.start) (blockComment ctx) :=
  .bind (Fails.covered ((take_fails 1).bind fun _ => blockCommentBody_fails ctx 1)) fun _ => .pure rfl

theorem lineComment_stands (first : Char) :
    Stands ctx.start (Lexeme.StandsAt ctx.start) (lineComment ctx first) :=
  .bind (takeWhile_fails _) fun _ => .pure rfl

theorem operatorLexeme_stands (first : Char) :
    Stands ctx.start (Lexeme.StandsAt ctx.start) (operatorLexeme ctx first) := by
  refine .bind (takeWhile_fails _).ahead fun run => ?_
  dsimp only
  split
  · exact .fail (unexpected_at ctx first)
  · exact .bind (take_fails _) fun _ => .pure rfl

theorem dollarString_stands (width : Nat) :
    Stands ctx.start (Lexeme.StandsAt ctx.start) (dollarString ctx width) :=
  .bind (take_fails _) fun _ => .bind (dollarBody_fails ctx _) fun _ => .pure rfl

theorem dollarLexeme_stands :
    Stands ctx.start (Lexeme.StandsAt ctx.start) (dollarLexeme ctx) := by
  refine .bind (look_fails 0) fun c => ?_
  split
  · exact .pure rfl
  · refine .ite (.bind (takeWhile_fails _) fun _ => .pure rfl)
      (.ite (dollarString_stands ctx 1) (.ite ?_ (.pure rfl)))
    exact .bind (takeWhile_fails _).ahead fun name => .bind (look_fails _) fun _ =>
      .ite (dollarString_stands ctx _) (.pure rfl)

theorem variableName_stands (marker : String) :
    Stands ctx.start (Lexeme.StandsAt ctx.start) (variableName ctx marker) := by
  refine .bind (look_fails 0) fun c => ?_
  split
  · exact .fail (unexpected_at ctx '@')
  · refine .ite ?_ (.ite (.bind (takeWhile_fails _) fun _ => .pure rfl)
      (.fail (unexpected_at ctx '@')))
    exact .bind ((take_fails 1).bind fun _ => quotedBody_fails ctx _ _ _) fun _ => .pure rfl

theorem variableLexeme_stands :
    Stands ctx.start (Lexeme.StandsAt ctx.start) (variableLexeme ctx) :=
  .bind (look_fails 0) fun _ =>
    .ite (.bind (take_fails 1) fun _ => variableName_stands ctx _) (variableName_stands ctx _)

theorem exponent_fails : Fails ctx.start (exponent ctx) := by
  have hdigits : Fails ctx.start (exponentDigits ctx) :=
    (look_fails 0).bind fun _ => .ite ((takeWhile_fails _).bind fun _ => .pure _)
      (invalid_fails ctx _ _)
  refine (look_fails 0).bind fun mark => .ite ?_ (.pure _)
  exact (take_fails 1).bind fun _ => (look_fails 0).bind fun _ =>
    .ite ((take_fails 1).bind fun _ => hdigits) hdigits

theorem numberLexeme_stands (first : Char) :
    Stands ctx.start (Lexeme.StandsAt ctx.start) (numberLexeme ctx first) := by
  have hfraction : Fails ctx.start (fraction ctx) :=
    (takeWhile_fails _).bind fun _ => (look_fails 0).bind fun _ =>
      .ite (invalid_fails ctx _ _) (exponent_fails ctx)
  have htail : Fails ctx.start (numberTail ctx first) :=
    .ite hfraction ((takeWhile_fails _).bind fun _ => (look_fails 0).bind fun _ =>
      .ite ((take_fails 1).bind fun _ => hfraction) (exponent_fails ctx))
  exact .bind htail.covered fun _ => .pure rfl

theorem basedLexeme_stands (letter : Char) :
    Stands ctx.start (Lexeme.StandsAt ctx.start) (basedLexeme ctx letter) := by
  unfold basedLexeme
  dsimp only
  refine .bind (take_fails 1) fun _ => .bind (takeWhile_fails _) fun digits =>
    .ite (.fail (invalid_at ctx _ _)) ?_
  exact .bind (checkDigits_fails ctx _ digits) fun _ => .pure rfl

theorem introducedLiteral_stands {word : List Char} {literal : Recogniser Lexeme}
    (h : introducedLiteral? ctx word = some literal) :
    Stands ctx.start (Lexeme.StandsAt ctx.start) literal := by
  have hstring (modifier : Option String) :=
    Stands.bind (take_fails 1) fun _ => stringLexeme_stands ctx '\'' modifier
  have hdigits (kind : TokenKind) (marker : String) :=
    Stands.bind (take_fails 1) fun _ => quotedDigits_stands ctx kind marker
  unfold introducedLiteral? at h
  dsimp only at h
  split at h
  · cases h
    exact hstring _
  split at h
  · cases h
    exact hstring _
  split at h
  · cases h
    exact hdigits _ _
  split at h
  · cases h
    exact hdigits _ _
  split at h
  · cases h
    exact hstring _
  · cases h

theorem wordLexeme_stands (first : Char) :
    Stands ctx.start (Lexeme.StandsAt ctx.start) (wordLexeme ctx first) := by
  have hbare (word : List Char) : (bareWord ctx word).StandsAt ctx.start := by
    unfold bareWord
    dsimp only
    split <;> rfl
  refine .bind (takeWhile_fails _) fun rest => .bind (look_fails 0) fun c =>
    .ite ?_ (.pure (hbare _))
  cases h : introducedLiteral? ctx (first :: rest) with
  | none => exact .pure (hbare _)
  | some literal => exact introducedLiteral_stands ctx h

theorem ordinaryLexeme_stands (c : Char) :
    Stands ctx.start (Lexeme.StandsAt ctx.start) (ordinaryLexeme ctx c) := by
  unfold ordinaryLexeme
  refine .ite (lineComment_stands ctx _) (.ite (stringLexeme_stands ctx _ _) ?_)
  refine .ite (.ite (identifierLexeme_stands ctx _) (stringLexeme_stands ctx _ _)) ?_
  refine .ite (identifierLexeme_stands ctx _) (.ite (dollarLexeme_stands ctx) ?_)
  refine .ite (.pure rfl) (.ite (variableLexeme_stands ctx) ?_)
  refine .ite (numberLexeme_stands ctx _) (.ite (.pure rfl) ?_)
  split
  · exact .pure trivial
  · exact .pure trivial
  · exact .ite (wordLexeme_stands ctx _)
      (.ite (operatorLexeme_stands ctx _) (.fail (unexpected_at ctx c)))

/-- A lexeme tells the place where it starts, and so does an error in it. -/
theorem lexeme_stands (c : Char) :
    Stands ctx.start (Lexeme.StandsAt ctx.start) (lexeme ctx c) := by
  have hordinary := ordinaryLexeme_stands ctx c
  have hdashes : Fails ctx.start (dashesStartComment ctx) := by
    unfold dashesStartComment
    split
    · exact .pure _
    · exact (look_fails 1).bind fun c => by split <;> exact .pure _
  have hpoint : Fails ctx.start (dotStartsNumber ctx) :=
    .ite (.pure _) ((look_fails 0).bind fun _ => .pure _)
  unfold lexeme
  refine .ite (.bind (takeWhile_fails _) fun _ => .pure rfl) (.ite ?_ (.ite ?_ (.ite ?_ ?_)))
  · exact .bind (look_fails 0) fun next => .ite
      (.bind hdashes fun starts => .ite (lineComment_stands ctx c) hordinary) hordinary
  · exact .bind (look_fails 0) fun next => .ite (blockComment_stands ctx) hordinary
  · refine .bind (look_fails 0) fun next => ?_
    split
    · exact basedLexeme_stands ctx 'x'
    · exact basedLexeme_stands ctx 'b'
    · exact hordinary
  · exact .ite (.bind hpoint fun starts => .ite (numberLexeme_stands ctx c) hordinary) hordinary

end Lexemes

end DualSql
