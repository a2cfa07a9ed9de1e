import DualSql.Proofs.Lexer.Digest

/-! # Places in a text

A token tells its place and whether a blank stands before it. Nothing else that is read
depends on where in a text the reading takes place: scanners before the same text that
differ in places alone read the same.

Main definitions: `reading` and `Scanner.Alike`. Main results: `lexeme_alike` and
`Scanner.Alike.digest`. -/

namespace DualSql

/-! ### What is read, apart from places -/

/-- A token without its place and the blank before it. -/
def Token.bare (t : Token) : Token :=
  { t with position := .start, spaceBefore := false }

/-- A lexeme without its place. -/
def Lexeme.bare : Lexeme → Lexeme
  | .token t => .token t.bare
  | lx => lx

/-- An event without its place and the blank before it. -/
def Event.bare : Event → Event
  | .token t => .token t.bare
  | .opened b _ _ => .opened b .start false
  | .closed b _ => .closed b .start

/-- An error without its place. -/
def LexError.bare : LexError → LexError
  | .unexpectedCharacter c _ => .unexpectedCharacter c .start
  | .unterminated what _ => .unterminated what .start
  | .invalidLiteral what defect _ => .invalidLiteral what defect .start
  | .unbalancedClose symbol _ => .unbalancedClose symbol .start
  | .unclosed symbol _ => .unclosed symbol .start

/-- What a text is read as, apart from places and the blanks between tokens. -/
def reading (d : Dialect) (text : String) : List Event × Option LexError :=
  let (events, error) := lexEvents d (.ofDialect d) [text]
  (events.map Event.bare, error.map LexError.bare)

/-! ### Recognisers -/

namespace Scan

variable {α β : Type}

/-- An answer of which a part of the value counts, and of an error all but its place. -/
def bare (f : α → β) : Scan α → Scan β
  | more => more
  | fail e => fail e.bare
  | done a n => done (f a) n

variable {r : Scan α} {f : α → β} {e : LexError} {b : β} {n : Nat}

theorem bare_eq_more : r.bare f = .more ↔ r = .more := by
  cases r <;> simp [bare]

theorem bare_eq_fail : r.bare f = .fail e ↔ ∃ e', r = .fail e' ∧ e'.bare = e := by
  cases r <;> simp [bare]

theorem bare_eq_done : r.bare f = .done b n ↔ ∃ a, r = .done a n ∧ f a = b := by
  cases r with
  | more | fail => simp [bare]
  | done a m =>
      simp only [bare, done.injEq]
      constructor
      · rintro ⟨hb, rfl⟩
        exact ⟨a, ⟨rfl, rfl⟩, hb⟩
      · rintro ⟨a', ⟨rfl, rfl⟩, hb⟩
        exact ⟨hb, rfl⟩

theorem bare_map_congr {γ : Type} {r r' : Scan α} {f : α → β} {g : β → γ}
    (h : r.bare id = r'.bare id) : (r.map f).bare g = (r'.map f).bare g := by
  cases r <;> cases r' <;> simp_all [bare, map]

theorem bare_widen_congr {r r' : Scan α} {f : α → β} (h : r.bare f = r'.bare f) (k : Nat) :
    (r.widen k).bare f = (r'.widen k).bare f := by
  cases r <;> cases r' <;> simp_all [bare, widen]

theorem bare_atEnd_congr {r r' : Scan α} {f : α → β} (h : r.bare f = r'.bare f) (closed : Bool) :
    (Recogniser.atEnd closed r).bare f = (Recogniser.atEnd closed r').bare f := by
  cases closed with
  | true => exact h
  | false => rfl

end Scan

namespace Recogniser

variable {α β γ : Type}

/-- Recognisers whose answers differ in places alone. Of the value only a part counts. -/
def Alike (f : α → β) (p q : Recogniser α) : Prop :=
  ∀ closed text, (p closed text).bare f = (q closed text).bare f

theorem Alike.refl (f : α → β) (p : Recogniser α) : Alike f p p :=
  fun _ _ => rfl

theorem Alike.pure {f : α → β} {a b : α} (h : f a = f b) :
    Alike f (Pure.pure a : Recogniser α) (Pure.pure b) :=
  fun _ _ => congrArg (Scan.done · 0) h

theorem Alike.fail {f : α → β} {e e' : LexError} (h : e.bare = e'.bare) :
    Alike f (Recogniser.fail e) (Recogniser.fail e') :=
  fun _ _ => congrArg Scan.fail h

theorem Alike.bind {g : β → γ} {p q : Recogniser α} {f f' : α → Recogniser β}
    (h : Alike id p q) (hf : ∀ a, Alike g (f a) (f' a)) : Alike g (p >>= f) (q >>= f') := by
  intro closed text
  have hq := (h closed text).symm
  change Scan.bare g (andThen p f closed text) = Scan.bare g (andThen q f' closed text)
  unfold andThen
  cases hp : p closed text with
  | more =>
      rw [hp] at hq
      rw [Scan.bare_eq_more.1 hq]
  | fail e =>
      rw [hp] at hq
      obtain ⟨e', hq, he⟩ := Scan.bare_eq_fail.1 hq
      rw [hq]
      exact congrArg Scan.fail he.symm
  | done a n =>
      rw [hp] at hq
      obtain ⟨a', hdone, ha⟩ := Scan.bare_eq_done.1 hq
      obtain rfl : a' = a := ha
      rw [hdone]
      exact Scan.bare_widen_congr (hf a' closed (text.drop n)) n

/-- Before one text it is enough that the first steps answer alike there. -/
theorem Alike.bind_at {g : β → γ} {p q : Recogniser α} {f f' : α → Recogniser β} {closed : Bool}
    {text : List Char} (h : p closed text = q closed text) (hf : ∀ a, Alike g (f a) (f' a)) :
    Scan.bare g ((p >>= f) closed text) = Scan.bare g ((q >>= f') closed text) := by
  change Scan.bare g (andThen p f closed text) = Scan.bare g (andThen q f' closed text)
  unfold andThen
  rw [h]
  cases q closed text with
  | more | fail => rfl
  | done a n => exact Scan.bare_widen_congr (hf a closed (text.drop n)) n

theorem Alike.ite {f : α → β} {c : Prop} [Decidable c] {p p' q q' : Recogniser α}
    (hp : Alike f p p') (hq : Alike f q q') :
    Alike f (if c then p else q) (if c then p' else q') := by
  split
  · exact hp
  · exact hq

/-- What is covered does not depend on the value. -/
theorem Alike.covered {f : α → β} {p q : Recogniser α} (h : Alike f p q) :
    Alike id (covered p) (covered q) := by
  intro closed text
  have hq := (h closed text).symm
  unfold Recogniser.covered
  cases hp : p closed text with
  | more =>
      rw [hp] at hq
      rw [Scan.bare_eq_more.1 hq]
  | fail e =>
      rw [hp] at hq
      obtain ⟨e', hq, he⟩ := Scan.bare_eq_fail.1 hq
      rw [hq]
      exact congrArg Scan.fail he.symm
  | done a n =>
      rw [hp] at hq
      obtain ⟨a', hq, -⟩ := Scan.bare_eq_done.1 hq
      rw [hq]

end Recogniser

/-! ### Lexemes -/

section Lexemes

open Recogniser

variable (d : Dialect) (o : LexOptions) (place place' : Position) (before before' : Option Char)

theorem postgresEscape_alike (letter : Char) :
    Alike id (postgresEscape ⟨d, o, place, before⟩ letter)
      (postgresEscape ⟨d, o, place', before'⟩ letter) := by
  unfold postgresEscape
  split
  · exact .refl _ _
  split
  · exact .refl _ _
  refine (Alike.refl _ _).bind fun more => .ite (.refl _ _) (.ite (.fail rfl) ?_)
  split
  · exact .refl _ _
  · exact .fail rfl

theorem quotedBody_alike (quote : Char) (style : EscapeStyle) (what : Construct) :
    Alike id (quotedBody ⟨d, o, place, before⟩ quote style what)
      (quotedBody ⟨d, o, place', before'⟩ quote style what) := by
  intro closed text
  have hunfinished : (atEnd closed (.fail (.unterminated what place)) : Scan (List Char)).bare id =
      (atEnd closed (.fail (.unterminated what place'))).bare id :=
    Scan.bare_atEnd_congr (by rfl) closed
  fun_induction quotedBody ⟨d, o, place, before⟩ quote style what closed text with
  | case1 =>
      rw [quotedBody]
      exact hunfinished
  | case2 | case4 => simp_all [quotedBody.eq_def]
  | case3 rest ih =>
      rw [quotedBody.eq_def ⟨d, o, place', before'⟩]
      simp only [if_true]
      exact Scan.bare_widen_congr (Scan.bare_map_congr ih) 2
  | case5 _ c hquote hescape =>
      rw [quotedBody.eq_def ⟨d, o, place', before'⟩]
      simp only [if_neg hquote, if_pos hescape]
      exact hunfinished
  | case6 c hquote hescape letter rest hmysql ih =>
      rw [quotedBody.eq_def ⟨d, o, place', before'⟩]
      simp only [if_neg hquote, if_pos hescape, if_pos hmysql]
      exact Scan.bare_widen_congr (Scan.bare_map_congr ih) 2
  | case7 c hquote hescape letter rest hmysql hmore =>
      have hletter := (postgresEscape_alike d o place place' before before' letter closed rest).symm
      rw [hmore] at hletter
      rw [quotedBody.eq_def ⟨d, o, place', before'⟩]
      simp only [if_neg hquote, if_pos hescape, if_neg hmysql, Scan.bare_eq_more.1 hletter]
  | case8 c hquote hescape letter rest hmysql e hfail =>
      have hletter := (postgresEscape_alike d o place place' before before' letter closed rest).symm
      rw [hfail] at hletter
      obtain ⟨e', hletter, he⟩ := Scan.bare_eq_fail.1 hletter
      rw [quotedBody.eq_def ⟨d, o, place', before'⟩]
      simp only [if_neg hquote, if_pos hescape, if_neg hmysql, hletter]
      exact congrArg Scan.fail he.symm
  | case9 c hquote hescape letter rest hmysql decoded n hdone ih =>
      have hletter := (postgresEscape_alike d o place place' before before' letter closed rest).symm
      rw [hdone] at hletter
      obtain ⟨decoded', hread, hdecoded⟩ := Scan.bare_eq_done.1 hletter
      obtain rfl : decoded' = decoded := hdecoded
      rw [quotedBody.eq_def ⟨d, o, place', before'⟩]
      simp only [if_neg hquote, if_pos hescape, if_neg hmysql, hread]
      exact Scan.bare_widen_congr (Scan.bare_map_congr ih) (2 + n)
  | case10 c rest hquote hescape ih =>
      rw [quotedBody.eq_def ⟨d, o, place', before'⟩]
      simp only [if_neg hquote, if_neg hescape]
      exact Scan.bare_widen_congr (Scan.bare_map_congr ih) 1

theorem blockCommentBody_alike (depth : Nat) :
    Alike id (fun closed => blockCommentBody ⟨d, o, place, before⟩ closed depth)
      (fun closed => blockCommentBody ⟨d, o, place', before'⟩ closed depth) := by
  intro closed text
  have hunfinished : (atEnd closed (.fail (.unterminated .blockComment place)) : Scan Unit).bare id =
      (atEnd closed (.fail (.unterminated .blockComment place'))).bare id :=
    Scan.bare_atEnd_congr (by rfl) closed
  dsimp only
  fun_induction blockCommentBody ⟨d, o, place, before⟩ closed depth text with
  | case1 | case2 => exact hunfinished
  | case3 depth c e rest h ih =>
      rw [blockCommentBody, if_pos h]
      exact Scan.bare_widen_congr ih 2
  | case4 depth c e rest h h' hd => rw [blockCommentBody, if_neg h, if_pos h', if_pos hd]
  | case5 depth c e rest h h' hd ih =>
      rw [blockCommentBody, if_neg h, if_pos h', if_neg hd]
      exact Scan.bare_widen_congr ih 2
  | case6 depth c e rest h h' ih =>
      rw [blockCommentBody, if_neg h, if_neg h']
      exact Scan.bare_widen_congr ih 1

theorem dollarBody_alike (tag : List Char) :
    Alike id (dollarBody ⟨d, o, place, before⟩ tag) (dollarBody ⟨d, o, place', before'⟩ tag) := by
  intro closed text
  induction text with
  | nil => exact Scan.bare_atEnd_congr (by rfl) closed
  | cons c rest ih =>
      rw [dollarBody, dollarBody]
      split
      · rfl
      · exact Scan.bare_widen_congr (Scan.bare_map_congr ih) 1

theorem stringLexeme_alike (quote : Char) (modifier : Option String) :
    Alike Lexeme.bare (stringLexeme ⟨d, o, place, before⟩ quote modifier)
      (stringLexeme ⟨d, o, place', before'⟩ quote modifier) :=
  (quotedBody_alike d o place place' before before' _ _ _).bind fun _ => .pure rfl

theorem identifierLexeme_alike (quote : Char) :
    Alike Lexeme.bare (identifierLexeme ⟨d, o, place, before⟩ quote)
      (identifierLexeme ⟨d, o, place', before'⟩ quote) :=
  (quotedBody_alike d o place place' before before' _ _ _).bind fun _ =>
    .ite (.fail rfl) (.pure rfl)

theorem checkDigits_alike (what : Construct) (digits : List Char) :
    Alike id (checkDigits ⟨d, o, place, before⟩ what digits)
      (checkDigits ⟨d, o, place', before'⟩ what digits) := by
  unfold checkDigits
  dsimp only
  split
  · exact .fail rfl
  · exact .refl _ _

theorem quotedDigits_alike (kind : TokenKind) (marker : String) :
    Alike Lexeme.bare (quotedDigits ⟨d, o, place, before⟩ kind marker)
      (quotedDigits ⟨d, o, place', before'⟩ kind marker) :=
  (quotedBody_alike d o place place' before before' _ _ _).bind fun digits =>
    (checkDigits_alike d o place place' before before' _ digits).bind fun _ => .pure rfl

theorem blockComment_alike :
    Alike Lexeme.bare (blockComment ⟨d, o, place, before⟩)
      (blockComment ⟨d, o, place', before'⟩) :=
  Alike.covered ((Alike.refl _ _).bind fun _ =>
    blockCommentBody_alike d o place place' before before' 1) |>.bind fun _ => .pure rfl

theorem lineComment_alike (first : Char) :
    Alike Lexeme.bare (lineComment ⟨d, o, place, before⟩ first)
      (lineComment ⟨d, o, place', before'⟩ first) :=
  (Alike.refl _ _).bind fun _ => .pure rfl

theorem operatorLexeme_alike (first : Char) :
    Alike Lexeme.bare (operatorLexeme ⟨d, o, place, before⟩ first)
      (operatorLexeme ⟨d, o, place', before'⟩ first) := by
  refine (Alike.refl _ _).bind fun run => ?_
  dsimp only
  split
  · exact .fail rfl
  · exact (Alike.refl _ _).bind fun _ => .pure rfl

theorem dollarString_alike (width : Nat) :
    Alike Lexeme.bare (dollarString ⟨d, o, place, before⟩ width)
      (dollarString ⟨d, o, place', before'⟩ width) :=
  (Alike.refl _ _).bind fun _ =>
    (dollarBody_alike d o place place' before before' _).bind fun _ => .pure rfl

theorem dollarLexeme_alike :
    Alike Lexeme.bare (dollarLexeme ⟨d, o, place, before⟩)
      (dollarLexeme ⟨d, o, place', before'⟩) := by
  refine (Alike.refl _ _).bind fun c => ?_
  have hstring := dollarString_alike d o place place' before before'
  split
  · exact .pure rfl
  · refine .ite ((Alike.refl _ _).bind fun _ => .pure rfl) (.ite (hstring 1) (.ite ?_ (.pure rfl)))
    exact (Alike.refl _ _).bind fun name => (Alike.refl _ _).bind fun _ =>
      .ite (hstring _) (.pure rfl)

theorem variableName_alike (marker : String) :
    Alike Lexeme.bare (variableName ⟨d, o, place, before⟩ marker)
      (variableName ⟨d, o, place', before'⟩ marker) := by
  refine (Alike.refl _ _).bind fun c => ?_
  split
  · exact .fail rfl
  · refine .ite ?_ (.ite ((Alike.refl _ _).bind fun _ => .pure rfl) (.fail rfl))
    have hquoted (quote : Char) := (Alike.refl id (take 1)).bind fun _ =>
      quotedBody_alike d o place place' before before' quote .off .variableName
    exact (hquoted _).bind fun _ => .pure rfl

theorem variableLexeme_alike :
    Alike Lexeme.bare (variableLexeme ⟨d, o, place, before⟩)
      (variableLexeme ⟨d, o, place', before'⟩) :=
  (Alike.refl _ _).bind fun _ =>
    .ite ((Alike.refl _ _).bind fun _ => variableName_alike d o place place' before before' _)
      (variableName_alike d o place place' before before' _)

theorem exponent_alike :
    Alike id (exponent ⟨d, o, place, before⟩) (exponent ⟨d, o, place', before'⟩) := by
  have hdigits : Alike id (exponentDigits ⟨d, o, place, before⟩)
      (exponentDigits ⟨d, o, place', before'⟩) :=
    (Alike.refl _ _).bind fun _ => .ite (.refl _ _) (.fail rfl)
  refine (Alike.refl _ _).bind fun mark => .ite ?_ (.refl _ _)
  exact (Alike.refl _ _).bind fun _ => (Alike.refl _ _).bind fun _ =>
    .ite ((Alike.refl _ _).bind fun _ => hdigits) hdigits

theorem numberLexeme_alike (first : Char) :
    Alike Lexeme.bare (numberLexeme ⟨d, o, place, before⟩ first)
      (numberLexeme ⟨d, o, place', before'⟩ first) := by
  have hexponent := exponent_alike d o place place' before before'
  have hfraction : Alike id (fraction ⟨d, o, place, before⟩) (fraction ⟨d, o, place', before'⟩) :=
    (Alike.refl _ _).bind fun _ => (Alike.refl _ _).bind fun _ => .ite (.fail rfl) hexponent
  have htail : Alike id (numberTail ⟨d, o, place, before⟩ first)
      (numberTail ⟨d, o, place', before'⟩ first) :=
    .ite hfraction ((Alike.refl _ _).bind fun _ => (Alike.refl _ _).bind fun _ =>
      .ite ((Alike.refl _ _).bind fun _ => hfraction) hexponent)
  exact htail.covered.bind fun _ => .pure rfl

theorem basedLexeme_alike (letter : Char) :
    Alike Lexeme.bare (basedLexeme ⟨d, o, place, before⟩ letter)
      (basedLexeme ⟨d, o, place', before'⟩ letter) := by
  unfold basedLexeme
  dsimp only
  refine (Alike.refl _ _).bind fun _ => (Alike.refl _ _).bind fun digits => .ite (.fail rfl) ?_
  exact (checkDigits_alike d o place place' before before' _ digits).bind fun _ => .pure rfl

/-- A word that stands before a quote introduces a literal wherever it stands. -/
theorem introducedLiteral_alike (word : List Char) :
    Option.Rel (Alike Lexeme.bare) (introducedLiteral? ⟨d, o, place, before⟩ word)
      (introducedLiteral? ⟨d, o, place', before'⟩ word) := by
  have hstring (modifier : Option String) := (Alike.refl id (take 1)).bind fun _ =>
    stringLexeme_alike d o place place' before before' '\'' modifier
  have hdigits (kind : TokenKind) (marker : String) := (Alike.refl id (take 1)).bind fun _ =>
    quotedDigits_alike d o place place' before before' kind marker
  unfold introducedLiteral?
  dsimp only
  split
  · exact .some (hstring _)
  split
  · exact .some (hstring _)
  split
  · exact .some (hdigits _ _)
  split
  · exact .some (hdigits _ _)
  split
  · exact .some (hstring _)
  · exact .none

theorem bareWord_alike (word : List Char) :
    (bareWord ⟨d, o, place, before⟩ word).bare = (bareWord ⟨d, o, place', before'⟩ word).bare := by
  unfold bareWord
  dsimp only
  split <;> rfl

theorem wordLexeme_alike (first : Char) :
    Alike Lexeme.bare (wordLexeme ⟨d, o, place, before⟩ first)
      (wordLexeme ⟨d, o, place', before'⟩ first) := by
  have hbare (word : List Char) := bareWord_alike d o place place' before before' word
  refine (Alike.refl _ _).bind fun rest => (Alike.refl _ _).bind fun _ => .ite ?_ (.pure (hbare _))
  have hliteral := introducedLiteral_alike d o place place' before before' (first :: rest)
  generalize introducedLiteral? ⟨d, o, place, before⟩ (first :: rest) = literal at hliteral
  generalize introducedLiteral? ⟨d, o, place', before'⟩ (first :: rest) = literal' at hliteral
  cases hliteral with
  | some h => exact h
  | none => exact .pure (hbare _)

theorem ordinaryLexeme_alike (c : Char) :
    Alike Lexeme.bare (ordinaryLexeme ⟨d, o, place, before⟩ c)
      (ordinaryLexeme ⟨d, o, place', before'⟩ c) := by
  have hstring := stringLexeme_alike d o place place' before before' c none
  have hname := identifierLexeme_alike d o place place' before before' c
  unfold ordinaryLexeme
  refine .ite (lineComment_alike d o place place' before before' c) (.ite hstring ?_)
  refine .ite (.ite hname hstring) (.ite hname ?_)
  refine .ite (dollarLexeme_alike d o place place' before before') (.ite (.pure rfl) ?_)
  refine .ite (variableLexeme_alike d o place place' before before') ?_
  refine .ite (numberLexeme_alike d o place place' before before' c) (.ite (.pure rfl) ?_)
  split
  · exact .pure rfl
  · exact .pure rfl
  · exact .ite (wordLexeme_alike d o place place' before before' c)
      (.ite (operatorLexeme_alike d o place place' before before' c) (.fail rfl))

theorem lexeme_alike_of_ne {c : Char} (hc : c ≠ '.') :
    Alike Lexeme.bare (lexeme ⟨d, o, place, before⟩ c) (lexeme ⟨d, o, place', before'⟩ c) := by
  have hordinary := ordinaryLexeme_alike d o place place' before before' c
  have hline := lineComment_alike d o place place' before before' c
  unfold lexeme
  refine .ite ((Alike.refl _ _).bind fun _ => .pure rfl) (.ite ?_ (.ite ?_ (.ite ?_ ?_)))
  · refine (Alike.refl _ _).bind fun _ => .ite ?_ hordinary
    exact (Alike.refl _ _).bind fun _ => .ite hline hordinary
  · exact (Alike.refl _ _).bind fun _ =>
      .ite (blockComment_alike d o place place' before before') hordinary
  · refine (Alike.refl _ _).bind fun _ => ?_
    split
    · exact basedLexeme_alike d o place place' before before' 'x'
    · exact basedLexeme_alike d o place place' before before' 'b'
    · exact hordinary
  · rw [if_neg hc, if_neg hc]
    exact hordinary

/-- A lexeme is read the same in all places. A point starts a number or does not, for
which the character before it counts. -/
theorem lexeme_alike (c : Char) (closed : Bool) (text : List Char)
    (hpoint : c = '.' → dotStartsNumber ⟨d, o, place, before⟩ closed text =
      dotStartsNumber ⟨d, o, place', before'⟩ closed text) :
    (lexeme ⟨d, o, place, before⟩ c closed text).bare Lexeme.bare =
      (lexeme ⟨d, o, place', before'⟩ c closed text).bare Lexeme.bare := by
  by_cases hc : c = '.'
  · subst hc
    have hstarts (ctx : LexContext) : lexeme ctx '.' = dotStartsNumber ctx >>= fun starts =>
        if starts then numberLexeme ctx '.' else ordinaryLexeme ctx '.' := by
      obtain ⟨d, o, place, before⟩ := ctx
      cases d <;> rfl
    rw [hstarts, hstarts]
    exact Alike.bind_at (hpoint rfl) fun starts =>
      .ite (numberLexeme_alike d o place place' before before' '.')
        (ordinaryLexeme_alike d o place place' before before' '.')
  · exact lexeme_alike_of_ne d o place place' before before' hc closed text

end Lexemes

/-! ### Words -/

namespace Phrase

variable (d : Dialect)

theorem spelling_bare (words : List Token) : spelling (words.map Token.bare) = spelling words := by
  rw [spelling, spelling, List.filter_map, List.map_map]
  rfl

theorem longest_bare (phrase : String) (seen : Nat) (best : Option Found) (words : List Token) :
    longest d phrase seen best (words.map Token.bare) = longest d phrase seen best words := by
  induction words generalizing phrase seen best with
  | nil => rfl
  | cons t rest ih =>
      have hkind : t.bare.kind = t.kind := rfl
      have hvalue : t.bare.value = t.value := rfl
      simp only [List.map_cons, longest, hkind, hvalue, ih]

theorem head_bare (word : Token) (rest : List Token) :
    head d word.bare (rest.map Token.bare) = ((head d word rest).1.bare, (head d word rest).2) := by
  have hsingle : single d word.bare = (single d word).bare := by
    have hkind : word.bare.kind = word.kind := rfl
    rw [single, single, hkind]
    split <;> rfl
  have hvalue : word.bare.value = word.value := rfl
  rw [head, head, longest_bare, hvalue, hsingle]
  cases longest d (Text.toUpper word.value) 0 none rest <;> rfl

/-- Words are settled alike wherever they stand. -/
theorem settle_bare (final : Bool) (words : List Token) :
    settle d final (words.map Token.bare) =
      ((settle d final words).1.map Token.bare, (settle d final words).2.map Token.bare) := by
  have hgrow (words : List Token) : mayGrow d (words.map Token.bare) = mayGrow d words := by
    rw [mayGrow, spelling_bare, mayGrow]
  have hkind (t : Token) : t.bare.kind = t.kind := rfl
  fun_induction settle d final words with
  | case1 => rw [List.map_nil, settle]
  | case2 t rest ht out waiting h ih => rw [List.map_cons, settle, hkind, if_pos ht, ih, h]; rfl
  | case3 t rest ht hwait =>
      rw [← hgrow] at hwait
      rw [List.map_cons, settle, hkind, if_neg ht, ← List.map_cons, if_pos hwait]
      rfl
  | case4 t rest ht hwait first extent hhead out waiting h ih =>
      rw [← hgrow] at hwait
      rw [List.map_cons, settle, hkind, if_neg ht, ← List.map_cons, if_neg hwait, List.map_cons,
        head_bare, hhead]
      simp only [← List.map_drop, ih, h]

end Phrase

/-! ### Scanners -/

namespace Scanner

/-- Scanners before the same text that differ in places alone. -/
structure Alike (s t : Scanner) : Prop where
  unread : t.unread = s.unread
  dialect : t.dialect = s.dialect
  options : t.options = s.options
  nesting : t.nesting.map Prod.fst = s.nesting.map Prod.fst
  words : t.words.map Token.bare = s.words.map Token.bare
  ready : t.ready.map Event.bare = s.ready.map Event.bare

namespace Alike

variable {s t : Scanner}

theorem map_bare_token (tokens : List Token) :
    (tokens.map Event.token).map Event.bare = (tokens.map Token.bare).map Event.token := by
  rw [List.map_map, List.map_map]
  rfl

theorem settled (h : s.Alike t) (final : Bool) {words words' : List Token}
    (hwords : words'.map Token.bare = words.map Token.bare) :
    Alike
      { s with
        words := (Phrase.settle s.dialect final words).2
        ready := s.ready ++ (Phrase.settle s.dialect final words).1.map .token }
      { t with
        words := (Phrase.settle t.dialect final words').2
        ready := t.ready ++ (Phrase.settle t.dialect final words').1.map .token } := by
  have hsettle := Phrase.settle_bare s.dialect final words
  have hsettle' := Phrase.settle_bare s.dialect final words'
  rw [hwords, hsettle] at hsettle'
  obtain ⟨hout, hwaiting⟩ := Prod.mk.inj hsettle'
  refine ⟨h.unread, h.dialect, h.options, h.nesting, ?_, ?_⟩
  · dsimp only
    rw [h.dialect, hwaiting]
  · dsimp only
    rw [h.dialect, List.map_append, List.map_append, h.ready, map_bare_token, map_bare_token, hout]

theorem wait (h : s.Alike t) {u u' : Token} (hu : u'.bare = u.bare) :
    (s.wait u).Alike (t.wait u') := by
  refine h.settled false ?_
  rw [List.map_append, List.map_append, h.words, List.map_singleton, List.map_singleton, hu]

theorem flush (h : s.Alike t) : s.flush.Alike t.flush :=
  h.settled true h.words

theorem deliver (h : s.Alike t) {e e' : Event} (he : e'.bare = e.bare) :
    (s.deliver e).Alike (t.deliver e') := by
  obtain ⟨hunread, hdialect, hoptions, hnesting, hwords, hready⟩ := h.flush
  refine ⟨hunread, hdialect, hoptions, hnesting, hwords, ?_⟩
  rw [Scanner.deliver, Scanner.deliver]
  dsimp only
  rw [List.map_append, List.map_append, hready, List.map_singleton, List.map_singleton, he]

theorem spacePending (h : s.Alike t) (pending pending' : Bool) :
    Alike { s with spacePending := pending } { t with spacePending := pending' } :=
  ⟨h.unread, h.dialect, h.options, h.nesting, h.words, h.ready⟩

theorem nested (h : s.Alike t) {nesting nesting' : List (Bracket × Position)}
    (hnesting : nesting'.map Prod.fst = nesting.map Prod.fst) :
    Alike { s with nesting } { t with nesting := nesting' } :=
  ⟨h.unread, h.dialect, h.options, hnesting, h.words, h.ready⟩

theorem stageContent (h : s.Alike t) {u u' : Token} (hu : u'.bare = u.bare) :
    (s.stageContent u).Alike (t.stageContent u') := by
  have hbare (t : Token) : Phrase.isWord t.bare = Phrase.isWord t := rfl
  have hword : Phrase.isWord u' = Phrase.isWord u := by rw [← hbare, hu, hbare]
  have hspace (pending pending' : Bool) :
      ({ u' with spaceBefore := pending' } : Token).bare =
        ({ u with spaceBefore := pending } : Token).bare := hu
  have h' := h.spacePending false false
  change Alike (if Phrase.isWord u then _ else _) (if Phrase.isWord u' then _ else _)
  rw [hword]
  split
  · exact h'.wait (hspace _ _)
  · exact h'.deliver (congrArg Event.token (hspace _ _))

theorem stage (h : s.Alike t) {u u' : Token} (hu : u'.bare = u.bare) :
    (s.stage u).Alike (t.stage u') := by
  have hbare (t : Token) : t.bare.kind = t.kind := rfl
  have hkind : u'.kind = u.kind := by rw [← hbare, hu, hbare]
  have hwhitespace : t.options.emitWhitespace = s.options.emitWhitespace := by rw [h.options]
  have hcomments : t.options.emitComments = s.options.emitComments := by rw [h.options]
  have hevent : (Event.token u').bare = (Event.token u).bare := congrArg Event.token hu
  have h' := h.spacePending true true
  rw [Scanner.stage, Scanner.stage, hkind]
  split
  · dsimp only
    rw [hwhitespace]
    split
    · exact h'.wait hu
    · exact h'
  · dsimp only
    rw [hcomments]
    split
    · exact h'.deliver hevent
    · exact h'.flush
  · exact h.stageContent hu

theorem openBlock (h : s.Alike t) (b : Bracket) (place place' : Position) :
    (s.openBlock b place).Alike (t.openBlock b place') := by
  have hnesting : ((b, place') :: t.nesting).map Prod.fst = ((b, place) :: s.nesting).map Prod.fst := by
    rw [List.map_cons, List.map_cons, h.nesting]
  have h' := h.nested hnesting
  have hstructured : t.options.structured = s.options.structured := by rw [h.options]
  rw [Scanner.openBlock, Scanner.openBlock]
  dsimp only
  rw [hstructured]
  have hevent : (Event.opened b place' t.spacePending).bare =
      (Event.opened b place s.spacePending).bare := rfl
  have htoken : ({ kind := .punctuation, value := b.opener.toString, position := place' } : Token).bare =
      ({ kind := .punctuation, value := b.opener.toString, position := place } : Token).bare := rfl
  split
  · exact (h'.deliver hevent).spacePending false false
  · exact h'.stageContent htoken

theorem closeBlock (h : s.Alike t) (b : Bracket) (place place' : Position) :
    (s.closeBlock b place).Alike (t.closeBlock b place') := by
  have hnesting : t.nesting.tail.map Prod.fst = s.nesting.tail.map Prod.fst := by
    rw [List.map_tail, List.map_tail, h.nesting]
  have h' := h.nested hnesting
  have hstructured : t.options.structured = s.options.structured := by rw [h.options]
  rw [Scanner.closeBlock, Scanner.closeBlock]
  dsimp only
  rw [hstructured]
  have hevent : (Event.closed b place').bare = (Event.closed b place).bare := rfl
  have htoken : ({ kind := .punctuation, value := b.closer.toString, position := place' } : Token).bare =
      ({ kind := .punctuation, value := b.closer.toString, position := place } : Token).bare := rfl
  split
  · exact (h'.deliver hevent).spacePending false false
  · exact h'.stageContent htoken

/-- Scanners that differ in places alone accept the same lexemes. -/
theorem accept (h : s.Alike t) (place place' : Position) {lx lx' : Lexeme}
    (hlx : lx'.bare = lx.bare) :
    (∃ e e', s.accept place lx = .error e ∧ t.accept place' lx' = .error e' ∧ e'.bare = e.bare) ∨
      ∃ s' t', s.accept place lx = .ok s' ∧ t.accept place' lx' = .ok t' ∧ s'.Alike t' := by
  cases lx <;> cases lx'
  case token.token u u' =>
      have hu : u'.bare = u.bare := Lexeme.token.inj hlx
      exact .inr ⟨_, _, rfl, rfl, h.stage hu⟩
  case opening.opening b b' =>
      cases hlx
      exact .inr ⟨_, _, rfl, rfl, h.openBlock b place place'⟩
  case closing.closing b b' =>
      cases hlx
      have hinner : t.nesting.head?.any (·.1 = b) = s.nesting.head?.any (·.1 = b) := by
        have hheads := congrArg List.head? h.nesting
        rw [List.head?_map, List.head?_map] at hheads
        have hany := congrArg (Option.any fun c => decide (c = b)) hheads
        rwa [Option.any_map, Option.any_map] at hany
      rw [Scanner.accept, Scanner.accept, hinner]
      split
      · exact .inr ⟨_, _, rfl, rfl, h.closeBlock b place place'⟩
      · exact .inl ⟨_, _, rfl, rfl, rfl⟩
  all_goals cases hlx

theorem lexeme (h : s.Alike t) {c : Char} {rest : List Char} (hu : s.unread = c :: rest)
    (hpoint : ∀ rest, s.unread = '.' :: rest →
      dotStartsNumber t.context true rest = dotStartsNumber s.context true rest) :
    (DualSql.lexeme t.context c true rest).bare Lexeme.bare =
      (DualSql.lexeme s.context c true rest).bare Lexeme.bare := by
  have hcontext : t.context = ⟨s.dialect, s.options, t.position, t.before⟩ := by
    rw [context, h.dialect, h.options]
  rw [hcontext] at hpoint ⊢
  refine lexeme_alike s.dialect s.options t.position s.position t.before s.before c true rest ?_
  rintro rfl
  exact hpoint rest hu

/-- Behind the same characters a point means the same. -/
theorem skip (h : s.Alike t) (c : Char) (rest : List Char) (width : Nat) :
    (s.skip c rest width).Alike (t.skip c rest width) ∧
      dotStartsNumber (t.skip c rest width).context = dotStartsNumber (s.skip c rest width).context :=
  ⟨⟨rfl, h.dialect, h.options, h.nesting, h.words, h.ready⟩, rfl⟩

/-- Scanners that differ in places alone read the rest of their text alike. At a point
they have to agree on whether it starts a number. -/
theorem digest (h : s.Alike t) (hpoint : ∀ rest, s.unread = '.' :: rest →
      dotStartsNumber t.context true rest = dotStartsNumber s.context true rest) :
    t.digest.1.ready.map Event.bare = s.digest.1.ready.map Event.bare ∧
      t.digest.2.map LexError.bare = s.digest.2.map LexError.bare := by
  fun_induction Scanner.digest s generalizing t with
  | case1 s hu b opened rest hn =>
      have hnesting := h.nesting
      rw [hn] at hnesting
      obtain ⟨⟨b', opened'⟩, rest', hn', rfl, -⟩ := List.map_eq_cons_iff.1 hnesting
      rw [digest_of_nil (h.unread.trans hu), hn']
      exact ⟨h.ready, rfl⟩
  | case2 s hu hn =>
      have hn' : t.nesting = [] := by simpa [hn] using h.nesting
      rw [digest_of_nil (h.unread.trans hu), hn']
      exact ⟨h.flush.ready, rfl⟩
  | case3 s c rest hu hl =>
      have hsame := h.lexeme hu hpoint
      rw [hl] at hsame
      rw [digest_of_cons (h.unread.trans hu), Scan.bare_eq_more.1 hsame]
      exact ⟨h.ready, rfl⟩
  | case4 s c rest hu e hl =>
      have hsame := h.lexeme hu hpoint
      rw [hl] at hsame
      obtain ⟨e', hl', he⟩ := Scan.bare_eq_fail.1 hsame
      rw [digest_of_cons (h.unread.trans hu), hl']
      exact ⟨h.ready, congrArg some he⟩
  | case5 s c rest hu lx width hl e ha =>
      have hsame := h.lexeme hu hpoint
      rw [hl] at hsame
      obtain ⟨lx', hl', hlx⟩ := Scan.bare_eq_done.1 hsame
      rw [digest_of_cons (h.unread.trans hu), hl']
      rcases h.accept s.position t.position hlx with ⟨e', e'', hs, ht, he⟩ | ⟨s', t', hs, ht, -⟩
      · rw [ha] at hs
        cases hs
        simp only [ht]
        exact ⟨h.ready, congrArg some he⟩
      · rw [ha] at hs
        cases hs
  | case6 s c rest hu lx width hl s' ha ih =>
      have hsame := h.lexeme hu hpoint
      rw [hl] at hsame
      obtain ⟨lx', hl', hlx⟩ := Scan.bare_eq_done.1 hsame
      rw [digest_of_cons (h.unread.trans hu), hl']
      rcases h.accept s.position t.position hlx with ⟨e', e'', hs, ht, he⟩ | ⟨s'', t', hs, ht, h'⟩
      · rw [ha] at hs
        cases hs
      · rw [ha] at hs
        cases hs
        simp only [ht]
        obtain ⟨hskip, hdot⟩ := h'.skip c rest width
        exact ih hskip fun rest _ => by rw [hdot]

end Alike

end Scanner

end DualSql
