import DualSql.Proofs.Lexer.Chunks
import DualSql.Proofs.Vocabulary
import DualSql.Lexer.Feed

/-! # What a token knows of itself

A token that comes out of a lexing run carries the operator information that
the dialect has for its spelling, unless it is quoted, and a symbol has such
information unless it is a bare dollar. A word is what the dialect says of it,
or a phrase that the dialect lists. The brackets of a run nest: each one that closes is the partner
of the innermost one that is open, and at the end of a run none is open.

Main definitions: `Token.Lexed` and `Event.nest`. Main result:
`lexEvents_nest`. -/

namespace DualSql

/-- A token as a lexing run makes it. -/
structure Token.Lexed (d : Dialect) (t : Token) : Prop where
  operator : ∀ info, t.operator = some info → Vocabulary.operator? d t.value = some info
  combines : t.operator ≠ none → t.kind = .operator ∨ t.kind = .keyword
  symbol : t.kind = .operator → t.value = "$" ∨ (Vocabulary.operator? d t.value).isSome = true
  sign : t.kind = .operator → Vocabulary.classify d (Text.toUpper t.value) = .identifier
  word : Vocabulary.isWordKind t.kind = true → t.isQuoted = false →
    Vocabulary.classify d (Text.toUpper t.value) = t.kind ∨
      (Vocabulary.phrase d t.value).complete = some t.kind
  placeholder : t.kind = .bindVariable → d = .mysql → t.value = "?"
  quoted : t.isQuoted = true → t.operator = none

/-- A token that is neither a symbol nor a placeholder, and no word but one
that stands in quotes or is what the dialect says. -/
theorem Token.lexed_of_plain {d : Dialect} {t : Token} (hop : t.operator = none)
    (hsymbol : t.kind ≠ .operator) (hbind : t.kind ≠ .bindVariable)
    (hword : Vocabulary.isWordKind t.kind = true → t.isQuoted = false →
      Vocabulary.classify d (Text.toUpper t.value) = t.kind) : t.Lexed d where
  operator info hinfo := by
    rw [hop] at hinfo
    cases hinfo
  combines hne := absurd hop hne
  symbol hkind := absurd hkind hsymbol
  sign hkind := absurd hkind hsymbol
  word hkind hquoted := .inl (hword hkind hquoted)
  placeholder hkind := absurd hkind hbind
  quoted _ := hop

/-- A lexeme as the lexer makes it. -/
def Lexeme.Known (d : Dialect) : Lexeme → Prop
  | .token t => t.Lexed d
  | .opening _ | .closing _ => True

namespace Recogniser

variable {α β : Type} {P : α → Prop} {Q : β → Prop}

/-- Every answer of a recogniser has a property. -/
def Gives (P : α → Prop) (p : Recogniser α) : Prop :=
  ∀ closed text a n, p closed text = .done a n → P a

theorem Gives.pure {a : α} (h : P a) : Gives P (Pure.pure a : Recogniser α) := by
  intro closed text b n hdone
  cases hdone
  exact h

theorem Gives.fail (e : LexError) : Gives P (Recogniser.fail e : Recogniser α) := by
  intro closed text b n hdone
  cases hdone

/-- How a recogniser that has two steps answers. -/
theorem bind_done {p : Recogniser α} {f : α → Recogniser β} {closed : Bool} {text : List Char}
    {b : β} {n : Nat} (h : (p >>= f) closed text = .done b n) :
    ∃ a k m, p closed text = .done a k ∧ f a closed (text.drop k) = .done b m := by
  change andThen p f closed text = .done b n at h
  unfold andThen at h
  cases hp : p closed text with
  | more => simp [hp] at h
  | fail e => simp [hp] at h
  | done a k =>
      simp only [hp] at h
      cases hf : f a closed (text.drop k) with
      | more => simp [hf, Scan.widen] at h
      | fail e => simp [hf, Scan.widen] at h
      | done b' m =>
          obtain ⟨rfl, -⟩ : b' = b ∧ k + m = n := by simpa [hf, Scan.widen] using h
          exact ⟨a, k, m, rfl, hf⟩

/-- A recogniser goes on behind what its first step takes. -/
theorem bind_of_done {p : Recogniser α} {f : α → Recogniser β} {closed : Bool} {text : List Char}
    {a : α} {n : Nat} (h : p closed text = .done a n) :
    (p >>= f) closed text = (f a closed (text.drop n)).widen n := by
  change andThen p f closed text = _
  unfold andThen
  rw [h]

theorem Gives.bind {p : Recogniser α} {f : α → Recogniser β} (hf : ∀ a, Gives Q (f a)) :
    Gives Q (p >>= f) := by
  intro closed text b n h
  obtain ⟨a, k, m, -, hb⟩ := bind_done h
  exact hf a closed _ b m hb

theorem Gives.ite {c : Prop} [Decidable c] {p q : Recogniser α} (hp : Gives P p)
    (hq : Gives P q) : Gives P (if c then p else q) := by
  by_cases h : c
  · rwa [if_pos h]
  · rwa [if_neg h]

end Recogniser

open Recogniser

/-! ### Lexemes -/

variable (ctx : LexContext)

theorem plain_known {kind : TokenKind} (text : List Char) (hsymbol : kind ≠ .operator)
    (hbind : kind ≠ .bindVariable) (hword : Vocabulary.isWordKind kind ≠ true) :
    (ctx.plain kind text).Known ctx.dialect :=
  Token.lexed_of_plain rfl hsymbol hbind fun hkind => absurd hkind hword

theorem stringLexeme_known (quote : Char) (modifier : Option String) :
    Gives (Lexeme.Known ctx.dialect) (stringLexeme ctx quote modifier) :=
  Gives.bind fun _ => Gives.pure (Token.lexed_of_plain rfl nofun nofun nofun)

theorem identifierLexeme_known (quote : Char) :
    Gives (Lexeme.Known ctx.dialect) (identifierLexeme ctx quote) :=
  Gives.bind fun _ => Gives.ite (Gives.fail _) (Gives.pure (Token.lexed_of_plain rfl nofun nofun nofun))

theorem quotedDigits_known {kind : TokenKind} (marker : String) (hsymbol : kind ≠ .operator)
    (hbind : kind ≠ .bindVariable) (hword : Vocabulary.isWordKind kind ≠ true) :
    Gives (Lexeme.Known ctx.dialect) (quotedDigits ctx kind marker) :=
  Gives.bind fun _ => Gives.bind fun _ => Gives.pure <|
    Token.lexed_of_plain rfl hsymbol hbind fun hkind => absurd hkind hword

theorem blockComment_known : Gives (Lexeme.Known ctx.dialect) (blockComment ctx) :=
  Gives.bind fun _ => Gives.pure (plain_known ctx _ nofun nofun nofun)

theorem lineComment_known (first : Char) :
    Gives (Lexeme.Known ctx.dialect) (lineComment ctx first) :=
  Gives.bind fun _ => Gives.pure (plain_known ctx _ nofun nofun nofun)

/-- Taking as many characters as a prefix has gives the prefix. -/
theorem take_eq_of_starts {closed : Bool} {text found shown : List Char} {m : Nat}
    (hstarts : shown <+: text) (h : take shown.length closed text = .done found m) :
    found = shown := by
  unfold Recogniser.take at h
  rw [if_pos hstarts.length_le] at h
  cases h
  exact (List.prefix_iff_eq_take.1 hstarts).symm

theorem ahead_takeWhile_done {p : Char → Bool} {closed : Bool} {text run : List Char} {k : Nat}
    (h : ahead (takeWhile p) closed text = .done run k) : k = 0 ∧ run <+: text := by
  unfold ahead at h
  cases hw : takeWhile p closed text with
  | more => simp [hw] at h
  | fail e => simp [hw] at h
  | done r m =>
      obtain ⟨rfl, rfl⟩ : r = run ∧ 0 = k := by simpa [hw] using h
      refine ⟨rfl, ?_⟩
      unfold Recogniser.takeWhile at hw
      dsimp only at hw
      split at hw
      · cases hw
        exact List.takeWhile_prefix p
      · cases closed with
        | false => cases hw
        | true =>
            cases hw
            exact List.takeWhile_prefix p

/-- The token of a symbol is spelled as the symbol. -/
theorem operatorLexeme_known (first : Char) :
    Gives (Lexeme.Known ctx.dialect) (operatorLexeme ctx first) := by
  intro closed text lx n h
  obtain ⟨run, k, m, hrun, h⟩ := bind_done h
  obtain ⟨rfl, hstarts⟩ := ahead_takeWhile_done hrun
  cases hsymbol : Vocabulary.longestSymbol ctx.dialect (first :: run) with
  | none =>
      rw [hsymbol] at h
      cases h
  | some symbol =>
      simp only [hsymbol] at h
      obtain ⟨rest, k, _, hrest, h⟩ := bind_done h
      cases h
      obtain ⟨hmem, hstart⟩ := Vocabulary.longestSymbol_eq hsymbol
      have hsome := Vocabulary.operator_of_symbol hmem
      have hvalue : String.ofList (first :: rest) = symbol := by
        cases hchars : symbol.toList with
        | nil =>
            -- The empty text is no operator.
            obtain ⟨info, hinfo⟩ := Option.isSome_iff_exists.1 hsome
            have hempty : symbol = "" := String.toList_inj.1 hchars
            have hnone : ∀ d, Vocabulary.operator? d "" = none := by
              intro d
              cases d <;> decide
            rw [hempty, hnone] at hinfo
            cases hinfo
        | cons c others =>
            rw [hchars] at hstart
            obtain ⟨rfl, hothers⟩ := List.cons_prefix_cons.1 hstart
            have hlength : symbol.length - 1 = others.length := by
              rw [← String.length_toList, hchars]
              rfl
            rw [hlength, List.drop_zero] at hrest
            rw [take_eq_of_starts (hothers.trans hstarts) hrest, ← hchars, String.ofList_toList]
      refine ⟨fun info hinfo => ?_, fun _ => .inl rfl, fun _ => .inr ?_, fun _ => ?_, nofun, nofun,
        nofun⟩
      · change Vocabulary.operator? ctx.dialect (String.ofList (first :: rest)) = _
        rwa [hvalue]
      · change (Vocabulary.operator? ctx.dialect (String.ofList (first :: rest))).isSome = _
        rwa [hvalue]
      · change Vocabulary.classify ctx.dialect (Text.toUpper (String.ofList (first :: rest))) = _
        rw [hvalue]
        exact Vocabulary.classify_of_symbol hmem

theorem dollarString_known (width : Nat) :
    Gives (Lexeme.Known ctx.dialect) (dollarString ctx width) :=
  Gives.bind fun _ => Gives.bind fun _ => Gives.pure (Token.lexed_of_plain rfl nofun nofun nofun)

theorem dollarLexeme_known (hd : ctx.dialect.dollarQuoting = true) :
    Gives (Lexeme.Known ctx.dialect) (dollarLexeme ctx) := by
  have hdollar : Vocabulary.classify ctx.dialect (Text.toUpper "$") = .identifier := by
    cases ctx.dialect <;> decide +kernel
  have bare : Gives (Lexeme.Known ctx.dialect)
      (pure (ctx.plain .operator ['$']) : Recogniser Lexeme) :=
    Gives.pure ⟨nofun, nofun, fun _ => .inl rfl, fun _ => hdollar, nofun, nofun, nofun⟩
  refine Gives.bind fun c => ?_
  cases c with
  | none => exact bare
  | some c =>
      refine Gives.ite ?_ (Gives.ite (dollarString_known ctx 1) (Gives.ite ?_ bare))
      · refine Gives.bind fun digits => Gives.pure
          ⟨nofun, nofun, nofun, nofun, nofun, fun _ hmysql => ?_, nofun⟩
        rw [hmysql] at hd
        cases hd
      · refine Gives.bind fun name => Gives.bind fun c => ?_
        exact Gives.ite (dollarString_known ctx _) bare

theorem variableName_known (marker : String) :
    Gives (Lexeme.Known ctx.dialect) (variableName ctx marker) := by
  refine Gives.bind fun c => ?_
  cases c with
  | none => exact Gives.fail _
  | some c =>
      refine Gives.ite ?_ (Gives.ite ?_ (Gives.fail _))
      · exact Gives.bind fun _ => Gives.pure (Token.lexed_of_plain rfl nofun nofun nofun)
      · exact Gives.bind fun _ => Gives.pure (Token.lexed_of_plain rfl nofun nofun nofun)

theorem variableLexeme_known : Gives (Lexeme.Known ctx.dialect) (variableLexeme ctx) :=
  Gives.bind fun _ => Gives.ite (Gives.bind fun _ => variableName_known ctx _)
    (variableName_known ctx _)

theorem numberLexeme_known (first : Char) :
    Gives (Lexeme.Known ctx.dialect) (numberLexeme ctx first) :=
  Gives.bind fun _ => Gives.pure (plain_known ctx _ nofun nofun nofun)

theorem basedLexeme_known (letter : Char) :
    Gives (Lexeme.Known ctx.dialect) (basedLexeme ctx letter) := by
  unfold basedLexeme
  split
  next kind what marker hform =>
    have hkind : kind = .hexLiteral ∨ kind = .bitLiteral := by
      split at hform
      · exact .inl (Prod.mk.inj hform).1.symm
      · exact .inr (Prod.mk.inj hform).1.symm
    refine Gives.bind fun _ => Gives.bind fun digits => Gives.ite (Gives.fail _) ?_
    refine Gives.bind fun _ => Gives.pure (Token.lexed_of_plain rfl ?_ ?_ ?_)
    all_goals rcases hkind with rfl | rfl <;> nofun

theorem introducedLiteral_known {word : List Char} {literal : Recogniser Lexeme}
    (h : introducedLiteral? ctx word = some literal) :
    Gives (Lexeme.Known ctx.dialect) literal := by
  unfold introducedLiteral? at h
  dsimp only at h
  split at h
  · cases h
    exact Gives.bind fun _ => stringLexeme_known ctx _ _
  split at h
  · cases h
    exact Gives.bind fun _ => stringLexeme_known ctx _ _
  split at h
  · cases h
    exact Gives.bind fun _ => quotedDigits_known ctx _ nofun nofun nofun
  split at h
  · cases h
    exact Gives.bind fun _ => quotedDigits_known ctx _ nofun nofun nofun
  split at h
  · cases h
    exact Gives.bind fun _ => stringLexeme_known ctx _ _
  · cases h

theorem bareWord_known (word : List Char) : (bareWord ctx word).Known ctx.dialect := by
  have hkind := Vocabulary.isWordKind_classify ctx.dialect (Text.toUpper (String.ofList word))
  unfold bareWord
  dsimp only
  split
  next hidentifier =>
    exact Token.lexed_of_plain rfl nofun nofun fun _ _ => hidentifier
  next hidentifier =>
    -- A word that the dialect knows is kept in upper case, and is known by it.
    have hupper := Vocabulary.toUpper_of_classify hidentifier
    generalize Text.toUpper (String.ofList word) = upper at *
    refine Token.lexed_of_plain rfl ?_ ?_ fun _ _ => ?_
    · intro h
      rw [show Vocabulary.classify _ _ = .operator from h] at hkind
      cases hkind
    · intro h
      rw [show Vocabulary.classify _ _ = .bindVariable from h] at hkind
      cases hkind
    · change Vocabulary.classify ctx.dialect (Text.toUpper (String.ofList (String.toList _))) = _
      rw [String.ofList_toList, hupper]
      rfl

theorem wordLexeme_known (first : Char) :
    Gives (Lexeme.Known ctx.dialect) (wordLexeme ctx first) := by
  have bare (word : List Char) :
      Gives (Lexeme.Known ctx.dialect) (pure (bareWord ctx word) : Recogniser Lexeme) :=
    Gives.pure (bareWord_known ctx word)
  refine Gives.bind fun rest => Gives.bind fun c => Gives.ite ?_ (bare _)
  cases h : introducedLiteral? ctx (first :: rest) with
  | none => exact bare _
  | some literal => exact introducedLiteral_known ctx h

theorem ordinaryLexeme_known (c : Char) :
    Gives (Lexeme.Known ctx.dialect) (ordinaryLexeme ctx c) := by
  unfold ordinaryLexeme
  refine Gives.ite (lineComment_known ctx _) (Gives.ite (stringLexeme_known ctx _ _) ?_)
  refine Gives.ite (Gives.ite (identifierLexeme_known ctx _) (stringLexeme_known ctx _ _)) ?_
  refine Gives.ite (identifierLexeme_known ctx _) ?_
  split
  next hdollar => exact dollarLexeme_known ctx hdollar.2
  next =>
    split
    next hbind =>
      refine Gives.pure ⟨nofun, nofun, nofun, nofun, nofun, fun _ _ => ?_, nofun⟩
      rw [hbind.1]
      rfl
    next =>
      refine Gives.ite (variableLexeme_known ctx) (Gives.ite (numberLexeme_known ctx _) ?_)
      refine Gives.ite (Gives.pure (plain_known ctx _ nofun nofun nofun)) ?_
      split
      · exact Gives.pure trivial
      · exact Gives.pure trivial
      · exact Gives.ite (wordLexeme_known ctx _)
          (Gives.ite (operatorLexeme_known ctx _) (Gives.fail _))

/-- Every lexeme knows what the dialect says of it. -/
theorem lexeme_known (c : Char) : Gives (Lexeme.Known ctx.dialect) (lexeme ctx c) := by
  have ordinary := ordinaryLexeme_known ctx c
  unfold lexeme
  refine Gives.ite (Gives.bind fun _ => Gives.pure (plain_known ctx _ nofun nofun nofun)) ?_
  refine Gives.ite ?_ (Gives.ite ?_ (Gives.ite ?_ (Gives.ite ?_ ordinary)))
  · refine Gives.bind fun next => Gives.ite ?_ ordinary
    exact Gives.bind fun starts => Gives.ite (lineComment_known ctx c) ordinary
  · exact Gives.bind fun next => Gives.ite (blockComment_known ctx) ordinary
  · refine Gives.bind fun next => ?_
    split
    · exact basedLexeme_known ctx 'x'
    · exact basedLexeme_known ctx 'b'
    · exact ordinary
  · exact Gives.bind fun starts => Gives.ite (numberLexeme_known ctx c) ordinary

/-! ### Phrases -/

namespace Phrase

theorem longest_complete {d : Dialect} {phrase : String} {seen : Nat} {best : Option Found}
    {words : List Token} {found : Found} (h : longest d phrase seen best words = some found)
    (hbest : ∀ b, best = some b → (Vocabulary.phrase d b.phrase).complete = some b.kind) :
    (Vocabulary.phrase d found.phrase).complete = some found.kind := by
  induction words generalizing phrase seen best with
  | nil => exact hbest found h
  | cons t rest ih =>
      rw [longest] at h
      split at h
      · exact ih h hbest
      · refine ih h fun b hb => ?_
        split at hb
        next kind hkind =>
          cases hb
          exact hkind
        next => exact hbest b hb

theorem head_lexed {d : Dialect} {word : Token} (rest : List Token) (h : word.Lexed d) :
    (head d word rest).1.Lexed d := by
  unfold head
  split
  next found hfound =>
    have hcomplete := longest_complete hfound nofun
    obtain ⟨hbind, hoperator⟩ := Vocabulary.phrase_complete hcomplete
    obtain ⟨hupper, hphrase, -, hnone⟩ := Vocabulary.classify_of_complete hcomplete
    refine ⟨fun info hinfo => hinfo, fun hne => .inl ?_, fun hkind => .inr (hoperator hkind),
      fun _ => ?_, fun _ _ => .inr hcomplete, fun hkind => absurd hkind hbind, fun hquoted => ?_⟩
    · by_contra hkind
      exact hne (hnone hkind)
    · exact (congrArg _ hupper).trans hphrase
    · simp [compound, Token.isQuoted] at hquoted
  next =>
    unfold single
    split
    next hkeyword =>
      refine ⟨fun info hinfo => hinfo, fun _ => .inr hkeyword,
        fun hkind => absurd (hkeyword.symm.trans hkind) nofun,
        fun hkind => absurd (hkeyword.symm.trans hkind) nofun, h.word,
        fun hkind => absurd (hkeyword.symm.trans hkind) nofun, fun hquoted => ?_⟩
      simp [Token.isQuoted, hkeyword] at hquoted
    next => exact h

/-- What holds of the waiting words holds of the tokens that they settle to, if it holds of
those that are made at their head. -/
theorem settle_forall {d : Dialect} {Q : Token → Prop} (final : Bool) {words : List Token}
    (hhead : ∀ word rest, Q word → Q (head d word rest).1) (h : ∀ t ∈ words, Q t) :
    (∀ t ∈ (settle d final words).1, Q t) ∧ ∀ t ∈ (settle d final words).2, Q t := by
  fun_induction settle d final words with
  | case1 => simp
  | case2 t rest _ out waiting hsettle ih =>
      rw [hsettle] at ih
      obtain ⟨hout, hwaiting⟩ := ih fun t ht => h t (List.mem_cons_of_mem _ ht)
      exact ⟨List.forall_mem_cons.2 ⟨h t (List.mem_cons_self ..), hout⟩, hwaiting⟩
  | case3 t rest _ _ =>
      refine ⟨?_, h⟩
      simp
  | case4 t rest _ _ first extent hfirst out waiting hsettle ih =>
      rw [hsettle] at ih
      obtain ⟨hout, hwaiting⟩ := ih fun t ht =>
        h t (List.mem_cons_of_mem _ (List.mem_of_mem_drop ht))
      have hmade := hhead t rest (h t (List.mem_cons_self ..))
      rw [hfirst] at hmade
      exact ⟨List.forall_mem_cons.2 ⟨hmade, hout⟩, hwaiting⟩

theorem settle_lexed {d : Dialect} (final : Bool) {words : List Token}
    (h : ∀ t ∈ words, t.Lexed d) :
    (∀ t ∈ (settle d final words).1, t.Lexed d) ∧ ∀ t ∈ (settle d final words).2, t.Lexed d :=
  settle_forall final (fun _ rest hword => head_lexed rest hword) h

end Phrase

/-! ### Events -/

namespace Event

/-- An event as a lexing run makes it. -/
def Lexed (d : Dialect) : Event → Prop
  | token t => t.Lexed d
  | opened .. | closed .. => True

/-- The brackets that are open after some events, innermost first, given those
before. Events in which a bracket closes that is not the innermost open one do
not nest. -/
def nest : List Bracket → List Event → Option (List Bracket)
  | around, [] => some around
  | around, token _ :: rest => nest around rest
  | around, opened b _ _ :: rest => nest (b :: around) rest
  | [], closed .. :: _ => none
  | b' :: around, closed b _ :: rest => if b = b' then nest around rest else none

theorem nest_append (around : List Bracket) (a b : List Event) :
    nest around (a ++ b) = (nest around a).bind (nest · b) := by
  induction a generalizing around with
  | nil => rfl
  | cons e a ih =>
      cases e with
      | token t => exact ih around
      | opened bracket _ _ => exact ih (bracket :: around)
      | closed bracket _ =>
          cases around with
          | nil => rfl
          | cons b' around =>
              simp only [List.cons_append, nest]
              split
              · exact ih around
              · rfl

/-- Tokens open and close nothing. -/
theorem nest_tokens (around : List Bracket) (out : List Token) :
    nest around (out.map .token) = some around := by
  induction out with
  | nil => rfl
  | cons t out ih => exact ih

end Event

namespace Scanner

/-- A scanner in good order: its tokens know what they are, and the brackets
of the events that are ready lead from those that were open before to those
that are open now. -/
structure Orderly (d : Dialect) (around : List Bracket) (s : Scanner) : Prop where
  dialect : s.dialect = d
  structured : s.options.structured = true
  words : ∀ t ∈ s.words, t.Lexed d
  ready : ∀ e ∈ s.ready, e.Lexed d
  nested : Event.nest around s.ready = some (s.nesting.map Prod.fst)
  finished : s.finished = true → s.nesting = []

variable {d : Dialect} {s s' : Scanner} {around : List Bracket}

/-- Delivering tokens keeps a scanner in good order. -/
theorem orderly_tokens (h : s.Orderly d around) {words out : List Token}
    (hwords : ∀ t ∈ words, t.Lexed d) (hout : ∀ t ∈ out, t.Lexed d) :
    Orderly d around { s with words, ready := s.ready ++ out.map .token } where
  dialect := h.dialect
  structured := h.structured
  words := hwords
  ready e he := by
    rcases List.mem_append.1 he with he | he
    · exact h.ready e he
    · obtain ⟨t, ht, rfl⟩ := List.mem_map.1 he
      exact hout t ht
  nested := by
    rw [Event.nest_append, h.nested]
    exact Event.nest_tokens _ out
  finished := h.finished

theorem orderly_wait (h : s.Orderly d around) {t : Token} (ht : t.Lexed d) :
    (s.wait t).Orderly d around := by
  obtain rfl := h.dialect
  have hwords (u : Token) (hu : u ∈ s.words ++ [t]) : u.Lexed s.dialect := by
    rcases List.mem_append.1 hu with hu | hu
    · exact h.words u hu
    · exact List.mem_singleton.1 hu ▸ ht
  have hsettle := Phrase.settle_lexed false hwords
  exact orderly_tokens h hsettle.2 hsettle.1

theorem orderly_flush (h : s.Orderly d around) : s.flush.Orderly d around := by
  obtain rfl := h.dialect
  have hsettle := Phrase.settle_lexed true h.words
  exact orderly_tokens h hsettle.2 hsettle.1

/-- Delivering an event keeps a scanner in good order if the brackets still lead
to those that are open. -/
theorem orderly_deliver (h : s.Orderly d around) {e : Event} {nesting : List (Bracket × Position)}
    (he : e.Lexed d)
    (hnest : Event.nest (s.nesting.map Prod.fst) [e] = some (nesting.map Prod.fst))
    (hfinished : s.finished = true → nesting = []) :
    Orderly d around { s.deliver e with nesting } := by
  have hflush := orderly_flush h
  refine ⟨h.dialect, h.structured, hflush.words, fun e' he' => ?_, ?_, hfinished⟩
  · rcases List.mem_append.1 he' with he' | he'
    · exact hflush.ready e' he'
    · exact List.mem_singleton.1 he' ▸ he
  · change Event.nest around (s.flush.ready ++ [e]) = _
    rw [Event.nest_append, hflush.nested]
    exact hnest

theorem orderly_spacePending (h : s.Orderly d around) (spacePending : Bool) :
    Orderly d around { s with spacePending } :=
  ⟨h.dialect, h.structured, h.words, h.ready, h.nested, h.finished⟩

theorem orderly_stageContent (h : s.Orderly d around) {t : Token} (ht : t.Lexed d) :
    (s.stageContent t).Orderly d around := by
  have ht' : Token.Lexed d { t with spaceBefore := s.spacePending } :=
    ⟨ht.operator, ht.combines, ht.symbol, ht.sign, ht.word, ht.placeholder, ht.quoted⟩
  have h' := orderly_spacePending h false
  unfold stageContent
  dsimp only
  split
  · exact orderly_wait h' ht'
  · exact orderly_deliver h' (e := .token _) ht' rfl h.finished

theorem orderly_stage (h : s.Orderly d around) {t : Token} (ht : t.Lexed d) :
    (s.stage t).Orderly d around := by
  have h' := orderly_spacePending h true
  unfold stage
  split
  · dsimp only
    split
    · exact orderly_wait h' ht
    · exact h'
  · dsimp only
    split
    · exact orderly_deliver h' (e := .token _) ht rfl h.finished
    · exact orderly_flush h'
  · exact orderly_stageContent h ht

/-- Taking in a lexeme keeps a scanner in good order. -/
theorem orderly_accept {place : Position} {lx : Lexeme} (h : s.Orderly d around)
    (hunfinished : s.finished = false) (hlx : lx.Known d)
    (ha : s.accept place lx = .ok s') : s'.Orderly d around := by
  have hfinished {nesting : List (Bracket × Position)} : s.finished = true → nesting = [] := by
    rw [hunfinished]
    nofun
  cases lx with
  | token t =>
      cases ha
      exact orderly_stage h hlx
  | opening b =>
      cases ha
      unfold openBlock
      dsimp only
      rw [if_pos h.structured]
      have hnest : Event.nest (s.nesting.map Prod.fst) [.opened b place s.spacePending] =
          some (((b, place) :: s.nesting).map Prod.fst) := rfl
      exact orderly_spacePending
        (orderly_deliver h (e := .opened b place s.spacePending) trivial hnest hfinished) false
  | closing b =>
      rw [accept] at ha
      split at ha
      next hpartner =>
        cases ha
        unfold closeBlock
        dsimp only
        rw [if_pos h.structured]
        have hnest : Event.nest (s.nesting.map Prod.fst) [.closed b place] =
            some (s.nesting.tail.map Prod.fst) := by
          cases hs : s.nesting with
          | nil => simp [hs] at hpartner
          | cons outer rest =>
              obtain rfl : outer.1 = b := by simpa [hs] using hpartner
              simp [Event.nest]
        exact orderly_spacePending (orderly_deliver h (e := .closed b place) trivial hnest hfinished)
          false
      next => cases ha

theorem orderly_skip (h : s.Orderly d around) (c : Char) (rest : List Char) (width : Nat) :
    (s.skip c rest width).Orderly d around :=
  ⟨h.dialect, h.structured, h.words, h.ready, h.nested, h.finished⟩

/-- What an answer says of the brackets, given those that were open before the
events that the scanner has not delivered. -/
def Tells (d : Dialect) (around : List Bracket) : Answer × Scanner → Prop
  | (.event e, s) => e.Lexed d ∧
      ∃ inner, Event.nest around [e] = some inner ∧ s.Orderly d inner
  | (.needMore, s) => s.Orderly d around
  | (.ended, _) => around = []
  | (.failed _, _) => True

theorem pop_tells (h : s.Orderly d around) (hend : s.ready = [] → s.nesting = []) :
    Tells d around s.pop := by
  have hnested := h.nested
  unfold pop
  cases hready : s.ready with
  | nil =>
      rw [hready, hend hready] at hnested
      exact Option.some.inj hnested
  | cons e rest =>
      have hlexed := h.ready
      rw [hready] at hnested hlexed
      obtain ⟨he, hrest⟩ := List.forall_mem_cons.1 hlexed
      rw [← List.singleton_append, Event.nest_append] at hnested
      obtain ⟨inner, hinner, hnested⟩ := Option.bind_eq_some_iff.1 hnested
      exact ⟨he, inner, hinner, h.dialect, h.structured, h.words, hrest, hnested, h.finished⟩

theorem finish_tells (h : s.Orderly d around) : Tells d around s.finish := by
  have hflush := orderly_flush h
  unfold finish
  dsimp only
  split
  · trivial
  next hnesting =>
    refine pop_tells ⟨hflush.dialect, hflush.structured, hflush.words, hflush.ready, hflush.nested, ?_⟩ ?_
    · exact fun _ => hnesting
    · exact fun _ => hnesting

theorem next_tells (h : s.Orderly d around) : Tells d around s.next := by
  fun_induction next s with
  | case1 s _ _ _ => exact finish_tells h
  | case2 s _ _ _ => exact h
  | case3 s _ c rest _ _ => exact h
  | case4 => trivial
  | case5 => trivial
  | case6 s hidle c rest _ lx width hlx t ht ih =>
      have hunfinished : s.finished = false := by simpa using (Bool.and_eq_true_iff.1 hidle).2
      have hknown : lx.Known d := h.dialect ▸ lexeme_known s.context c _ _ _ _ hlx
      exact ih (orderly_skip (orderly_accept h hunfinished hknown ht) c rest width)
  | case7 s hidle =>
      refine pop_tells h fun hready => h.finished ?_
      simpa [hready] using hidle

theorem orderly_close (h : s.Orderly d around) : s.close.Orderly d around :=
  ⟨h.dialect, h.structured, h.words, h.ready, h.nested, h.finished⟩

theorem orderly_feed (h : s.Orderly d around) (text : String) : (s.feed text).Orderly d around :=
  ⟨h.dialect, h.structured, h.words, h.ready, h.nested, h.finished⟩

theorem pull_tells (h : s.Orderly d around) (chunks : List String) :
    Tells d around ((s.pull chunks).1, (s.pull chunks).2.1) := by
  induction chunks generalizing s with
  | nil =>
      have hnext := next_tells h
      unfold pull
      split
      next t ht =>
        rw [ht] at hnext
        exact next_tells (orderly_close hnext)
      next a t _ ht => rwa [ht] at hnext
  | cons chunk chunks ih =>
      have hnext := next_tells h
      unfold pull
      split
      next t ht =>
        rw [ht] at hnext
        exact ih (orderly_feed hnext chunk)
      next a t _ ht => rwa [ht] at hnext

/-- A run that is asked for its next event gives one or comes to an end. -/
theorem pull_ne_needMore (s : Scanner) (chunks : List String) :
    (s.pull chunks).1 ≠ .needMore := by
  induction chunks generalizing s with
  | nil =>
      unfold pull
      split
      next t ht => exact (next_of_closed t.close rfl).1
      next a t hne ht => exact fun ha => hne (ha ▸ rfl)
  | cons chunk chunks ih =>
      unfold pull
      split
      next t ht => exact ih (t.feed chunk)
      next a t hne ht => exact fun ha => hne (ha ▸ rfl)

/-- The events of a run know what they are and nest. When a run does not fail,
no bracket is open at its end. -/
theorem run_tells (h : s.Orderly d around) (chunks : List String) :
    (∀ e ∈ (s.run chunks).1, e.Lexed d) ∧
      ∃ inner, Event.nest around (s.run chunks).1 = some inner ∧
        ((∀ e, (s.run chunks).2.1 ≠ .failed e) → inner = []) := by
  fun_induction run s chunks generalizing around with
  | case1 s chunks e s' rest hpull events answer last hrun ih =>
      have htells := pull_tells h chunks
      rw [hpull] at htells
      obtain ⟨he, inner, hinner, hs'⟩ := htells
      obtain ⟨hlexed, final, hfinal, hend⟩ := ih hs'
      rw [hrun] at hlexed hfinal hend
      refine ⟨List.forall_mem_cons.2 ⟨he, hlexed⟩, final, ?_, hend⟩
      rw [← List.singleton_append, Event.nest_append, hinner]
      exact hfinal
  | case2 s chunks answer s' rest hevent hpull =>
      have htells := pull_tells h chunks
      have hmore := pull_ne_needMore s chunks
      rw [hpull] at htells hmore
      refine ⟨by simp, around, rfl, fun hfails => ?_⟩
      cases answer with
      | event e => exact absurd rfl (hevent e)
      | needMore => exact absurd rfl hmore
      | ended => exact htells
      | failed e => exact absurd rfl (hfails e)

theorem orderly_start (d : Dialect) {options : LexOptions} (hs : options.structured = true) :
    Orderly d [] { dialect := d, options } where
  dialect := rfl
  structured := hs
  words t ht := by cases ht
  ready e he := by cases he
  nested := rfl
  finished h := by cases h

end Scanner

/-- What is known of the events of a text when brackets make blocks: they know
what they are, and their brackets nest, with none open at the end of a run that
does not fail. -/
theorem lexEvents_nest (d : Dialect) {options : LexOptions} (hs : options.structured = true)
    (chunks : List String) :
    (∀ e ∈ (lexEvents d options chunks).1, e.Lexed d) ∧
      ∃ inner, Event.nest [] (lexEvents d options chunks).1 = some inner ∧
        ((lexEvents d options chunks).2 = none → inner = []) := by
  obtain ⟨hlexed, inner, hinner, hend⟩ := Scanner.run_tells (Scanner.orderly_start d hs) chunks
  unfold lexEvents
  split
  next events e last hrun =>
    rw [hrun] at hlexed hinner
    exact ⟨hlexed, inner, hinner, nofun⟩
  next events answer last hne hrun =>
    rw [hrun] at hlexed hinner hend
    exact ⟨hlexed, inner, hinner, fun _ => hend hne⟩

/-- What is known of the events of a text under the usual options. -/
theorem lexEvents_tells (d : Dialect) (chunks : List String) :
    (∀ e ∈ (lexEvents d (.ofDialect d) chunks).1, e.Lexed d) ∧
      ∃ inner, Event.nest [] (lexEvents d (.ofDialect d) chunks).1 = some inner ∧
        ((lexEvents d (.ofDialect d) chunks).2 = none → inner = []) :=
  lexEvents_nest d rfl chunks

end DualSql
