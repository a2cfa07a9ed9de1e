import DualSql.Proofs.Lexer.Scalars

/-! # Names, marks and literals as they are read

No name is empty, a mark is a comma, a semicolon, a point or a bracket, a dollar stands alone
only where the dialect quotes with dollars, and a literal in quotes is introduced by one of two
letters or, in MySQL, by the name of a character set.

Main definition: `Token.Formed`. Main results: `lexeme_formed` and `formed_of_mem_lexEvents`. -/

namespace DualSql

open Recogniser

/-- The texts of marks and brackets. -/
def markTexts : List String :=
  [",", ";", ".", "(", ")", "[", "]", "\x7b", "\x7d"]

/-- Whether a word is the name of a character set, with the sign that tells it. -/
def isCharset (word : List Char) : Bool :=
  word.head? == some '_' && 1 < word.length && word.all isWordChar

/-- What the lexer makes sure of in a token that is neither a word nor a scalar. -/
structure Token.Formed (d : Dialect) (t : Token) : Prop where
  leaf : t.kind.isBlock = false
  name : t.kind = .identifier → t.value ≠ ""
  mark : t.kind = .punctuation → t.value ∈ markTexts
  dollar : t.kind = .operator → t.value = "$" → d = .postgres
  introducer : t.kind = .stringLiteral → ∀ m ∈ t.modifier,
    m = "E" ∨ m = "N" ∨ d = .mysql ∧ isCharset m.toList = true

/-- Whether nothing is asked of the tokens of a kind. -/
def TokenKind.isFree (kind : TokenKind) : Bool :=
  !(kind.isBlock || kind matches .identifier | .punctuation | .operator | .stringLiteral)

theorem Token.formed_of_isFree {d : Dialect} {t : Token} {kind : TokenKind} (hkind : t.kind = kind)
    (h : kind.isFree = true) : t.Formed d := by
  obtain ⟨hleaf, hname, hmark, hsign, hliteral⟩ : kind.isBlock = false ∧ kind ≠ .identifier ∧
      kind ≠ .punctuation ∧ kind ≠ .operator ∧ kind ≠ .stringLiteral := by
    revert h
    cases kind <;> decide
  subst hkind
  exact ⟨hleaf, fun h => absurd h hname, fun h => absurd h hmark, fun h => absurd h hsign,
    fun h => absurd h hliteral⟩

theorem dialect_of_dollarQuoting {d : Dialect} (h : d.dollarQuoting = true) : d = .postgres := by
  cases d with
  | postgres => rfl
  | mysql => cases h

theorem ne_dollar_of_isOperatorChar {d : Dialect} {c : Char}
    (h : Vocabulary.isOperatorChar d c = true) : c ≠ '$' := by
  rintro rfl
  revert h
  cases d <;> decide

section Lexemes

variable (ctx : LexContext)

/-- A lexeme whose token is formed. -/
abbrev Forms (p : Recogniser Lexeme) : Prop :=
  Gives (Lexeme.Holds (Token.Formed ctx.dialect)) p

theorem plain_formed {kind : TokenKind} (text : List Char) (h : kind.isFree = true) :
    (ctx.plain kind text).Holds (Token.Formed ctx.dialect) :=
  Token.formed_of_isFree rfl h

theorem stringLexeme_formed (quote : Char) {modifier : Option String}
    (h : ∀ m ∈ modifier, m = "E" ∨ m = "N" ∨ ctx.dialect = .mysql ∧ isCharset m.toList = true) :
    Forms ctx (stringLexeme ctx quote modifier) :=
  Gives.bind fun _ => Gives.pure ⟨rfl, nofun, nofun, nofun, fun _ => h⟩

theorem identifierLexeme_formed (quote : Char) : Forms ctx (identifierLexeme ctx quote) := by
  refine Gives.bind fun value => ?_
  split
  next => exact Gives.fail _
  next hsome =>
    refine Gives.pure ⟨rfl, fun _ hempty => hsome ?_, nofun, nofun, nofun⟩
    have hvalue : String.ofList value = "" := hempty
    rw [← String.toList_eq_nil_iff, String.toList_ofList] at hvalue
    rw [hvalue]
    rfl

theorem quotedDigits_formed {kind : TokenKind} (marker : String) (h : kind.isFree = true) :
    Forms ctx (quotedDigits ctx kind marker) :=
  Gives.bind fun _ => Gives.bind fun _ => Gives.pure (Token.formed_of_isFree rfl h)

theorem basedLexeme_formed (letter : Char) : Forms ctx (basedLexeme ctx letter) := by
  unfold basedLexeme
  have hkind (kind : TokenKind) (what : Construct) (marker : String) (h : kind.isFree = true) :
      Forms ctx (do
        let _ ← take 1
        let digits ← takeWhile fun c => Text.isAlphanumeric c || c == '_'
        if digits.isEmpty then ctx.invalid what .noDigits
        else
          checkDigits ctx what digits
          pure (.token { ctx.token kind digits with modifier := marker })) := by
    refine Gives.bind fun _ => Gives.bind fun digits => Gives.ite (Gives.fail _) ?_
    exact Gives.bind fun _ => Gives.pure (Token.formed_of_isFree rfl h)
  by_cases hletter : letter = 'x'
  · simp only [hletter, if_true]
    exact hkind .hexLiteral .hexLiteral "0x" rfl
  · simp only [hletter, if_false]
    exact hkind .bitLiteral .bitLiteral "0b" rfl

theorem lineComment_formed (first : Char) : Forms ctx (lineComment ctx first) :=
  Gives.bind fun _ => Gives.pure (plain_formed ctx _ rfl)

theorem blockComment_formed : Forms ctx (blockComment ctx) :=
  Gives.bind fun _ => Gives.pure (plain_formed ctx _ rfl)

theorem numberLexeme_formed (first : Char) : Forms ctx (numberLexeme ctx first) :=
  Gives.bind fun _ => Gives.pure (plain_formed ctx _ rfl)

theorem operatorLexeme_formed {first : Char} (hfirst : first ≠ '$') :
    Forms ctx (operatorLexeme ctx first) := by
  refine Gives.bind fun run => ?_
  split
  · exact Gives.fail _
  · refine Gives.bind fun rest => Gives.pure ⟨rfl, nofun, nofun, fun _ hdollar => ?_, nofun⟩
    have hchars : first :: rest = ['$'] := String.ofList_injective hdollar
    exact absurd (List.cons.inj hchars).1 hfirst

theorem dollarLexeme_formed (hd : ctx.dialect = .postgres) : Forms ctx (dollarLexeme ctx) := by
  have hbare : Forms ctx (pure (ctx.plain .operator ['$'])) :=
    Gives.pure ⟨rfl, nofun, nofun, fun _ _ => hd, nofun⟩
  have hstring (width : Nat) : Forms ctx (dollarString ctx width) :=
    Gives.bind fun _ => Gives.bind fun _ => Gives.pure ⟨rfl, nofun, nofun, nofun, fun _ => nofun⟩
  refine Gives.bind fun c => ?_
  split
  · exact hbare
  · refine Gives.ite (Gives.bind fun _ => Gives.pure (plain_formed ctx _ rfl)) ?_
    refine Gives.ite (hstring 1) (Gives.ite (Gives.bind fun name => ?_) hbare)
    exact Gives.bind fun _ => Gives.ite (hstring _) hbare

theorem variableName_formed (marker : String) : Forms ctx (variableName ctx marker) := by
  refine Gives.bind fun c => ?_
  split
  · exact Gives.fail _
  · refine Gives.ite (Gives.bind fun _ => Gives.pure (Token.formed_of_isFree rfl rfl)) ?_
    exact Gives.ite (Gives.bind fun _ => Gives.pure (Token.formed_of_isFree rfl rfl)) (Gives.fail _)

theorem introducedLiteral_formed {word : List Char} {literal : Recogniser Lexeme}
    (hword : ∀ c ∈ word.tail, isWordChar c = true)
    (h : introducedLiteral? ctx word = some literal) : Forms ctx literal := by
  unfold introducedLiteral? at h
  dsimp only at h
  split at h
  · cases h
    exact Gives.bind fun _ => stringLexeme_formed ctx _ (by simp)
  split at h
  · cases h
    exact Gives.bind fun _ => stringLexeme_formed ctx _ (by simp)
  split at h
  · cases h
    exact Gives.bind fun _ => quotedDigits_formed ctx _ rfl
  split at h
  · cases h
    exact Gives.bind fun _ => quotedDigits_formed ctx _ rfl
  split at h
  next hcharset =>
    cases h
    obtain ⟨hd, hlength, hfirst⟩ := hcharset
    refine Gives.bind fun _ => stringLexeme_formed ctx _ fun m hm => .inr (.inr ⟨hd, ?_⟩)
    obtain rfl : String.ofList word = m := Option.some.inj hm
    rw [String.toList_ofList]
    cases word with
    | nil => cases hfirst
    | cons first rest =>
        obtain rfl : first = '_' := Option.some.inj hfirst
        have hsign : isWordChar '_' = true := by decide
        have hlength' : 0 < rest.length := by simpa using hlength
        simpa [isCharset, hsign, hlength'] using hword
  next => cases h

theorem bareWord_formed {word : List Char} (hword : word ≠ []) :
    (bareWord ctx word).Holds (Token.Formed ctx.dialect) := by
  have hkind := Vocabulary.isWordKind_classify ctx.dialect (Text.toUpper (String.ofList word))
  unfold bareWord
  dsimp only
  generalize Vocabulary.classify ctx.dialect (Text.toUpper (String.ofList word)) = kind at hkind ⊢
  cases kind with
  | identifier =>
      refine ⟨rfl, fun _ hempty => hword ?_, nofun, nofun, nofun⟩
      have hvalue : String.ofList word = "" := hempty
      rwa [← String.toList_eq_nil_iff, String.toList_ofList] at hvalue
  | keyword | dataType => exact plain_formed ctx _ rfl
  | _ => cases hkind

theorem wordLexeme_formed (first : Char) : Forms ctx (wordLexeme ctx first) := by
  have bare (rest : List Char) : Forms ctx (pure (bareWord ctx (first :: rest))) := by
    have hformed := bareWord_formed ctx (List.cons_ne_nil first rest)
    generalize bareWord ctx (first :: rest) = lx at hformed ⊢
    exact Gives.pure hformed
  refine Gives.of_closed (wordLexeme_stable ctx first) fun text lx n h => ?_
  rw [wordLexeme, takeWhile_bind, Scan.widen_eq_done] at h
  obtain ⟨m, h, -⟩ := h
  have hrest : ∀ c ∈ text.takeWhile isWordChar, isWordChar c = true := fun c hc =>
    List.mem_takeWhile_imp hc
  rw [look_bind] at h
  split at h
  next =>
    cases hliteral : introducedLiteral? ctx (first :: text.takeWhile isWordChar) with
    | none =>
        rw [hliteral] at h
        exact bare _ _ _ _ _ h
    | some literal =>
        rw [hliteral] at h
        exact introducedLiteral_formed ctx (by exact hrest) hliteral _ _ _ _ h
  next => exact bare _ _ _ _ _ h

theorem ordinaryLexeme_formed (c : Char) : Forms ctx (ordinaryLexeme ctx c) := by
  have hmark (c : Char) (h : String.ofList [c] ∈ markTexts) :
      Forms ctx (pure (ctx.plain .punctuation [c])) :=
    Gives.pure ⟨rfl, fun hkind => (by cases hkind), fun _ => h, fun hkind => (by cases hkind),
      fun hkind => (by cases hkind)⟩
  unfold ordinaryLexeme
  refine Gives.ite (lineComment_formed ctx _) (Gives.ite (stringLexeme_formed ctx _ nofun) ?_)
  refine Gives.ite (Gives.ite (identifierLexeme_formed ctx _) (stringLexeme_formed ctx _ nofun)) ?_
  refine Gives.ite (identifierLexeme_formed ctx _) ?_
  by_cases hdollar : c = '$' ∧ ctx.dialect.dollarQuoting = true
  · rw [if_pos hdollar]
    exact dollarLexeme_formed ctx (dialect_of_dollarQuoting hdollar.2)
  rw [if_neg hdollar]
  refine Gives.ite (Gives.pure (plain_formed ctx _ rfl)) (Gives.ite ?_ ?_)
  · exact Gives.bind fun _ => Gives.ite (Gives.bind fun _ => variableName_formed ctx _)
      (variableName_formed ctx _)
  refine Gives.ite (numberLexeme_formed ctx _) ?_
  split
  next h =>
    refine hmark c ?_
    rcases h with rfl | rfl | rfl <;> decide
  next =>
  split
  · exact Gives.pure trivial
  · exact Gives.pure trivial
  · refine Gives.ite (wordLexeme_formed ctx _) ?_
    by_cases hop : Vocabulary.isOperatorChar ctx.dialect c = true
    · rw [if_pos hop]
      exact operatorLexeme_formed ctx (ne_dollar_of_isOperatorChar hop)
    · rw [if_neg hop]
      exact Gives.fail _

theorem lexeme_formed (c : Char) : Forms ctx (lexeme ctx c) := by
  have ordinary := ordinaryLexeme_formed ctx c
  unfold lexeme
  refine Gives.ite (Gives.bind fun _ => Gives.pure (plain_formed ctx _ rfl)) ?_
  refine Gives.ite ?_ (Gives.ite ?_ (Gives.ite ?_ ?_))
  · refine Gives.bind fun _ => Gives.ite ?_ ordinary
    exact Gives.bind fun _ => Gives.ite (lineComment_formed ctx c) ordinary
  · exact Gives.bind fun _ => Gives.ite (blockComment_formed ctx) ordinary
  · refine Gives.bind fun _ => ?_
    split
    · exact basedLexeme_formed ctx 'x'
    · exact basedLexeme_formed ctx 'b'
    · exact ordinary
  · refine Gives.ite ?_ ordinary
    exact Gives.bind fun _ => Gives.ite (numberLexeme_formed ctx c) ordinary

end Lexemes

/-! ### Tokens of a run -/

theorem Vocabulary.isFree_of_complete {d : Dialect} {text : String} {kind : TokenKind}
    (h : (phrase d text).complete = some kind) :
    kind.isFree = true ∨ kind = .operator ∧ text ≠ "$" := by
  have hall : ∀ entry ∈ compounds d,
      entry.2.isFree = true ∨ entry.2 = .operator ∧ entry.1 ≠ "$" := by
    cases d <;> decide
  exact hall _ (mem_of_lookup h)

theorem Token.Formed.inherited (d : Dialect) : Token.Inherited d (Token.Formed d) where
  lexeme ctx c hd := by
    subst hd
    exact lexeme_formed ctx c
  bracket b place := by
    have hmark (value : String) (h : value ∈ markTexts) :
        Token.Formed d { kind := .punctuation, value, position := place } :=
      ⟨rfl, fun hkind => (by cases hkind), fun _ => h, fun hkind => (by cases hkind),
        fun hkind => (by cases hkind)⟩
    cases b <;> exact ⟨hmark _ (by decide), hmark _ (by decide)⟩
  spaced spaceBefore h := ⟨h.leaf, h.name, h.mark, h.dollar, h.introducer⟩
  head {word} rest h := by
    rcases Phrase.head_cases d word rest with
      ⟨found, hcomplete, hhead⟩ | ⟨-, hhead⟩ | hhead <;> rw [hhead]
    · rcases Vocabulary.isFree_of_complete hcomplete with hfree | ⟨hkind, hphrase⟩
      · exact Token.formed_of_isFree rfl hfree
      · have hkind' : (Phrase.compound d word found).kind = .operator := hkind
        refine ⟨by rw [hkind']; rfl, fun h => ?_, fun h => ?_, fun _ h => absurd h hphrase,
          fun h => ?_⟩
        all_goals cases hkind'.symm.trans h
    · exact ⟨h.leaf, h.name, h.mark, h.dollar, h.introducer⟩
    · exact h

/-- Names, marks and literals of a text are made as the lexer makes them. -/
theorem formed_of_mem_lexEvents {d : Dialect} {options : LexOptions} {chunks : List String}
    {t : Token} (ht : .token t ∈ (lexEvents d options chunks).1) : t.Formed d :=
  (Token.Formed.inherited d).of_mem_lexEvents ht

end DualSql
