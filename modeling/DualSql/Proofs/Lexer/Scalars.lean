import DualSql.Proofs.Lexer.Inheritance
import DualSql.Proofs.Lexer.Names
import DualSql.Proofs.Lexer.Numbers

/-! # Scalars

Numbers, hexadecimal and bit literals, placeholders and variables are the scalars among
the tokens. Each of them comes from one lexeme, which says how it is spelled: words that
wait for a phrase are no scalars, and neither are phrases.

Main definition: `Token.Scalar`. Main results: `lexeme_scalar` and
`scalar_of_mem_lexEvents`. -/

namespace DualSql

open Recogniser

/-- Whether tokens of the kind are scalars. -/
def TokenKind.isScalar (kind : TokenKind) : Bool :=
  kind matches .numberLiteral | .hexLiteral | .bitLiteral | .bindVariable | .variable

/-- Whether a character can stand in a variable that is written without quotes. -/
def isVariableChar (c : Char) : Bool :=
  isWordChar c || c == '.'

/-- Whether a variable can be written without quotes. -/
def isBareVariable (name : List Char) : Bool :=
  name.head?.any isWordChar && name.all isVariableChar

/-- The bases of the literals that are no decimal numbers. -/
inductive Radix where
  | sixteen
  | two
  deriving DecidableEq, Repr

namespace Radix

/-- The kind of the literals of a base. -/
def kind : Radix → TokenKind
  | sixteen => .hexLiteral
  | two => .bitLiteral

/-- The letter in front of digits in quotes. -/
def marker : Radix → Char
  | sixteen => 'X'
  | two => 'B'

/-- The letter between a zero and digits. -/
def letter : Radix → Char
  | sixteen => 'x'
  | two => 'b'

/-- Whether a character is a digit of a base. -/
def isDigit : Radix → Char → Bool
  | sixteen => isHexDigit
  | two => fun c => c == '0' || c == '1'

/-- What a failure calls the literals of a base. -/
def construct : Radix → Construct
  | sixteen => .hexLiteral
  | two => .bitLiteral

/-- The modifier of a literal in quotes. -/
def quotedMark (base : Radix) : String :=
  base.marker.toString

/-- The modifier of a literal that begins with a zero. -/
def bareMark (base : Radix) : String :=
  String.ofList ['0', base.letter]

end Radix

/-- A scalar as the lexer makes it. -/
inductive Token.Scalar (d : Dialect) (t : Token) : Prop
  | number (kind : t.kind = .numberLiteral) (modifier : t.modifier = none) (number : Decimal)
      (value : t.value.toList = number.text)
  | based (base : Radix) (kind : t.kind = base.kind)
      (form : t.modifier = some base.quotedMark ∨
        d = .mysql ∧ t.modifier = some base.bareMark ∧ t.value ≠ "")
      (digits : ∀ c ∈ t.value.toList, base.isDigit c = true)
  | numbered (kind : t.kind = .bindVariable) (modifier : t.modifier = none)
      (dialect : d = .postgres) (value : t.value ≠ "")
      (digits : ∀ c ∈ t.value.toList, c.isDigit = true)
  | placeholder (kind : t.kind = .bindVariable) (modifier : t.modifier = none)
      (dialect : d = .mysql) (value : t.value = "?")
  | named (kind : t.kind = .variable) (dialect : d = .mysql) (marker : String)
      (marked : marker = "@" ∨ marker = "@@") (modifier : t.modifier = some marker)
      (bare : t.delimiter = none → isBareVariable t.value.toList = true)

/-- A lexeme that is made as scalars are, if it is a scalar. -/
def Lexeme.ScalarIn (d : Dialect) : Lexeme → Prop
  | .token t => t.kind.isScalar = true → t.Scalar d
  | .opening _ | .closing _ => True

/-! ### Scalars that were read -/

theorem Recogniser.Gives.of_closed {α : Type} {P : α → Prop} {p : Recogniser α} (hp : Stable p)
    (h : ∀ text a n, p true text = .done a n → P a) : Gives P p := by
  intro closed text a n hdone
  cases closed with
  | true => exact h text a n hdone
  | false => exact h _ a n (hp.done_append hdone true [])

section Lexemes

variable (ctx : LexContext)

theorem checkDigits_eq (base : Radix) (digits : List Char) :
    checkDigits ctx base.construct digits =
      match digits.find? fun c => !base.isDigit c with
      | some bad => ctx.invalid base.construct (.badDigit bad)
      | none => pure () := by
  cases base <;> rfl

/-- Digits that pass the check are digits of their base. -/
theorem checkDigits_done {base : Radix} {digits text : List Char} {closed : Bool} {n : Nat}
    (h : checkDigits ctx base.construct digits closed text = .done () n) :
    ∀ c ∈ digits, base.isDigit c = true := by
  rw [checkDigits_eq] at h
  cases hfind : digits.find? fun c => !base.isDigit c with
  | some bad =>
      rw [hfind] at h
      cases h
  | none =>
      intro c hc
      simpa using List.find?_eq_none.1 hfind c hc

theorem forall_mem_ofList {p : Char → Prop} {chars : List Char} (h : ∀ c ∈ chars, p c) :
    ∀ c ∈ (String.ofList chars).toList, p c := by
  rwa [String.toList_ofList]

theorem ofList_ne_empty {chars : List Char} (h : chars ≠ []) : String.ofList chars ≠ "" := by
  rwa [ne_eq, ← String.toList_eq_nil_iff, String.toList_ofList]

theorem stringLexeme_scalar (quote : Char) (modifier : Option String) :
    Gives (Lexeme.ScalarIn ctx.dialect) (stringLexeme ctx quote modifier) :=
  Gives.bind fun _ => Gives.pure nofun

theorem identifierLexeme_scalar (quote : Char) :
    Gives (Lexeme.ScalarIn ctx.dialect) (identifierLexeme ctx quote) :=
  Gives.bind fun _ => Gives.ite (Gives.fail _) (Gives.pure nofun)

theorem lineComment_scalar (first : Char) :
    Gives (Lexeme.ScalarIn ctx.dialect) (lineComment ctx first) :=
  Gives.bind fun _ => Gives.pure nofun

theorem blockComment_scalar : Gives (Lexeme.ScalarIn ctx.dialect) (blockComment ctx) :=
  Gives.bind fun _ => Gives.pure nofun

theorem operatorLexeme_scalar (first : Char) :
    Gives (Lexeme.ScalarIn ctx.dialect) (operatorLexeme ctx first) := by
  refine Gives.bind fun run => ?_
  split
  · exact Gives.fail _
  · exact Gives.bind fun _ => Gives.pure nofun

theorem quotedDigits_scalar (base : Radix) :
    Gives (Lexeme.ScalarIn ctx.dialect) (quotedDigits ctx base.kind base.quotedMark) := by
  have hwhat : (if base.kind = .hexLiteral then Construct.hexLiteral else .bitLiteral) =
      base.construct := by
    cases base <;> rfl
  unfold quotedDigits
  rw [hwhat]
  refine Gives.bind fun digits closed text lx n h => ?_
  obtain ⟨⟨⟩, k, m, hcheck, h⟩ := bind_done h
  cases h
  exact fun _ => .based base rfl (.inl rfl) (forall_mem_ofList (checkDigits_done ctx hcheck))

theorem basedLexeme_scalar (hd : ctx.dialect = .mysql) (base : Radix) :
    Gives (Lexeme.ScalarIn ctx.dialect) (basedLexeme ctx base.letter) := by
  have hform : (if base.letter = 'x' then (TokenKind.hexLiteral, Construct.hexLiteral, "0x")
      else (.bitLiteral, .bitLiteral, "0b")) = (base.kind, base.construct, base.bareMark) := by
    cases base <;> rfl
  unfold basedLexeme
  rw [hform]
  refine Gives.bind fun _ => Gives.bind fun digits => ?_
  dsimp only
  split
  next => exact Gives.fail _
  next hsome =>
    intro closed text lx n h
    obtain ⟨⟨⟩, k, m, hcheck, h⟩ := bind_done h
    cases h
    have hvalue : String.ofList digits ≠ "" := ofList_ne_empty (by simpa using hsome)
    exact fun _ => .based base rfl (.inr ⟨hd, rfl, hvalue⟩)
      (forall_mem_ofList (checkDigits_done ctx hcheck))

theorem introducedLiteral_scalar {word : List Char} {literal : Recogniser Lexeme}
    (h : introducedLiteral? ctx word = some literal) :
    Gives (Lexeme.ScalarIn ctx.dialect) literal := by
  unfold introducedLiteral? at h
  dsimp only at h
  split at h
  · cases h
    exact Gives.bind fun _ => stringLexeme_scalar ctx _ _
  split at h
  · cases h
    exact Gives.bind fun _ => stringLexeme_scalar ctx _ _
  split at h
  · cases h
    exact Gives.bind fun _ => quotedDigits_scalar ctx .sixteen
  split at h
  · cases h
    exact Gives.bind fun _ => quotedDigits_scalar ctx .two
  split at h
  · cases h
    exact Gives.bind fun _ => stringLexeme_scalar ctx _ _
  · cases h

theorem bareWord_scalar (word : List Char) : (bareWord ctx word).ScalarIn ctx.dialect := by
  have hkind := Vocabulary.isWordKind_classify ctx.dialect (Text.toUpper (String.ofList word))
  unfold bareWord
  dsimp only
  generalize Vocabulary.classify ctx.dialect (Text.toUpper (String.ofList word)) = kind at hkind ⊢
  cases kind with
  | keyword | dataType | identifier => exact fun hscalar => (by cases hscalar)
  | _ => cases hkind

theorem wordLexeme_scalar (first : Char) :
    Gives (Lexeme.ScalarIn ctx.dialect) (wordLexeme ctx first) := by
  have bare (word : List Char) :
      Gives (Lexeme.ScalarIn ctx.dialect) (pure (bareWord ctx word) : Recogniser Lexeme) :=
    Gives.pure (bareWord_scalar ctx word)
  refine Gives.bind fun rest => Gives.bind fun c => Gives.ite ?_ (bare _)
  cases h : introducedLiteral? ctx (first :: rest) with
  | none => exact bare _
  | some literal => exact introducedLiteral_scalar ctx h

theorem numberLexeme_scalar {first : Char} {text : List Char} {lx : Lexeme} {n : Nat}
    (hfirst : first.isDigit = true ∨ first = '.' ∧ text.head?.any Char.isDigit = true)
    (h : numberLexeme ctx first true text = .done lx n) : lx.ScalarIn ctx.dialect := by
  obtain ⟨rest, k, m, hcovered, h⟩ := bind_done h
  cases h
  unfold covered at hcovered
  split at hcovered
  · cases hcovered
  · cases hcovered
  next hdone =>
    cases hcovered
    obtain ⟨number, hnumber⟩ := exists_decimal_of_done hdone hfirst
    exact fun _ => .number rfl rfl number (String.toList_ofList.trans hnumber.symm)

theorem dollarLexeme_scalar (hd : ctx.dialect = .postgres) :
    Gives (Lexeme.ScalarIn ctx.dialect) (dollarLexeme ctx) := by
  have bare : Gives (Lexeme.ScalarIn ctx.dialect)
      (pure (ctx.plain .operator ['$']) : Recogniser Lexeme) := Gives.pure nofun
  have string (width : Nat) : Gives (Lexeme.ScalarIn ctx.dialect) (dollarString ctx width) :=
    Gives.bind fun _ => Gives.bind fun _ => Gives.pure nofun
  refine Gives.of_closed (dollarLexeme_stable ctx) fun text lx n h => ?_
  rw [dollarLexeme, look_bind] at h
  cases text with
  | nil => exact bare _ _ _ _ h
  | cons c rest =>
      by_cases hdigit : c.isDigit = true
      · rw [List.head?_cons] at h
        simp only [hdigit, if_true] at h
        rw [takeWhile_bind, Scan.widen_eq_done, List.takeWhile_cons_of_pos hdigit] at h
        obtain ⟨m, h, -⟩ := h
        cases h
        refine fun _ => .numbered rfl rfl hd (ofList_ne_empty (List.cons_ne_nil _ _))
          (forall_mem_ofList (List.forall_mem_cons.2 ⟨hdigit, fun c hc => List.mem_takeWhile_imp hc⟩))
      · simp only [List.head?_cons, hdigit, Bool.false_eq_true, if_false] at h
        refine Gives.ite (string 1) (Gives.ite (Gives.bind fun name => ?_) bare) _ _ _ _ h
        exact Gives.bind fun c => Gives.ite (string _) bare

/-- What stands in quotes is shorter than the text with the quotes. -/
theorem length_lt_of_quotedBody {quote : Char} {what : Construct} {text value : List Char} {n : Nat}
    (h : quotedBody ctx quote .off what true text = .done value n) :
    value.length < text.length := by
  generalize hstyle : EscapeStyle.off = style at h
  fun_induction quotedBody ctx quote style what true text generalizing value n with
  | case1 =>
      change Scan.fail _ = Scan.done _ _ at h
      cases h
  | case2 | case4 =>
      cases h
      simp
  | case3 rest ih | case10 c rest _ _ ih =>
      rw [Scan.widen_eq_done] at h
      obtain ⟨m, h, -⟩ := h
      obtain ⟨body, hbody, rfl⟩ := Scan.map_eq_done.1 h
      have hlt := ih hbody
      simp only [List.length_cons]
      omega
  -- Without escapes a backslash is a character like the others.
  | case5 =>
      change Scan.fail _ = Scan.done _ _ at h
      cases h
  | case6 _ _ hescape | case7 _ _ hescape | case8 _ _ hescape | case9 _ _ hescape =>
      exact absurd hstyle.symm hescape.2

/-- What is read for a variable behind its marker. -/
theorem variableName_done {marker : String} {text : List Char} {lx : Lexeme} {n : Nat}
    (h : variableName ctx marker true text = .done lx n) :
    ∃ t, lx = .token t ∧ t.kind = .variable ∧ t.modifier = some marker ∧
      (t.delimiter = none → isBareVariable t.value.toList = true) ∧
      (t.value.toList = text → isBareVariable text = true) := by
  rw [variableName, look_bind] at h
  cases text with
  | nil => cases h
  | cons c rest =>
      rw [List.head?_cons] at h
      by_cases hquote : c = '\'' ∨ c = '"' ∨ c = '\x60'
      · simp only [hquote, if_true] at h
        obtain ⟨value, k, m, hvalue, h⟩ := bind_done h
        cases h
        refine ⟨_, rfl, rfl, rfl, fun hnone => ?_, fun heq => ?_⟩
        · cases hnone
        obtain rfl : value = c :: rest := String.toList_ofList.symm.trans heq
        obtain ⟨a, k, m, htake, hvalue⟩ := bind_done hvalue
        rw [take, if_pos (by simp)] at htake
        cases htake
        have hlength : (c :: rest).length < rest.length := length_lt_of_quotedBody ctx hvalue
        rw [List.length_cons] at hlength
        omega
      · simp only [hquote, if_false] at h
        split at h
        next hstart =>
          rw [takeWhile_bind, Scan.widen_eq_done] at h
          obtain ⟨m, h, -⟩ := h
          cases h
          have hall (run : List Char) (hrun : ∀ d ∈ c :: run, isVariableChar d = true) :
              isBareVariable (c :: run) = true := by
            have hc : isWordChar c = true := hstart
            simpa [isBareVariable, hc] using hrun
          have hfirst : isVariableChar c = true := by
            change (isWordChar c || c == '.') = true
            rw [show isWordChar c = true from hstart, Bool.true_or]
          have hbare : isBareVariable ((c :: rest).takeWhile isVariableChar) = true := by
            rw [List.takeWhile_cons_of_pos hfirst]
            exact hall _ (List.forall_mem_cons.2 ⟨hfirst, fun d hd => List.mem_takeWhile_imp hd⟩)
          refine ⟨_, rfl, rfl, rfl, fun _ => ?_, fun heq => ?_⟩
          · rwa [LexContext.token, String.toList_ofList]
          · rw [← heq, LexContext.token, String.toList_ofList]
            exact hbare
        next => cases h

theorem variableName_scalar (hd : ctx.dialect = .mysql) {marker : String}
    (hmarker : marker = "@" ∨ marker = "@@") :
    Gives (Lexeme.ScalarIn ctx.dialect) (variableName ctx marker) := by
  refine Gives.of_closed (variableName_stable ctx marker) fun text lx n h => ?_
  obtain ⟨t, rfl, hkind, hmodifier, hbare, -⟩ := variableName_done ctx h
  exact fun _ => .named hkind hd marker hmarker hmodifier hbare

theorem variableLexeme_scalar (hd : ctx.dialect = .mysql) :
    Gives (Lexeme.ScalarIn ctx.dialect) (variableLexeme ctx) :=
  Gives.bind fun _ => Gives.ite (Gives.bind fun _ => variableName_scalar ctx hd (.inr rfl))
    (variableName_scalar ctx hd (.inl rfl))

theorem ordinaryLexeme_scalar {c : Char} :
    Gives (Lexeme.ScalarIn ctx.dialect) (ordinaryLexeme ctx c) := by
  unfold ordinaryLexeme
  refine Gives.ite (lineComment_scalar ctx _) (Gives.ite (stringLexeme_scalar ctx _ _) ?_)
  refine Gives.ite (Gives.ite (identifierLexeme_scalar ctx _) (stringLexeme_scalar ctx _ _)) ?_
  refine Gives.ite (identifierLexeme_scalar ctx _) ?_
  split
  next hdollar =>
    refine dollarLexeme_scalar ctx ?_
    cases hd : ctx.dialect with
    | postgres => rfl
    | mysql =>
        rw [hd] at hdollar
        cases hdollar.2
  next =>
  split
  next hplaceholder =>
    exact Gives.pure fun _ => .placeholder rfl rfl hplaceholder.2 (by rw [hplaceholder.1]; rfl)
  next =>
  split
  next hvariable => exact variableLexeme_scalar ctx hvariable.2
  next =>
  split
  next hdigit =>
    exact Gives.of_closed (numberLexeme_stable ctx c) fun text lx n =>
      numberLexeme_scalar ctx (.inl hdigit)
  next =>
  refine Gives.ite (Gives.pure nofun) ?_
  split
  · exact Gives.pure trivial
  · exact Gives.pure trivial
  · exact Gives.ite (wordLexeme_scalar ctx _) (Gives.ite (operatorLexeme_scalar ctx _) (Gives.fail _))

theorem dotStartsNumber_done {text : List Char} {k : Nat}
    (h : dotStartsNumber ctx true text = .done true k) :
    k = 0 ∧ text.head?.any Char.isDigit = true := by
  unfold dotStartsNumber at h
  split at h
  next => cases h
  next =>
    rw [look_bind] at h
    obtain ⟨hstarts, rfl⟩ : text.head?.any Char.isDigit = true ∧ 0 = k := by
      simpa [Pure.pure] using h
    exact ⟨rfl, hstarts⟩

/-- Every lexeme that is a scalar is made as scalars are. -/
theorem lexeme_scalar (c : Char) : Gives (Lexeme.ScalarIn ctx.dialect) (lexeme ctx c) := by
  have ordinary := ordinaryLexeme_scalar ctx (c := c)
  unfold lexeme
  refine Gives.ite (Gives.bind fun _ => Gives.pure nofun) ?_
  refine Gives.ite ?_ (Gives.ite ?_ ?_)
  · refine Gives.bind fun next => Gives.ite ?_ ordinary
    exact Gives.bind fun starts => Gives.ite (lineComment_scalar ctx c) ordinary
  · exact Gives.bind fun next => Gives.ite (blockComment_scalar ctx) ordinary
  split
  next hzero =>
    refine Gives.bind fun next => ?_
    split
    · exact basedLexeme_scalar ctx hzero.2 .sixteen
    · exact basedLexeme_scalar ctx hzero.2 .two
    · exact ordinary
  next =>
  split
  next hpoint =>
    refine Gives.of_closed ?_ fun text lx n h => ?_
    · refine (dotStartsNumber_stable ctx).bind fun starts => ?_
      exact (numberLexeme_stable ctx c).ite (ordinaryLexeme_stable ctx c)
    obtain ⟨starts, k, m, hstarts, h⟩ := bind_done h
    cases starts with
    | false => exact ordinary _ _ _ _ h
    | true =>
        obtain ⟨rfl, hdigit⟩ := dotStartsNumber_done ctx hstarts
        exact numberLexeme_scalar ctx (.inr ⟨hpoint, hdigit⟩) h
  next => exact ordinary

end Lexemes

/-! ### Scalars of a run -/

theorem Token.Scalar.setSpaceBefore {d : Dialect} {t : Token} (h : t.Scalar d)
    (spaceBefore : Bool) : Token.Scalar d { t with spaceBefore } := by
  cases h with
  | number kind modifier number value => exact .number kind modifier number value
  | based base kind form digits => exact .based base kind form digits
  | numbered kind modifier dialect value digits => exact .numbered kind modifier dialect value digits
  | placeholder kind modifier dialect value => exact .placeholder kind modifier dialect value
  | named kind dialect marker marked modifier bare =>
      exact .named kind dialect marker marked modifier bare

/-- Phrases are no scalars. -/
theorem Vocabulary.isScalar_of_complete {d : Dialect} {text : String} {kind : TokenKind}
    (h : (phrase d text).complete = some kind) : kind.isScalar = false := by
  have hall : ∀ entry ∈ compounds d, entry.2.isScalar = false := by
    cases d <;> decide
  exact hall _ (mem_of_lookup h)

theorem Phrase.isScalar_of_isWord {t : Token} (h : isWord t = true) : t.kind.isScalar = false := by
  simp only [isWord, Bool.and_eq_true, Bool.or_eq_true, beq_iff_eq] at h
  rcases h.1 with (hkind | hkind) | hkind <;> rw [hkind] <;> rfl

theorem Token.Scalar.inherited (d : Dialect) :
    Token.Inherited d fun t => t.kind.isScalar = true → t.Scalar d where
  lexeme ctx c hd := by
    have hscalar := lexeme_scalar ctx c
    rw [hd] at hscalar
    exact hscalar
  bracket b place := ⟨fun hscalar => (by cases hscalar), fun hscalar => (by cases hscalar)⟩
  spaced spaceBefore h hscalar := (h hscalar).setSpaceBefore spaceBefore
  head {word} rest h hscalar := by
    rcases Phrase.head_cases d word rest with
      ⟨found, hcomplete, hhead⟩ | ⟨hkeyword, hhead⟩ | hhead <;> rw [hhead] at hscalar ⊢
    · have hphrase := Vocabulary.isScalar_of_complete hcomplete
      rw [show found.kind.isScalar = true from hscalar] at hphrase
      cases hphrase
    · rw [show word.kind.isScalar = TokenKind.isScalar .keyword from congrArg _ hkeyword] at hscalar
      cases hscalar
    · exact h hscalar

/-- Every scalar of a text is made as scalars are. -/
theorem scalar_of_mem_lexEvents {d : Dialect} {options : LexOptions} {chunks : List String}
    {t : Token} (ht : .token t ∈ (lexEvents d options chunks).1)
    (hscalar : t.kind.isScalar = true) : t.Scalar d :=
  (Token.Scalar.inherited d).of_mem_lexEvents ht hscalar

end DualSql
