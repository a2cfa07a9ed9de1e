import DualSql.Proofs.Lexer.Scalars

/-! # Scalars are read back

What is written for a scalar is read back as that scalar, with two exceptions: a variable
whose name can only stand in quotes, because its quotes are not written, and a numbered
placeholder whose number is not below `2 ^ 64`, because its place is written instead.

Main definitions: `Token.SameScalar` and `Token.IsWritable`. Main result:
`Token.sameScalar_iff_isWritable`. -/

namespace DualSql

open Recogniser

/-! ### Scalars as lexemes -/

section Lexemes

variable {ctx : LexContext} {digits rest : List Char}

theorem isAlphanumeric_of_isHexDigit {c : Char} (h : isHexDigit c = true) :
    Text.isAlphanumeric c = true := by
  have hascii : c.toNat < 128 := by
    simp only [isHexDigit, Char.isDigit, Bool.or_eq_true, Bool.and_eq_true, decide_eq_true_eq,
      Char.le_def, UInt32.le_iff_toNat_le] at h
    change (48 ≤ c.toNat ∧ c.toNat ≤ 57 ∨ 97 ≤ c.toNat ∧ c.toNat ≤ 102) ∨
      65 ≤ c.toNat ∧ c.toNat ≤ 70 at h
    omega
  have hall : ∀ code < 128, isHexDigit (Char.ofNat code) = true →
      Text.isAlphanumeric (Char.ofNat code) = true := by
    decide +kernel
  have hc := hall c.toNat hascii
  rw [Char.ofNat_toNat] at hc
  exact hc h

theorem Radix.isAlphanumeric_of_isDigit (base : Radix) {c : Char} (h : base.isDigit c = true) :
    Text.isAlphanumeric c = true := by
  cases base with
  | sixteen => exact isAlphanumeric_of_isHexDigit h
  | two =>
      simp only [Radix.isDigit, Bool.or_eq_true, beq_iff_eq] at h
      rcases h with rfl | rfl <;> rfl

theorem checkDigits_of_forall (base : Radix) (hdigits : ∀ c ∈ digits, base.isDigit c = true) :
    checkDigits ctx base.construct digits = pure () := by
  have hnone : (digits.find? fun c => !base.isDigit c) = none :=
    List.find?_eq_none.2 fun c hc => by simp [hdigits c hc]
  rw [checkDigits_eq, hnone]

theorem denotes_of_forall_ne {quote : Char} {what : Construct} {chars : List Char}
    (h : ∀ c ∈ chars, c ≠ quote) : Denotes ctx quote .off what chars chars := by
  induction chars with
  | nil => exact denotes_nil
  | cons c chars ih =>
      obtain ⟨hc, hchars⟩ := List.forall_mem_cons.1 h
      exact (denotes_self hc (.inr rfl)).append (ih hchars)

/-- Digits in quotes are read back, if no further quote follows. -/
theorem lexeme_quotedDigits (base : Radix) (hdigits : ∀ c ∈ digits, base.isDigit c = true)
    (hrest : rest.head? ≠ some '\'') :
    lexeme ctx base.marker true ('\'' :: (digits ++ '\'' :: rest)) =
      .done (.token { ctx.token base.kind digits with
          delimiter := "'", modifier := base.quotedMark }) (digits.length + 2) := by
  have hlexeme (text : List Char) : lexeme ctx base.marker true ('\'' :: text) =
      (quotedDigits ctx base.kind base.quotedMark true text).widen 1 := by
    obtain ⟨d, options, start, before⟩ := ctx
    have hintroduced : lexeme ⟨d, options, start, before⟩ base.marker true ('\'' :: text) =
        Scan.widen 0 (Scan.widen 0 (Scan.widen 1
          (quotedDigits ⟨d, options, start, before⟩ base.kind base.quotedMark true text))) := by
      cases d <;> cases base <;> rfl
    rw [hintroduced, Scan.widen_zero, Scan.widen_zero]
  have hwhat : (if base.kind = .hexLiteral then Construct.hexLiteral else .bitLiteral) =
      base.construct := by
    cases base <;> rfl
  have hquote : ∀ c ∈ digits, c ≠ '\'' := by
    rintro c hc rfl
    exact absurd (base.isAlphanumeric_of_isDigit (hdigits _ hc)) (by decide)
  have hdenotes : Denotes ctx '\'' .off base.construct digits digits := denotes_of_forall_ne hquote
  have hbody := hdenotes.body hrest
  rw [hlexeme, quotedDigits]
  dsimp only
  rw [hwhat, bind_of_done hbody, checkDigits_of_forall base hdigits]
  change Scan.done _ (1 + (digits.length + 1)) = _
  rw [Nat.add_comm 1]

theorem lexeme_zero (hd : ctx.dialect = .mysql) (base : Radix) (text : List Char) :
    lexeme ctx '0' true (base.letter :: text) = basedLexeme ctx base.letter true (base.letter :: text) := by
  obtain ⟨d, options, start, before⟩ := ctx
  cases hd
  have hlook : lexeme ⟨.mysql, options, start, before⟩ '0' true (base.letter :: text) =
      Scan.widen 0 (basedLexeme ⟨.mysql, options, start, before⟩ base.letter true
        (base.letter :: text)) := by
    cases base <;> rfl
  rw [hlook, Scan.widen_zero]

/-- Digits behind a zero and a letter are read back, if no word goes on behind them. -/
theorem lexeme_basedDigits (base : Radix) (hd : ctx.dialect = .mysql) (hsome : digits ≠ [])
    (hdigits : ∀ c ∈ digits, base.isDigit c = true) (hrest : Stops isWordChar rest) :
    lexeme ctx '0' true (base.letter :: (digits ++ rest)) =
      .done (.token { ctx.token base.kind digits with modifier := base.bareMark })
        (digits.length + 1) := by
  have hform : (if base.letter = 'x' then (TokenKind.hexLiteral, Construct.hexLiteral, "0x")
      else (.bitLiteral, .bitLiteral, "0b")) = (base.kind, base.construct, base.bareMark) := by
    cases base <;> rfl
  have hrun : ∀ c ∈ digits, (Text.isAlphanumeric c || c == '_') = true := fun c hc => by
    rw [base.isAlphanumeric_of_isDigit (hdigits c hc), Bool.true_or]
  have hstops : Stops (fun c => Text.isAlphanumeric c || c == '_') rest := by
    intro c hc
    have hword : (Text.isAlphanumeric c || c == '_' || c == '$') = false := hrest c hc
    exact (Bool.or_eq_false_iff.1 hword).1
  have hempty : digits.isEmpty = false := by rwa [List.isEmpty_eq_false_iff]
  rw [lexeme_zero hd, basedLexeme, hform]
  dsimp only
  rw [take_bind (by simp), List.drop_succ_cons, List.drop_zero, takeWhile_bind,
    hstops.takeWhile_append hrun, hempty]
  simp only [Bool.false_eq_true, if_false, checkDigits_of_forall base hdigits]
  change Scan.done _ (1 + digits.length) = _
  rw [Nat.add_comm 1]

/-- A numbered placeholder is read back, if no digit follows. -/
theorem lexeme_numbered (hd : ctx.dialect = .postgres) (hsome : digits ≠ [])
    (hdigits : ∀ c ∈ digits, c.isDigit = true) (hrest : Stops Char.isDigit rest) :
    lexeme ctx '$' true (digits ++ rest) =
      .done (.token (ctx.token .bindVariable digits)) digits.length := by
  have hlexeme : lexeme ctx '$' = dollarLexeme ctx := by
    obtain ⟨d, options, start, before⟩ := ctx
    cases hd
    rfl
  obtain ⟨c, digits, rfl⟩ := List.exists_cons_of_ne_nil hsome
  have hc : c.isDigit = true := hdigits c List.mem_cons_self
  rw [hlexeme, dollarLexeme, look_bind, List.cons_append, List.head?_cons]
  simp only [hc, if_true]
  rw [← List.cons_append, takeWhile_bind, hrest.takeWhile_append hdigits]
  rfl

theorem isBareVariable_cons {name : List Char} (h : isBareVariable name = true) :
    ∃ c more, name = c :: more ∧ isWordChar c = true ∧ ∀ d ∈ name, isVariableChar d = true := by
  cases name with
  | nil => cases h
  | cons c more =>
      simp only [isBareVariable, Bool.and_eq_true, List.all_eq_true] at h
      exact ⟨c, more, rfl, h.1, h.2⟩

/-- A variable with a bare name is read back, if nothing follows that could belong to it. -/
theorem variableName_text {name : List Char} (marker : String) (hname : isBareVariable name = true)
    (hrest : Stops isVariableChar rest) :
    variableName ctx marker true (name ++ rest) =
      .done (.token { ctx.token .variable name with modifier := marker }) name.length := by
  obtain ⟨c, more, hcons, hc, hall⟩ := isBareVariable_cons hname
  have hquote : ¬ (c = '\'' ∨ c = '"' ∨ c = '\x60') := by
    rintro (rfl | rfl | rfl) <;> exact absurd hc (by decide)
  have hstart : (Text.isAlphanumeric c || c == '_' || c == '$') = true := hc
  have hhead : (name ++ rest).head? = some c := by rw [hcons]; rfl
  rw [variableName, look_bind, hhead]
  simp only [hquote, if_false, hstart, if_true]
  rw [takeWhile_bind]
  change Scan.widen ((name ++ rest).takeWhile isVariableChar).length
    (Scan.done (Lexeme.token { ctx.token .variable ((name ++ rest).takeWhile isVariableChar) with
      modifier := marker }) 0) = _
  rw [hrest.takeWhile_append hall]
  rfl

/-- A variable is read back behind its marker. -/
theorem lexeme_variable (hd : ctx.dialect = .mysql) {name : List Char} {marker : String}
    (hmarker : marker = "@" ∨ marker = "@@") (hname : isBareVariable name = true)
    (hrest : Stops isVariableChar rest) :
    ∃ more, marker.toList = '@' :: more ∧
      lexeme ctx '@' true (more ++ (name ++ rest)) =
        .done (.token { ctx.token .variable name with modifier := marker })
          (more ++ name).length := by
  have hlexeme : lexeme ctx '@' = variableLexeme ctx := by
    obtain ⟨d, options, start, before⟩ := ctx
    cases hd
    rfl
  obtain ⟨c, more, hcons, hc, -⟩ := isBareVariable_cons hname
  have hat : (name ++ rest).head? ≠ some '@' := by
    rw [hcons]
    rintro ⟨⟩
    exact absurd hc (by decide)
  rcases hmarker with rfl | rfl
  · refine ⟨[], rfl, ?_⟩
    rw [hlexeme, List.nil_append, List.nil_append, variableLexeme, look_bind, if_neg hat,
      variableName_text "@" hname hrest]
  · refine ⟨['@'], rfl, ?_⟩
    rw [hlexeme, List.singleton_append, List.singleton_append, variableLexeme, look_bind,
      List.head?_cons, if_pos rfl, take_bind (by simp), List.drop_succ_cons, List.drop_zero,
      variableName_text "@@" hname hrest]
    simp [Scan.widen, Nat.add_comm]

end Lexemes

/-! ### Scalars in a text -/

/-- Whether a token is the same scalar as another. Numbered placeholders are the same if
their numbers are. -/
structure Token.SameScalar (d : Dialect) (t t' : Token) : Prop where
  kind : t'.kind = t.kind
  modifier : t'.modifier = t.modifier
  value : t.kind ≠ .bindVariable ∨ d.numberedBinds = false → t'.value = t.value
  number : t.kind = .bindVariable → d.numberedBinds = true →
    Text.ofDigits t'.value.toList = Text.ofDigits t.value.toList

/-- Whether a scalar can be told by what is written for it. -/
structure Token.IsWritable (d : Dialect) (t : Token) : Prop where
  variable_bare : t.kind = .variable → t.delimiter ≠ none → isBareVariable t.value.toList = true
  number_lt : t.kind = .bindVariable → d.numberedBinds = true →
    Text.ofDigits t.value.toList < UInt64.size

theorem Decimal.text_ne_nil (number : Decimal) : number.text ≠ [] := by
  obtain ⟨whole, fraction?, e, hwhole, hfraction, hspoken⟩ := number
  cases whole with
  | cons c whole => exact List.cons_ne_nil _ _
  | nil =>
      obtain ⟨digits, rfl, -⟩ := hspoken rfl
      exact List.cons_ne_nil _ _

theorem lexEvents_singleton {d : Dialect} {text : String} {c : Char} {more : List Char} {t : Token}
    (htext : text.toList = c :: more)
    (hlexeme : lexeme (.first d) c true more = .done (.token t) more.length)
    (hscalar : t.kind.isScalar = true) :
    lexEvents d (.ofDialect d) [text] = ([.token { t with spaceBefore := false }], none) := by
  have hjoin : (String.join [text]).toList = c :: more := by
    rw [String.join_cons, String.join_nil, String.append_empty, htext]
  refine lexEvents_of_lexeme hjoin hlexeme ?_ ?_
  · cases h : t.kind <;> rw [h] at hscalar <;> first | rfl | cases hscalar
  · intro h
    rw [h] at hscalar
    cases hscalar

/-! #### Placeholders -/

theorem Text.ofDigits_toDigits (n : Nat) : ofDigits (Nat.toDigits 10 n) = n := by
  have hfold : ofDigits (Nat.toDigits 10 n) = Nat.ofDigitChars 10 (Nat.toDigits 10 n) 0 := by
    simp only [ofDigits, Nat.ofDigitChars_eq_foldl, Nat.mul_comm]
  rw [hfold, Nat.ofDigitChars_ten_toDigits]

/-- The number that digits spell, if it is a 64-bit number. -/
theorem Text.word64_of_digits {text : String} (hsome : text ≠ "")
    (hdigits : ∀ c ∈ text.toList, c.isDigit = true) :
    word64? text =
      if ofDigits text.toList < UInt64.size then some (ofDigits text.toList) else none := by
  have hne : text.toList ≠ [] := fun h => hsome (String.toList_eq_nil_iff.1 h)
  have hunsigned : unsigned text.toList = text.toList := by
    unfold unsigned
    split
    next digits h =>
      have hplus := hdigits '+' (h ▸ List.mem_cons_self)
      cases hplus
    next => rfl
  have hall : text.toList.all Char.isDigit = true := List.all_eq_true.2 hdigits
  unfold word64?
  simp only [hunsigned, hall, List.isEmpty_eq_false_iff.2 hne, Bool.not_true, Bool.or_self,
    Bool.false_eq_true, if_false]

theorem Dialect.toList_bindVariable (index : Nat) :
    (Dialect.postgres.bindVariable index).toList = '$' :: Nat.toDigits 10 index := by
  change ("$" ++ toString index).toList = _
  simp [String.toList_append]

/-- A numbered placeholder is written with a number and read back with it. -/
theorem lexEvents_bindVariable (index : Nat) :
    ∃ token, lexEvents .postgres (.ofDialect .postgres) [Dialect.postgres.bindVariable index] =
        ([.token token], none) ∧ token.kind = .bindVariable ∧ token.modifier = none ∧
      Text.ofDigits token.value.toList = index := by
  have htext := Dialect.toList_bindVariable index
  have hdigits : ∀ c ∈ Nat.toDigits 10 index, c.isDigit = true := fun c hc =>
    Nat.isDigit_of_mem_toDigits (by decide) (by decide) hc
  have hlexeme : lexeme (.first .postgres) '$' true (Nat.toDigits 10 index ++ []) = _ :=
    lexeme_numbered rfl Nat.toDigits_ne_nil hdigits (.nil _)
  rw [List.append_nil] at hlexeme
  refine ⟨_, lexEvents_singleton htext hlexeme rfl, rfl, rfl, ?_⟩
  change Text.ofDigits (String.ofList (Nat.toDigits 10 index)).toList = index
  rw [String.toList_ofList, Text.ofDigits_toDigits]

/-! #### Spellings -/

section Spelling

variable {d : Dialect} {t : Token} (c : KeywordCase) (position : Nat)

theorem spelling_number (hkind : t.kind = .numberLiteral) :
    (Terminal.ofToken t).spelling c d position = .ok t.value := by
  have hkind' : (Terminal.ofToken t).kind = .numberLiteral := hkind
  rw [Terminal.spelling, hkind']
  rfl

theorem spelling_based (base : Radix) (hkind : t.kind = base.kind) :
    (Terminal.ofToken t).spelling c d position =
      .ok (if d = .mysql ∧ t.modifier = some base.bareMark then base.bareMark ++ t.value
        else base.quotedMark ++ "'" ++ t.value ++ "'") := by
  have hkind' : (Terminal.ofToken t).kind = base.kind := hkind
  unfold Terminal.spelling
  rw [hkind']
  cases base <;> rfl

/-- A numbered placeholder is written with its number, or else with its place. -/
theorem spelling_numbered (hkind : t.kind = .bindVariable) (hsome : t.value ≠ "")
    (hdigits : ∀ c ∈ t.value.toList, c.isDigit = true) :
    (Terminal.ofToken t).spelling c .postgres position =
      .ok (Dialect.postgres.bindVariable
        (if Text.ofDigits t.value.toList < UInt64.size then Text.ofDigits t.value.toList
          else position)) := by
  have hkind' : (Terminal.ofToken t).kind = .bindVariable := hkind
  have hspelling : bindSpelling .postgres position t.value =
      .ok (Dialect.postgres.bindVariable ((Text.word64? t.value).getD position)) := rfl
  rw [Terminal.spelling, hkind']
  refine hspelling.trans ?_
  rw [Text.word64_of_digits hsome hdigits]
  split <;> rfl

theorem spelling_placeholder (hkind : t.kind = .bindVariable) (hvalue : t.value = "?") :
    (Terminal.ofToken t).spelling c .mysql position = .ok "?" := by
  have hkind' : (Terminal.ofToken t).kind = .bindVariable := hkind
  have hvalue' : (Terminal.ofToken t).value = "?" := hvalue
  have hword : Text.word64? "?" = none := by decide
  rw [Terminal.spelling, hkind', hvalue']
  simp [bindSpelling, hword, Dialect.bindVariable]

theorem spelling_variable {marker : String} (hkind : t.kind = .variable)
    (hmodifier : t.modifier = some marker) :
    (Terminal.ofToken t).spelling c d position = .ok (marker ++ t.value) := by
  have hkind' : (Terminal.ofToken t).kind = .variable := hkind
  have hmodifier' : (Terminal.ofToken t).modifier = some marker := hmodifier
  rw [Terminal.spelling, hkind', hmodifier']
  rfl

end Spelling

/-! #### All scalars -/

/-- A literal in another base is read back in either form. -/
theorem lexEvents_based {d : Dialect} (base : Radix) {digits : String}
    (hdigits : ∀ c ∈ digits.toList, base.isDigit c = true) :
    (∃ token, lexEvents d (.ofDialect d) [base.quotedMark ++ "'" ++ digits ++ "'"] =
        ([.token token], none) ∧ token.kind = base.kind ∧
      token.modifier = some base.quotedMark ∧ token.value = digits) ∧
    (d = .mysql → digits ≠ "" → ∃ token, lexEvents d (.ofDialect d) [base.bareMark ++ digits] =
        ([.token token], none) ∧ token.kind = base.kind ∧
      token.modifier = some base.bareMark ∧ token.value = digits) := by
  have hscalar : base.kind.isScalar = true := by cases base <;> rfl
  constructor
  · have htext : (base.quotedMark ++ "'" ++ digits ++ "'").toList =
        base.marker :: '\'' :: (digits.toList ++ '\'' :: []) := by
      simp [String.toList_append, Radix.quotedMark]
    have hlexeme : lexeme (.first d) base.marker true ('\'' :: (digits.toList ++ ['\''])) = _ :=
      lexeme_quotedDigits base hdigits nofun
    have hlength : digits.toList.length + 2 = ('\'' :: (digits.toList ++ ['\''])).length := by
      simp
    rw [hlength] at hlexeme
    exact ⟨_, lexEvents_singleton htext hlexeme hscalar, rfl, rfl, String.ofList_toList⟩
  · intro hd hsome
    have htext : (base.bareMark ++ digits).toList = '0' :: base.letter :: digits.toList := by
      simp [String.toList_append, Radix.bareMark]
    have hne : digits.toList ≠ [] := fun h => hsome (String.toList_eq_nil_iff.1 h)
    have hlexeme : lexeme (.first d) '0' true (base.letter :: (digits.toList ++ [])) = _ :=
      lexeme_basedDigits base hd hne hdigits (.nil _)
    rw [List.append_nil] at hlexeme
    exact ⟨_, lexEvents_singleton htext hlexeme hscalar, rfl, rfl, String.ofList_toList⟩

/-- A scalar that can be told by what is written for it is read back. -/
theorem Token.Scalar.exists_sameScalar {d : Dialect} {t : Token} (h : t.Scalar d)
    (hwritable : t.IsWritable d) (c : KeywordCase) (position : Nat) :
    ∃ text token, (Terminal.ofToken t).spelling c d position = .ok text ∧
      lexEvents d (.ofDialect d) [text] = ([.token token], none) ∧ t.SameScalar d token := by
  cases h with
  | number kind modifier number value =>
      obtain ⟨first, more, hnumber⟩ := List.exists_cons_of_ne_nil number.text_ne_nil
      have hlexeme : lexeme (.first d) first true (more ++ []) = _ :=
        lexeme_decimal hnumber (.nil _) rfl
      rw [List.append_nil] at hlexeme
      refine ⟨_, _, spelling_number c position kind,
        lexEvents_singleton (value.trans hnumber) hlexeme rfl, kind.symm,
        modifier.symm, fun _ => ?_, fun hbind => absurd (kind.symm.trans hbind) nofun⟩
      change String.ofList number.text = t.value
      rw [← value, String.ofList_toList]
  | based base kind form digits =>
      have hbind : t.kind ≠ .bindVariable := by
        rw [kind]
        cases base <;> nofun
      have hspelling := spelling_based (d := d) c position base kind
      obtain ⟨hquoted, hbare⟩ := lexEvents_based (d := d) base digits
      rcases form with hmark | ⟨hd, hmark, hsome⟩
      · have hother : ¬ (d = .mysql ∧ t.modifier = some base.bareMark) := by
          rw [hmark]
          cases base <;> exact fun h => absurd h.2 (by decide)
        rw [if_neg hother] at hspelling
        obtain ⟨token, hevents, hkind, hmodifier, hvalue⟩ := hquoted
        exact ⟨_, token, hspelling, hevents, hkind.trans kind.symm, hmodifier.trans hmark.symm,
          fun _ => hvalue, fun h => absurd h hbind⟩
      · rw [if_pos ⟨hd, hmark⟩] at hspelling
        obtain ⟨token, hevents, hkind, hmodifier, hvalue⟩ := hbare hd hsome
        exact ⟨_, token, hspelling, hevents, hkind.trans kind.symm, hmodifier.trans hmark.symm,
          fun _ => hvalue, fun h => absurd h hbind⟩
  | numbered kind modifier dialect value digits =>
      subst dialect
      have hspelling := spelling_numbered c position kind value digits
      rw [if_pos (hwritable.number_lt kind rfl)] at hspelling
      obtain ⟨token, hevents, hkind, hmodifier, hnumber⟩ := lexEvents_bindVariable _
      exact ⟨_, token, hspelling, hevents, hkind.trans kind.symm, hmodifier.trans modifier.symm,
        fun h => h.elim (absurd kind) nofun, fun _ _ => hnumber⟩
  | placeholder kind modifier dialect value =>
      subst dialect
      have hlexeme : lexeme (.first .mysql) '?' true [] =
          .done (.token ((LexContext.first .mysql).token .bindVariable ['?'])) 0 := rfl
      have htext : "?".toList = ['?'] := rfl
      exact ⟨_, _, spelling_placeholder c position kind value,
        lexEvents_singleton htext hlexeme rfl, kind.symm, modifier.symm,
        fun _ => value.symm, nofun⟩
  | named kind dialect marker marked modifier bare =>
      subst dialect
      have hbare : isBareVariable t.value.toList = true := by
        by_cases hquotes : t.delimiter = none
        · exact bare hquotes
        · exact hwritable.variable_bare kind hquotes
      obtain ⟨more, hmore, hlexeme⟩ : ∃ more, marker.toList = '@' :: more ∧
          lexeme (.first .mysql) '@' true (more ++ (t.value.toList ++ [])) = _ :=
        lexeme_variable rfl marked hbare (.nil _)
      rw [List.append_nil] at hlexeme
      have htext : (marker ++ t.value).toList = '@' :: (more ++ t.value.toList) := by
        rw [String.toList_append, hmore, List.cons_append]
      exact ⟨_, _, spelling_variable c position kind modifier,
        lexEvents_singleton htext hlexeme rfl, kind.symm, modifier.symm,
        fun _ => String.ofList_toList, fun hbind => absurd (kind.symm.trans hbind) nofun⟩

/-- The first lexeme of a text that is read as one token is that token, unless it is a word. -/
theorem exists_lexeme_of_lexEvents {d : Dialect} {text : String} {c : Char} {more : List Char}
    {token : Token} (htext : text.toList = c :: more)
    (hevents : lexEvents d (.ofDialect d) [text] = ([.token token], none)) :
    ∃ lx n, lexeme (.first d) c true more = .done lx n ∧
      ∀ t, lx = .token t → t.kind.isScalar = true → token = { t with spaceBefore := false } := by
  let s : Scanner := .completed { dialect := d, options := .ofDialect d } (String.join [text])
  have hunread : s.unread = c :: more := by
    change (String.join [text]).toList = _
    rw [String.join_cons, String.join_nil, String.append_empty, htext]
  have hdigest : (s.digest.1.ready, s.digest.2) = ([.token token], none) := by
    rw [← hevents, lexEvents_eq]
    rfl
  have hcontext : s.context = .first d := rfl
  rw [Scanner.digest_of_cons hunread, hcontext] at hdigest
  cases hlexeme : lexeme (.first d) c true more with
  | more => exact absurd hlexeme ((lexeme_stable _ c).decides more)
  | fail e =>
      rw [hlexeme] at hdigest
      cases hdigest
  | done lx n =>
      refine ⟨lx, n, rfl, ?_⟩
      rintro t rfl hscalar
      have htrivia : t.kind.isTrivia = false := by
        cases h : t.kind <;> rw [h] at hscalar <;> first | rfl | cases hscalar
      have hword : Phrase.isWord { t with spaceBefore := s.spacePending } = false := by
        by_contra h
        rw [Bool.not_eq_false] at h
        have hnone := Phrase.isScalar_of_isWord h
        change t.kind.isScalar = false at hnone
        rw [hscalar] at hnone
        cases hnone
      rw [hlexeme] at hdigest
      simp only [Scanner.accept, Scanner.stage_of_words (s := s) rfl htrivia hword] at hdigest
      let s' : Scanner := Scanner.skip { s with
        spacePending := false
        ready := s.ready ++ [.token { t with spaceBefore := s.spacePending }] } c more n
      have houtcome : s'.outcome = ([.token token], none) := hdigest
      have hready : s'.ready = [.token { t with spaceBefore := s.spacePending }] := rfl
      rw [Scanner.outcome_of_ready hready] at houtcome
      have hfirst := (List.cons.inj (Prod.mk.inj houtcome).1).1
      exact (Event.token.inj hfirst).symm

/-- A quoted variable is read back only if it needs no quotes. -/
theorem isBareVariable_of_lexEvents {t token : Token} {marker : String}
    (hmarker : marker = "@" ∨ marker = "@@") (hmodifier : t.modifier = some marker)
    (hevents : lexEvents .mysql (.ofDialect .mysql) [marker ++ t.value] = ([.token token], none))
    (hsame : t.SameScalar .mysql token) : isBareVariable t.value.toList = true := by
  have hlexeme : lexeme (.first .mysql) '@' = variableLexeme (.first .mysql) := rfl
  -- What is read behind the marker has the name for its value only if the name is bare.
  have hread {found : String} {more : List Char} {lx : Lexeme} {n : Nat}
      (hdone : variableName (.first .mysql) found true more = .done lx n)
      (htoken : ∀ u, lx = .token u → u.kind.isScalar = true → token = { u with spaceBefore := false }) :
      token.modifier = some found ∧ (t.value.toList = more → isBareVariable more = true) := by
    obtain ⟨u, rfl, hkind', hmodifier', -, hbare⟩ := variableName_done _ hdone
    have heq := htoken u rfl (by rw [hkind']; rfl)
    have hvalue := hsame.value (.inr rfl)
    rw [heq] at hvalue ⊢
    refine ⟨hmodifier', fun hmore => hbare ?_⟩
    change u.value = t.value at hvalue
    rw [hvalue, hmore]
  rcases hmarker with rfl | rfl
  · have htext : ("@" ++ t.value).toList = '@' :: t.value.toList := String.toList_append
    obtain ⟨lx, n, hdone, htoken⟩ := exists_lexeme_of_lexEvents htext hevents
    rw [hlexeme, variableLexeme, look_bind] at hdone
    split at hdone
    next =>
      obtain ⟨taken, k, m, -, hdone⟩ := bind_done hdone
      obtain ⟨hother, -⟩ := hread hdone htoken
      rw [hsame.modifier, hmodifier] at hother
      exact absurd hother (by decide)
    next => exact (hread hdone htoken).2 rfl
  · have htext : ("@@" ++ t.value).toList = '@' :: '@' :: t.value.toList := String.toList_append
    obtain ⟨lx, n, hdone, htoken⟩ := exists_lexeme_of_lexEvents htext hevents
    rw [hlexeme, variableLexeme, look_bind, List.head?_cons, if_pos rfl, take_bind (by simp),
      Scan.widen_eq_done] at hdone
    obtain ⟨m, hdone, -⟩ := hdone
    exact (hread hdone htoken).2 rfl

/-- Only a scalar that can be told by what is written for it is read back. -/
theorem Token.Scalar.isWritable {d : Dialect} {t token : Token} {c : KeywordCase} {position : Nat}
    {text : String} (h : t.Scalar d) (hposition : position < UInt64.size)
    (hspelling : (Terminal.ofToken t).spelling c d position = .ok text)
    (hevents : lexEvents d (.ofDialect d) [text] = ([.token token], none))
    (hsame : t.SameScalar d token) : t.IsWritable d := by
  cases h with
  | number kind =>
      exact ⟨fun h => absurd (kind.symm.trans h) nofun, fun h => absurd (kind.symm.trans h) nofun⟩
  | based base kind =>
      constructor <;> intro h <;> rw [kind] at h <;> cases base <;> cases h
  | numbered kind modifier dialect value digits =>
      subst dialect
      refine ⟨fun h => absurd (kind.symm.trans h) nofun, fun _ _ => ?_⟩
      by_contra hlarge
      rw [spelling_numbered c position kind value digits, if_neg hlarge] at hspelling
      cases hspelling
      obtain ⟨other, hother, -, -, hnumber⟩ := lexEvents_bindVariable position
      obtain rfl : token = other := by
        rw [hevents] at hother
        exact Event.token.inj (List.cons.inj (Prod.mk.inj hother).1).1
      rw [← hsame.number kind rfl, hnumber] at hlarge
      exact hlarge hposition
  | placeholder kind modifier dialect =>
      subst dialect
      exact ⟨fun h => absurd (kind.symm.trans h) nofun, nofun⟩
  | named kind dialect marker marked modifier =>
      subst dialect
      refine ⟨fun _ _ => ?_, nofun⟩
      rw [spelling_variable c position kind modifier] at hspelling
      cases hspelling
      exact isBareVariable_of_lexEvents marked modifier hevents hsame

/-- A scalar that was read is read back from what is written for it if and only if it is
no variable whose name needs quotes and no numbered placeholder of `2 ^ 64` or more. -/
theorem Token.sameScalar_iff_isWritable (d : Dialect) (c : KeywordCase) {position : Nat}
    (hposition : position < UInt64.size) {chunks : List String} {t : Token}
    (ht : .token t ∈ (lexEvents d (.ofDialect d) chunks).1) (hscalar : t.kind.isScalar = true) :
    (∃ text token, (Terminal.ofToken t).spelling c d position = .ok text ∧
      lexEvents d (.ofDialect d) [text] = ([.token token], none) ∧ t.SameScalar d token) ↔
    t.IsWritable d := by
  have h := scalar_of_mem_lexEvents ht hscalar
  constructor
  · rintro ⟨text, token, hspelling, hevents, hsame⟩
    exact h.isWritable hposition hspelling hevents hsame
  · exact fun hwritable => h.exists_sameScalar hwritable c position

/-- A placeholder loses the zeros in front of its number, and keeps the number. -/
theorem Token.sameScalar_leadingZeros :
    let t : Token := { kind := .bindVariable, value := "007" }
    3 < UInt64.size ∧ .token t ∈ (lexEvents .postgres (.ofDialect .postgres) ["$0", "07"]).1 ∧
      t.kind.isScalar = true ∧ ∃ text token,
        (Terminal.ofToken t).spelling .upper .postgres 3 = .ok text ∧
        lexEvents .postgres (.ofDialect .postgres) [text] = ([.token token], none) ∧
        Text.ofDigits token.value.toList = 7 := by
  intro t
  have hposition : 3 < UInt64.size := by decide
  have ht : .token t ∈ (lexEvents .postgres (.ofDialect .postgres) ["$0", "07"]).1 := by
    decide +kernel
  have hwritable : t.IsWritable .postgres := ⟨nofun, fun _ _ => by decide⟩
  have hseven : Text.ofDigits t.value.toList = 7 := by decide
  obtain ⟨text, token, hspelling, hevents, hsame⟩ :=
    (Token.sameScalar_iff_isWritable .postgres .upper hposition ht rfl).2 hwritable
  exact ⟨hposition, ht, rfl, text, token, hspelling, hevents, (hsame.number rfl rfl).trans hseven⟩

/-- The name of a variable is not read back if it needs quotes, and the number of a
placeholder is not read back if it does not fit into 64 bits. -/
theorem Token.quotes_and_large_numbers_lost :
    let name : Token := { kind := .variable, value := "x y", delimiter := "\x60", modifier := "@" }
    let large : Token := { kind := .bindVariable, value := "18446744073709551616" }
    (.token name ∈ (lexEvents .mysql (.ofDialect .mysql) ["@\x60x y\x60"]).1 ∧
      ¬ ∃ text token, (Terminal.ofToken name).spelling .upper .mysql 1 = .ok text ∧
        lexEvents .mysql (.ofDialect .mysql) [text] = ([.token token], none) ∧
        name.SameScalar .mysql token) ∧
    .token large ∈ (lexEvents .postgres (.ofDialect .postgres) ["$18446744073709551616"]).1 ∧
      ¬ ∃ text token, (Terminal.ofToken large).spelling .upper .postgres 1 = .ok text ∧
        lexEvents .postgres (.ofDialect .postgres) [text] = ([.token token], none) ∧
        large.SameScalar .postgres token := by
  intro name large
  refine ⟨⟨by decide +kernel, ?_⟩, by decide +kernel, ?_⟩
  · rintro ⟨text, token, hspelling, hevents, -⟩
    have hwritten : (Terminal.ofToken name).spelling .upper .mysql 1 = .ok "@x y" := by
      decide +kernel
    obtain rfl : "@x y" = text := Except.ok.inj (hwritten.symm.trans hspelling)
    have htwo : (lexEvents .mysql (.ofDialect .mysql) ["@x y"]).1.length = 2 := by decide +kernel
    rw [hevents] at htwo
    cases htwo
  · rintro ⟨text, token, hspelling, hevents, hsame⟩
    have hwritten : (Terminal.ofToken large).spelling .upper .postgres 1 = .ok "$1" := by
      decide +kernel
    obtain rfl : "$1" = text := Except.ok.inj (hwritten.symm.trans hspelling)
    have hone : lexEvents .postgres (.ofDialect .postgres) ["$1"] =
        ([.token { kind := .bindVariable, value := "1" }], none) := by
      decide +kernel
    obtain rfl : token = { kind := .bindVariable, value := "1" } :=
      Event.token.inj (List.cons.inj (Prod.mk.inj (hevents.symm.trans hone)).1).1
    exact absurd (hsame.number rfl rfl) (by decide +kernel)

end DualSql
