import DualSql.Proofs.Lexer.SpelledScalars
import DualSql.Proofs.Lexer.Spellings
import DualSql.Proofs.Text.Casing

/-! # What only placeholders begin with

Each dialect has a character that the placeholders begin with which are written
in it. No other token of a text begins with this character when it is written:
names that hold it are quoted or begin with something else, literals begin with
their quotes or markers, and no word and no operator begins with it. The one
exception is the operator that is the mark itself, where the dialect has it.

Main definition: `Dialect.isBind`. Main result: `Token.isBind_eq_false`. -/

namespace DualSql

namespace Dialect

/-- The character that a written placeholder begins with. -/
def bindMark : Dialect → Char
  | postgres => '$'
  | mysql => '?'

/-- Whether a lexeme is written as placeholders are. -/
def isBind (d : Dialect) (text : String) : Bool :=
  text.toList.head? == some d.bindMark

variable {d : Dialect} {text : String}

theorem isBind_bindVariable (d : Dialect) (index : Nat) :
    d.isBind (d.bindVariable index) = true := by
  cases d with
  | postgres =>
      rw [isBind, toList_bindVariable]
      rfl
  | mysql =>
      rw [bindVariable]
      decide

theorem isBind_eq_false {c : Char} (hhead : text.toList.head? = some c) (hne : c ≠ d.bindMark) :
    d.isBind text = false := by
  rw [isBind, hhead]
  simpa using hne

/-- What is led by something begins with it. -/
theorem isBind_append {marker : String} {c : Char} (hhead : marker.toList.head? = some c)
    (hne : c ≠ d.bindMark) (body : String) : d.isBind (marker ++ body) = false := by
  refine isBind_eq_false (c := c) ?_ hne
  rw [String.toList_append, List.head?_append, hhead]
  rfl

end Dialect

/-! ### Words -/

namespace Text

/-- The marks of placeholders have no case. -/
theorem upperChars_bindMark (d : Dialect) : upperChars d.bindMark = [d.bindMark] := by
  cases d <;> decide

theorem isBind_toUpper {d : Dialect} {text : String} (h : d.isBind text = true) :
    d.isBind (toUpper text) = true := by
  rw [Dialect.isBind] at h
  cases hchars : text.toList with
  | nil =>
      rw [hchars] at h
      cases h
  | cons c rest =>
      obtain rfl : c = d.bindMark := by simpa [hchars] using h
      simp [Dialect.isBind, toUpper, hchars, upperChars_bindMark]

/-- The runs do not map a character to a mark: what they map to is behind it. -/
theorem image_ne_bindMark (d : Dialect) {code : Nat} {c : Char}
    (h : CaseRun.image? lowerRuns code = some c) : c ≠ d.bindMark := by
  have hbehind : ∀ r ∈ lowerRuns, 0x40 < Int.ofNat r.first + r.shift := by decide +kernel
  obtain ⟨r, hr, rfl⟩ := Option.map_eq_some_iff.1 h
  have hfirst : r.first ≤ code := by
    have hheld := List.find?_some hr
    simp only [Bool.and_eq_true, decide_eq_true_eq] at hheld
    exact hheld.1.1
  have hcode : 0x40 < (Int.ofNat code + r.shift).toNat := by
    have hshift := hbehind r (List.mem_of_find?_eq_some hr)
    simp only [Int.ofNat_eq_natCast] at hshift ⊢
    omega
  generalize (Int.ofNat code + r.shift).toNat = image at hcode
  intro heq
  have hmark : d.bindMark.toNat < 0x40 ∧ d.bindMark.toNat ≠ 0 := by cases d <;> decide
  have hnat := congrArg Char.toNat heq
  rw [Char.toNat_ofNat] at hnat
  split at hnat <;> omega

/-- No other character has a mark as its lower case, nor one that begins with it. -/
theorem eq_bindMark_of_lowerChars {d : Dialect} {c : Char} {rest : List Char}
    (h : (lowerChars c ++ rest).head? = some d.bindMark) : c = d.bindMark := by
  unfold lowerChars at h
  split at h
  next hascii =>
    have hall : ∀ n < 0x80, (Char.ofNat n).toLower = d.bindMark → Char.ofNat n = d.bindMark := by
      cases d <;> decide
    have hchar := hall c.toNat hascii
    rw [Char.ofNat_toNat] at hchar
    exact hchar (Option.some.inj h)
  next =>
    unfold mapCase at h
    split at h
    next codes hcodes =>
      have hall : ∀ entry ∈ lowerSequences, ∃ code more, entry.2 = code :: more ∧
          Char.ofNat code ≠ d.bindMark := by
        cases d <;> simp [lowerSequences, Dialect.bindMark]
      obtain ⟨before, after, heq, -⟩ := List.lookup_eq_some_iff.1 hcodes
      obtain ⟨code, more, rfl, hne⟩ := hall (c.toNat, codes) (by rw [heq]; simp)
      exact absurd (Option.some.inj h) hne
    next =>
      cases himage : CaseRun.image? lowerRuns c.toNat with
      | none =>
          rw [himage] at h
          exact Option.some.inj h
      | some c' =>
          rw [himage] at h
          exact absurd (Option.some.inj h) (image_ne_bindMark d himage)

theorem isBind_of_toLower {d : Dialect} {text : String} (h : d.isBind (toLower text) = true) :
    d.isBind text = true := by
  rw [Dialect.isBind, toLower, String.toList_ofList] at h
  cases hchars : text.toList with
  | nil =>
      rw [hchars] at h
      cases h
  | cons c rest =>
      rw [hchars, lowerAfter] at h
      obtain rfl : c = d.bindMark := by
        split at h
        next =>
          -- The two forms of the small sigma are no marks.
          split at h <;> cases d <;> cases h
        next => exact eq_bindMark_of_lowerChars (beq_iff_eq.1 h)
      simp [Dialect.isBind, hchars]

end Text

/-- Neither words nor names begin with a mark. -/
theorem isWordStart_bindMark (d : Dialect) : isWordStart d.bindMark = false := by
  cases d <;> decide

theorem isBind_of_isBareWord {d : Dialect} {text : String} (h : isBareWord text.toList = true) :
    d.isBind text = false := by
  obtain ⟨c, hhead, hstart⟩ := (Option.any_eq_true ..).1 (Bool.and_eq_true_iff.1 h).1
  refine Dialect.isBind_eq_false hhead ?_
  rintro rfl
  rw [isWordStart_bindMark] at hstart
  cases hstart

theorem isBind_of_isPhrase {d : Dialect} {text : String} (h : isPhrase text.toList = true) :
    d.isBind text = false := by
  rw [isPhrase] at h
  cases hchars : text.toList with
  | nil =>
      rw [Dialect.isBind, hchars]
      rfl
  | cons c rest =>
      have hblank : ¬(d.bindMark == ' ') = true := by cases d <;> decide
      refine Dialect.isBind_eq_false (congrArg List.head? hchars) ?_
      rintro rfl
      -- The first word of the phrase would begin with the mark.
      rw [hchars, List.splitOn, List.splitOnP_cons_eq_if_modifyHead, if_neg hblank] at h
      cases hwords : rest.splitOnP (· == ' ') with
      | nil => exact List.splitOnP_ne_nil _ _ hwords
      | cons word words =>
          rw [hwords, List.modifyHead_cons, List.all_cons, isBareWord, List.head?_cons,
            Option.any_some, isWordStart_bindMark] at h
          cases h

/-! ### Tokens -/

namespace Token

variable {d d' : Dialect} {t : Token} {c : KeywordCase} {position : Nat} {text : String}

/-- No case makes a mark of what is none in upper case. -/
theorem isBind_apply {value : String} (h : d'.isBind (Text.toUpper value) = false) :
    d'.isBind (c.apply value) = false := by
  cases c with
  | upper => exact h
  | lower =>
      by_contra hlower
      have hvalue := Text.isBind_of_toLower (Bool.not_eq_false _ ▸ hlower)
      rw [Text.isBind_toUpper hvalue] at h
      cases h

/-- A keyword or the name of a data type, in either case. -/
theorem isBind_word (ht : t.Lexed d) (hkind : t.kind = .keyword ∨ t.kind = .dataType) :
    d'.isBind (c.apply t.value) = false :=
  isBind_apply (isBind_of_isPhrase (spelled_word ht hkind))

/-- No operator that can be applied begins with a mark, in either case. -/
theorem isBind_operator {info : OperatorInfo} (h : Vocabulary.operator? d t.value = some info) :
    d'.isBind (fixedSpelling c .operator t.value) = false := by
  have hall : ∀ entry ∈ Vocabulary.operators d, Utf8.isAscii entry.1 = true ∧
      ((Utf8.asciiChars entry.1).head? == some d'.bindMark) = false := by
    cases d <;> cases d' <;> decide +kernel
  obtain ⟨hascii, hhead⟩ := hall (t.value, info) (mem_of_lookup h)
  have hvalue : d'.isBind t.value = false := by
    rw [Dialect.isBind, Utf8.toList_of_isAscii hascii, hhead]
  rw [fixedSpelling]
  split
  · apply isBind_apply
    rw [Vocabulary.toUpper_of_operator h, hvalue]
  · exact hvalue

/-- A name begins with its quote or with a letter. -/
theorem isBind_identifier (d' : Dialect) (name : String) (quoted : Bool) :
    d'.isBind (if quoted || needsQuotes d' name then d'.quoteIdentifier name else name) =
      false := by
  split
  next =>
    refine Dialect.isBind_eq_false (c := d'.identifierQuote) ?_ (by cases d' <;> decide)
    rw [Dialect.quoteIdentifier, String.toList_ofList]
    rfl
  next hbare =>
    have hquotes : needsQuotes d' name = false :=
      (Bool.or_eq_false_iff.1 (Bool.not_eq_true _ ▸ hbare)).2
    exact isBind_of_isBareWord (isBareWord_of_needsQuotes hquotes)

theorem isBind_quoteString (d' : Dialect) (value : String) :
    d'.isBind (d'.quoteString value) = false := by
  rw [Dialect.isBind, Dialect.quoteString, String.toList_ofList]
  cases d' with
  | mysql => rfl
  | postgres =>
      rw [Dialect.quotedChars]
      split <;> rfl

/-- A string begins with its quote or with what introduces it. -/
theorem isBind_stringSpelling (d' : Dialect) (value : String) (modifier : Option String) :
    d'.isBind (stringSpelling d' value modifier) = false := by
  unfold stringSpelling
  dsimp only
  split
  next => exact isBind_quoteString d' value
  next m =>
    split
    next => exact Dialect.isBind_append (c := 'N') (by decide) (by cases d' <;> decide) _
    next =>
      split
      next h => exact Dialect.isBind_append h.2 (by cases d' <;> decide) _
      next =>
        split
        next =>
          rw [String.append_assoc]
          exact Dialect.isBind_append (c := 'E') (by decide) (by cases d' <;> decide) _
        next => exact isBind_quoteString d' value

/-- A number begins with a digit or a point. -/
theorem isBind_decimal (d' : Dialect) (number : Decimal) (hvalue : text.toList = number.text) :
    d'.isBind text = false := by
  obtain ⟨whole, fraction, exponent, hwhole, hfraction, hspoken⟩ := number
  cases whole with
  | cons c whole =>
      refine Dialect.isBind_eq_false (c := c) (by rw [hvalue]; rfl) ?_
      rintro rfl
      have hdigit := hwhole _ (List.mem_cons_self ..)
      cases d' <;> cases hdigit
  | nil =>
      obtain ⟨digits, rfl, -⟩ := hspoken rfl
      exact Dialect.isBind_eq_false (c := '.') (by rw [hvalue]; rfl) (by cases d' <;> decide)

/-- No scalar but a placeholder begins with a mark. -/
theorem Scalar.isBind (h : t.Scalar d) (hkind : t.kind ≠ .bindVariable)
    (hspelling : (Terminal.ofToken t).spelling c d' position = .ok text) :
    d'.isBind text = false := by
  cases h with
  | number kind modifier number value =>
      rw [spelling_number c position kind] at hspelling
      obtain rfl := Except.ok.inj hspelling
      exact isBind_decimal d' number value
  | based base kind form digits =>
      rw [spelling_based c position base kind] at hspelling
      obtain rfl := Except.ok.inj hspelling
      split
      next =>
        refine Dialect.isBind_append (c := '0') ?_ (by cases d' <;> decide) _
        rw [Radix.bareMark, String.toList_ofList, List.head?_cons]
      next =>
        rw [String.append_assoc, String.append_assoc]
        refine Dialect.isBind_append (c := base.marker) ?_ (by cases base <;> cases d' <;> decide) _
        cases base <;> decide
  | numbered kind => exact absurd kind hkind
  | placeholder kind => exact absurd kind hkind
  | named kind dialect marker marked modifier bare =>
      rw [spelling_variable c position kind modifier] at hspelling
      obtain rfl := Except.ok.inj hspelling
      refine Dialect.isBind_append (c := '@') ?_ (by cases d' <;> decide) _
      rcases marked with rfl | rfl <;> decide

/-- A significant token that is no placeholder is not written like one in the other
dialect, and neither is it in one whose operators cannot be the mark. -/
theorem isBind_eq_false (ht : t.Lexed d) (hscalar : t.kind.isScalar = true → t.Scalar d)
    (hformed : t.Formed d) (htrivia : t.kind.isTrivia = false) (hkind : t.kind ≠ .bindVariable)
    (hd : d' = .postgres → d = .mysql)
    (hspelling : (Terminal.ofToken t).spelling c d' position = .ok text) :
    d'.isBind text = false := by
  have hcase {kind : TokenKind} (h : t.kind = kind) : (Terminal.ofToken t).kind = kind := h
  cases hkind' : t.kind with
  | bindVariable => exact absurd hkind' hkind
  | numberLiteral | hexLiteral | bitLiteral | «variable» =>
      exact (hscalar (by rw [hkind']; rfl)).isBind hkind hspelling
  | whitespace | comment =>
      rw [hkind'] at htrivia
      cases htrivia
  | parenBlock | bracketBlock | braceBlock =>
      have hleaf := hformed.leaf
      rw [hkind'] at hleaf
      cases hleaf
  | keyword | dataType =>
      rw [Terminal.spelling, hcase hkind'] at hspelling
      obtain rfl : c.apply t.value = text := Except.ok.inj hspelling
      exact isBind_word ht (by rw [hkind']; decide)
  | identifier =>
      rw [Terminal.spelling, hcase hkind'] at hspelling
      obtain rfl := Except.ok.inj hspelling
      exact isBind_identifier d' t.value _
  | operator =>
      rw [Terminal.spelling, hcase hkind'] at hspelling
      obtain rfl : fixedSpelling c .operator t.value = text := Except.ok.inj hspelling
      rcases ht.symbol hkind' with hdollar | hknown
      · rw [hdollar]
        have hpostgres := hformed.dollar hkind' hdollar
        cases d' with
        | postgres =>
            rw [hd rfl] at hpostgres
            cases hpostgres
        | mysql => cases c <;> decide +kernel
      · obtain ⟨info, hinfo⟩ := Option.isSome_iff_exists.1 hknown
        exact isBind_operator hinfo
  | punctuation =>
      rw [Terminal.spelling, hcase hkind'] at hspelling
      obtain rfl : t.value = text := Except.ok.inj hspelling
      have hall : ∀ mark ∈ markTexts, d'.isBind mark = false := by cases d' <;> decide
      exact hall _ (hformed.mark hkind')
  | stringLiteral =>
      rw [Terminal.spelling, hcase hkind'] at hspelling
      obtain rfl := Except.ok.inj hspelling
      exact isBind_stringSpelling d' t.value t.modifier

end Token

end DualSql
