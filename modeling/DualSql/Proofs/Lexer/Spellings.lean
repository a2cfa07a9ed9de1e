import DualSql.Proofs.Lexer.Tokens
import DualSql.Proofs.Lexer.Written
import DualSql.Proofs.Vocabulary

/-! # Every token is written in one of the forms

A token that was read is written in one of the forms of lexemes, unless it is a
variable that is written without the quotes it needs. Brackets are written as
they are.

Main definition: `Spelled`. Main result: `Token.spelled`. -/

namespace DualSql

/-- The texts of closing brackets. -/
def closerTexts : List String :=
  [")", "]", "\x7d"]

/-- The name of a variable behind its marker. -/
def behindMarker : List Char → List Char
  | '@' :: '@' :: name => name
  | '@' :: name => name
  | text => text

/-- Whether a text is that of a variable that is written without the quotes it needs. -/
def isFrayed (d : Dialect) (text : List Char) : Bool :=
  d == .mysql && text.head? == some '@' && !isBareVariable (behindMarker text)

/-- What a lexeme that is written looks like. -/
inductive Spelled (d : Dialect) (text : String) : Prop
  | written {ok : List Char → Prop} (form : Written d text.toList ok)
  | closer (bracket : text ∈ closerTexts)
  | frayed (unquoted : isFrayed d text.toList = true)

theorem Spelled.of_chars {d : Dialect} {text : String} {chars : List Char}
    {ok : List Char → Prop} (hchars : text.toList = chars) (form : Written d chars ok) :
    Spelled d text :=
  .written (hchars ▸ form)

/-! ### Words -/

theorem isPhrase_of_isBareWord {word : List Char} (h : isBareWord word = true) :
    isPhrase word = true := by
  have hall := (Bool.and_eq_true_iff.1 h).2
  have hblank : ∀ c ∈ word, (c == ' ') = false := by
    intro c hc
    rw [beq_eq_false_iff_ne]
    rintro rfl
    exact absurd (List.all_eq_true.1 hall ' ' hc) (by decide)
  have hsplit : word.splitOn ' ' = [word] := List.splitOnP_eq_singleton hblank
  rw [isPhrase, hsplit, List.all_cons, h]
  rfl

namespace Vocabulary

/-- The words and the phrases of the tables are phrases. -/
structure Phrased (d : Dialect) : Prop where
  words : ∀ word ∈ keywords d ++ dataTypes d, isPhrase word.toList = true
  compounds : ∀ entry ∈ compounds d, isPhrase entry.1.toList = true
  operators : ∀ entry ∈ operators d, entry.1 ∈ symbols d ∨ isPhrase entry.1.toList = true

/-- Whether the bytes of a text are those of a phrase. -/
def isAsciiPhrase (text : String) : Bool :=
  Utf8.isAscii text && isPhrase (Utf8.asciiChars text)

theorem isPhrase_of_isAsciiPhrase {text : String} (h : isAsciiPhrase text = true) :
    isPhrase text.toList = true := by
  obtain ⟨hascii, hphrase⟩ := Bool.and_eq_true_iff.1 h
  rw [Utf8.toList_of_isAscii hascii, hphrase]

theorem phrased (d : Dialect) : Phrased d := by
  have hwords : ∀ word ∈ keywords d ++ dataTypes d, isAsciiPhrase word = true := by
    cases d <;> decide +kernel
  have hcompounds : ∀ entry ∈ compounds d, isAsciiPhrase entry.1 = true := by
    cases d <;> decide +kernel
  have hoperators : ∀ entry ∈ operators d,
      isAsciiPhrase entry.1 = true ∨ entry.1 ∈ symbols d := by
    cases d <;> decide +kernel
  exact ⟨fun word hword => isPhrase_of_isAsciiPhrase (hwords word hword),
    fun entry hentry => isPhrase_of_isAsciiPhrase (hcompounds entry hentry),
    fun entry hentry => (hoperators entry hentry).symm.imp_right isPhrase_of_isAsciiPhrase⟩

theorem isPhrase_of_classify {d : Dialect} {word : String} (h : classify d word ≠ .identifier) :
    isPhrase word.toList = true :=
  (phrased d).words word (mem_words_of_classify h)

end Vocabulary

/-- A name that needs no quotes is a bare word. -/
theorem isBareWord_of_needsQuotes {d : Dialect} {name : String} (h : needsQuotes d name = false) :
    isBareWord name.toList = true := by
  unfold needsQuotes at h
  split at h
  next => cases h
  next first rest hchars =>
    simp only [Bool.or_eq_false_iff, Bool.not_eq_false'] at h
    obtain ⟨⟨⟨hfirst, hrest⟩, -⟩, -⟩ := h
    have hstart : isWordStart first = true := by simpa [isWordStart] using hfirst
    have hword : isWordChar first = true := by
      rcases Bool.or_eq_true_iff.1 hstart with h | h <;> simp [isWordChar, Text.isAlphanumeric, h]
    rw [hchars, isBareWord, List.head?_cons, Option.any_some, hstart, List.all_cons, hword]
    exact hrest

namespace Token

variable {d : Dialect} {t : Token} {position : Nat} {text : String}

/-- A keyword, the name of a data type or a phrase is written in upper case. -/
theorem spelled_word (ht : t.Lexed d) (hkind : t.kind = .keyword ∨ t.kind = .dataType) :
    isPhrase (Text.toUpper t.value).toList = true := by
  have hword : Vocabulary.isWordKind t.kind = true := by
    rcases hkind with h | h <;> rw [h] <;> rfl
  have hquoted : t.isQuoted = false := by
    rcases hkind with h | h <;> rw [isQuoted, h] <;> rfl
  rcases ht.word hword hquoted with hclass | hphrase
  · refine Vocabulary.isPhrase_of_classify (d := d) ?_
    rw [hclass]
    rcases hkind with h | h <;> rw [h] <;> decide
  · rw [(Vocabulary.classify_of_complete hphrase).1]
    exact (Vocabulary.phrased d).compounds _ (mem_of_lookup hphrase)

theorem spelled_operator (ht : t.Lexed d) (hformed : t.Formed d) (hkind : t.kind = .operator) :
    Spelled d t.value ∧ fixedSpelling .upper .operator t.value = t.value := by
  rcases ht.symbol hkind with hdollar | hknown
  · have hd := hformed.dollar hkind hdollar
    rw [hdollar]
    exact ⟨.written (.dollar hd), rfl⟩
  · obtain ⟨info, hinfo⟩ := Option.isSome_iff_exists.1 hknown
    refine ⟨?_, ?_⟩
    · rcases (Vocabulary.phrased d).operators _ (mem_of_lookup hinfo) with hsymbol | hphrase
      · exact .written (.symbol hsymbol)
      · exact .written (.phrase hphrase)
    · simp only [fixedSpelling, KeywordCase.apply, Vocabulary.toUpper_of_operator hinfo, ite_self]

theorem spelled_identifier (hformed : t.Formed d) (hkind : t.kind = .identifier) (quoted : Bool) :
    Spelled d (if quoted || needsQuotes d t.value then d.quoteIdentifier t.value else t.value) := by
  split
  next =>
    have hname : t.value.toList ≠ [] := fun h =>
      hformed.name hkind (String.toList_eq_nil_iff.1 h)
    have hchars : (d.quoteIdentifier t.value).toList =
        d.identifierQuote :: t.value.toList.flatMap d.identifierChar ++ [d.identifierQuote] :=
      String.toList_ofList
    exact .of_chars hchars (.name hname)
  next hbare =>
    have hquotes : needsQuotes d t.value = false := by
      cases hneeds : needsQuotes d t.value with
      | false => rfl
      | true => exact absurd (by rw [hneeds, Bool.or_true]) hbare
    exact .written (.phrase (isPhrase_of_isBareWord (isBareWord_of_needsQuotes hquotes)))

theorem spelled_mark {text : String} (h : text ∈ markTexts) : Spelled d text := by
  simp only [markTexts, List.mem_cons, List.not_mem_nil, or_false] at h
  rcases h with rfl | rfl | rfl | rfl | rfl | rfl | rfl | rfl | rfl
  · exact .written (.mark (by decide))
  · exact .written (.mark (by decide))
  · exact .written .point
  · exact .written (.opener .paren)
  · exact .closer (by decide)
  · exact .written (.opener .square)
  · exact .closer (by decide)
  · exact .written (.opener .curly)
  · exact .closer (by decide)

/-- A variable has a form, unless it is written without the quotes it needs. -/
theorem spelled_variable (hd : d = .mysql) (hat : text.toList.head? = some '@') :
    Spelled d text := by
  by_cases hfrayed : isFrayed d text.toList = true
  · exact .frayed hfrayed
  have hbare : isBareVariable (behindMarker text.toList) = true := by
    simpa [isFrayed, hd, hat] using hfrayed
  have hform {marker : String} {name : List Char} (hmarker : marker = "@" ∨ marker = "@@")
      (hchars : text.toList = marker.toList ++ name) (hname : isBareVariable name = true) :
      Spelled d text :=
    .of_chars hchars (.bareVariable hd hmarker hname)
  unfold behindMarker at hbare
  split at hbare
  next name hchars => exact hform (.inr rfl) hchars hbare
  next name _ hchars => exact hform (.inl rfl) hchars hbare
  next hnone =>
    cases hchars : text.toList with
    | nil =>
        rw [hchars] at hat
        cases hat
    | cons c name =>
        rw [hchars] at hat
        obtain rfl : c = '@' := Option.some.inj hat
        exact absurd hchars (hnone name)

/-- A scalar is written in one of the forms, or is a variable. -/
theorem Scalar.spelled (h : t.Scalar d)
    (hspelling : (Terminal.ofToken t).spelling .upper d position = .ok text) : Spelled d text := by
  cases h with
  | number kind modifier number value =>
      rw [spelling_number .upper position kind] at hspelling
      obtain rfl := Except.ok.inj hspelling
      exact .of_chars value (.number number)
  | based base kind form digits =>
      rw [spelling_based .upper position base kind] at hspelling
      obtain rfl := Except.ok.inj hspelling
      split
      next hbare =>
        have hsome : t.value.toList ≠ [] := by
          rcases form with hquoted | ⟨-, -, hvalue⟩
          · have hmarks := hquoted.symm.trans hbare.2
            cases base <;> exact absurd hmarks (by decide)
          · exact fun h => hvalue (String.toList_eq_nil_iff.1 h)
        have hchars : (base.bareMark ++ t.value).toList = '0' :: base.letter :: t.value.toList := by
          simp [String.toList_append, Radix.bareMark]
        exact .of_chars hchars (.basedDigits base hbare.1 hsome digits)
      next =>
        have hchars : (base.quotedMark ++ "'" ++ t.value ++ "'").toList =
            base.marker :: '\'' :: (t.value.toList ++ ['\'']) := by
          simp [String.toList_append, Radix.quotedMark]
        exact .of_chars hchars (.quotedDigits base digits)
  | numbered kind modifier dialect value digits =>
      subst dialect
      rw [spelling_numbered .upper position kind value digits] at hspelling
      obtain rfl := Except.ok.inj hspelling
      exact .of_chars (Dialect.toList_bindVariable _) (.numbered rfl Nat.toDigits_ne_nil
        fun c hc => Nat.isDigit_of_mem_toDigits (by decide) (by decide) hc)
  | placeholder kind modifier dialect value =>
      subst dialect
      rw [spelling_placeholder .upper position kind value] at hspelling
      obtain rfl := Except.ok.inj hspelling
      exact .written (.placeholder rfl)
  | named kind dialect marker marked modifier bare =>
      rw [spelling_variable .upper position kind modifier] at hspelling
      obtain rfl := Except.ok.inj hspelling
      refine spelled_variable dialect ?_
      rw [String.toList_append]
      rcases marked with rfl | rfl <;> rfl

/-- A significant token that was read is written in one of the forms, or is a variable. -/
theorem spelled (ht : t.Lexed d) (hscalar : t.kind.isScalar = true → t.Scalar d)
    (hformed : t.Formed d) (htrivia : t.kind.isTrivia = false)
    (hspelling : (Terminal.ofToken t).spelling .upper d position = .ok text) : Spelled d text := by
  cases hkind : t.kind with
  | numberLiteral | hexLiteral | bitLiteral | bindVariable | «variable» =>
      exact (hscalar (by rw [hkind]; rfl)).spelled hspelling
  | whitespace | comment =>
      rw [hkind] at htrivia
      cases htrivia
  | parenBlock | bracketBlock | braceBlock =>
      have hleaf := hformed.leaf
      rw [hkind] at hleaf
      cases hleaf
  | keyword | dataType =>
      have htext : text = Text.toUpper t.value := by
        have hkind' : (Terminal.ofToken t).kind = _ := hkind
        rw [Terminal.spelling, hkind'] at hspelling
        exact (Except.ok.inj hspelling).symm
      rw [htext]
      exact .written (.phrase (spelled_word ht (by rw [hkind]; decide)))
  | identifier =>
      have hkind' : (Terminal.ofToken t).kind = _ := hkind
      rw [Terminal.spelling, hkind'] at hspelling
      obtain rfl := Except.ok.inj hspelling
      exact spelled_identifier hformed hkind _
  | operator =>
      have hkind' : (Terminal.ofToken t).kind = _ := hkind
      obtain ⟨hspelled, hfixed⟩ := spelled_operator ht hformed hkind
      rw [Terminal.spelling, hkind'] at hspelling
      obtain rfl : fixedSpelling .upper .operator t.value = text := Except.ok.inj hspelling
      rwa [hfixed]
  | punctuation =>
      have hkind' : (Terminal.ofToken t).kind = _ := hkind
      rw [Terminal.spelling, hkind'] at hspelling
      obtain rfl : t.value = text := Except.ok.inj hspelling
      exact spelled_mark (hformed.mark hkind)
  | stringLiteral =>
      have hkind' : (Terminal.ofToken t).kind = _ := hkind
      rw [Terminal.spelling, hkind'] at hspelling
      obtain rfl := Except.ok.inj hspelling
      exact .written (.literal t.value (hformed.introducer hkind))

end Token

end DualSql
