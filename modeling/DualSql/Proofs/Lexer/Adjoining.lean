import DualSql.Proofs.Lexer.Spellings

/-! # Lexemes with no blank between them

Where no blank is written, each lexeme is read up to its end, with three
exceptions: a symbol that is part of a longer one, a point before a digit, and a
number or a variable before what belongs to it.

Main definitions: `clings` and `Adjoins`. Main result: `reading_of_adjoins`. -/

namespace DualSql

/-- Whether a character can be part of a decimal number. -/
def isDecimalChar (c : Char) : Bool :=
  c.isDigit || ['.', 'e', 'E', '+', '-'].contains c

/-- Whether a text has the characters of a decimal number. -/
def isDecimal (text : List Char) : Bool :=
  text.head?.any (fun c => c.isDigit || c == '.') && text.any Char.isDigit &&
    text.all isDecimalChar

/-- Whether a lexeme goes on with the text behind it. -/
def clings (d : Dialect) (text rest : List Char) : Bool :=
  ((Vocabulary.symbols d).any fun s => s.toList == text &&
    Vocabulary.longestSymbol d (text ++ rest.takeWhile (Vocabulary.isOperatorChar d)) != some s) ||
  (text == ['.'] && rest.head?.any Char.isDigit) ||
  (isDecimal text && rest.head?.any (extendsNumber d text)) ||
  (d == .mysql && text.head? == some '@' && rest.head?.any isVariableChar)

/-- The characters of the signs. -/
def signChars : List Char :=
  ['-', '+', '~', '!']

/-- The characters that hold the next lexeme close. -/
def holders : List Char :=
  ['(', '[', '\x7b', '.', ':']

/-- The characters that stand close to what is before them. -/
def huggers : List Char :=
  [' ', '(', ':', ',', ';', ')', ']', '\x7d', '.']

/-- Whether a lexeme ends in no sign and holds nothing close. -/
def EndsPlainly (text : List Char) : Prop :=
  ∀ last ∈ text.getLast?, last ∉ signChars ++ holders

/-- The ways in which one text can follow another without a blank. -/
structure Adjoins (text next : List Char) : Prop where
  /-- No comment begins. -/
  comment : ∀ last ∈ text.getLast?, ∀ first ∈ next.head?, Writer.startsComment last first = false
  close : next = ['('] ∨ (∃ sign ∈ signChars, text = [sign]) ∨ Writer.hugsBefore next = true ∨
    ∃ last ∈ text.getLast?, last ∈ holders

variable {d : Dialect} {text next : List Char} {ok : List Char → Prop}

/-- What none of some characters is, each of them is not. -/
theorem eq_false_of_any {p : Char → Bool} {chars : List Char} (h : chars.any p = false) {c : Char}
    (hc : c ∈ chars) : p c = false :=
  Bool.eq_false_iff.2 (List.any_eq_false.1 h c hc)

theorem mem_holders_of_hugsAfter {earlier : List Char} {last : Char}
    (h : Writer.hugsAfter (last :: earlier) = true) : last ∈ holders := by
  rcases Bool.or_eq_true_iff.1 h with hbracket | hcast
  · have hmem : last ∈ ['(', '[', '\x7b', '.'] := by simpa [Writer.hugsAfter] using hbracket
    exact List.mem_append_left [':'] hmem
  · obtain rfl : ':' = last := by
      have hprefix : [':', ':'] <+: last :: earlier := List.isPrefixOf_iff_prefix.1 hcast
      exact (List.cons_prefix_cons.1 hprefix).1
    decide

/-- Where no blank is needed, either one is left out or the characters stand close. -/
theorem adjoins_of_needsSpace {earlier : List Char} {tight : Bool}
    (htight : tight = true → next = ['('] ∨ ∃ sign ∈ signChars, text = [sign])
    (hnext : next ≠ []) (h : Writer.needsSpace (text.reverse ++ earlier) next tight = false)
    (htext : text ≠ []) : Adjoins text next := by
  obtain ⟨front, last, rfl⟩ : ∃ front last, text = front ++ [last] :=
    ⟨_, _, (List.dropLast_append_getLast htext).symm⟩
  obtain ⟨first, rest, rfl⟩ := List.exists_cons_of_ne_nil hnext
  rw [List.reverse_append, List.reverse_singleton, List.singleton_append, List.cons_append] at h
  obtain ⟨hcomment, hclose⟩ := Bool.or_eq_false_iff.1 h
  have hlast : (front ++ [last]).getLast? = some last := List.getLast?_concat
  refine ⟨?_, ?_⟩
  · rw [hlast]
    rintro _ ⟨⟩ _ ⟨⟩
    exact hcomment
  · cases htight' : tight with
    | true => exact (htight htight').imp_right .inl
    | false =>
        rw [htight', Bool.not_false, Bool.true_and, Bool.and_eq_false_iff] at hclose
        refine .inr (.inr (hclose.imp (fun hbefore => ?_) fun hafter => ⟨last, hlast, ?_⟩))
        · simpa using hbefore
        · exact mem_holders_of_hugsAfter (by simpa using hafter)

/-- What stands close begins with a character that does, and is no number. -/
theorem hugsBefore_cons {first : Char} {rest : List Char}
    (h : Writer.hugsBefore (first :: rest) = true) :
    first ∈ huggers ∧ ¬(first = '.' ∧ rest.head?.any Char.isDigit = true) := by
  simp only [Writer.hugsBefore, Bool.and_eq_true, Bool.or_eq_true, Bool.not_eq_true',
    Bool.and_eq_false_iff, beq_eq_false_iff_ne] at h
  obtain ⟨hfraction, hclose⟩ := h
  constructor
  · rcases hclose with hmark | hcast
    · have hmem : first ∈ [',', ';', ')', ']', '\x7d', '.'] := List.contains_iff_mem.1 hmark
      exact List.mem_append_right [' ', '(', ':'] hmem
    · obtain rfl : ':' = first := by
        have hprefix : [':', ':'] <+: first :: rest := List.isPrefixOf_iff_prefix.1 hcast
        exact (List.cons_prefix_cons.1 hprefix).1
      decide
  · rintro ⟨hpoint, hdigit⟩
    rcases hfraction with hne | hnone
    · exact hne hpoint
    · cases hnone.symm.trans hdigit

/-- What is written behind a lexeme that ends in no sign and holds nothing close. -/
theorem Adjoins.mem_huggers (h : Adjoins text next)
    (hlast : EndsPlainly text) :
    ∀ c ∈ (next ++ [' ']).head?, c ∈ huggers := by
  rcases h.close with rfl | ⟨sign, hmem, rfl⟩ | hbefore | ⟨last, hmem, hholder⟩
  · rintro c ⟨⟩
    decide
  · exact absurd (List.mem_append_left _ hmem) (hlast sign rfl)
  · cases next with
    | nil =>
        rintro c ⟨⟩
        decide
    | cons first rest =>
        rintro c ⟨⟩
        exact (hugsBefore_cons hbefore).1
  · exact absurd (List.mem_append_right _ hholder) (hlast last hmem)

/-- A number that begins with its point does not stand close behind a name. -/
theorem Adjoins.followsName_eq_false (h : Adjoins text next) {rest : List Char}
    (hnext : next ++ [' '] = '.' :: rest) (hdigit : rest.head?.any Char.isDigit = true) :
    followsName text.getLast? = false := by
  rcases h.close with rfl | ⟨sign, hmem, rfl⟩ | hbefore | ⟨last, hmem, hholder⟩
  · cases hnext
  · have hnone : signChars.any (fun c => followsName (some c)) = false := by decide
    exact eq_false_of_any hnone hmem
  · cases next with
    | nil => cases hnext
    | cons first more =>
        obtain ⟨rfl, rfl⟩ : first = '.' ∧ more ++ [' '] = rest := List.cons.inj hnext
        refine absurd ⟨rfl, ?_⟩ (hugsBefore_cons hbefore).2
        cases more with
        | nil => cases hdigit
        | cons c more => exact hdigit
  · have hnone : holders.any (fun c => followsName (some c)) = false := by decide
    rw [Option.mem_def.1 hmem]
    exact eq_false_of_any hnone hholder

/-! ### Where each form ends -/

theorem isWordChar_getLast_words (words : List (List Char)) (hsome : words ≠ [])
    (h : ∀ word ∈ words, isBareWord word = true) :
    ∀ last ∈ ([' '].intercalate words).getLast?, isWordChar last = true := by
  induction words with
  | nil => exact absurd rfl hsome
  | cons word words ih =>
      obtain ⟨hword, hwords⟩ := List.forall_mem_cons.1 h
      have hchars := List.all_eq_true.1 (Bool.and_eq_true_iff.1 hword).2
      cases words with
      | nil =>
          rw [List.intercalate_singleton]
          exact fun last hlast => hchars last (List.mem_of_getLast? hlast)
      | cons next words =>
          have hne : [' '].intercalate (next :: words) ≠ [] := by
            obtain ⟨more, hmore⟩ := Scanner.exists_intercalate_cons next words
            have hnext : isBareWord next = true := hwords next List.mem_cons_self
            rw [hmore]
            intro hnil
            rw [(List.append_eq_nil_iff.1 hnil).1] at hnext
            cases hnext
          rw [List.intercalate_cons_cons, List.getLast?_append_of_ne_nil _ hne]
          exact ih (List.cons_ne_nil _ _) hwords

theorem endsPlainly_of_isWordChar (h : ∀ last ∈ text.getLast?, isWordChar last = true) :
    EndsPlainly text := by
  have hnone : (signChars ++ holders).any isWordChar = false := by decide
  intro last hlast hmem
  cases (h last hlast).symm.trans (eq_false_of_any hnone hmem)

theorem endsPlainly_of_forall (h : ∀ c ∈ text, isWordChar c = true) : EndsPlainly text :=
  endsPlainly_of_isWordChar fun last hlast => h last (List.mem_of_getLast? hlast)

theorem endsPlainly_of_getLast {c : Char} (hlast : text.getLast? = some c)
    (h : c ∉ signChars ++ holders) : EndsPlainly text := by
  rw [EndsPlainly, hlast]
  rintro _ ⟨⟩
  exact h

theorem getLast_stringSpelling (d : Dialect) (value : String) (modifier : Option String) :
    (stringSpelling d value modifier).toList.getLast? = some '\'' := by
  have hbody : (d.quoteString value).toList.getLast? = some '\'' := by
    rw [Dialect.quoteString, String.toList_ofList]
    unfold Dialect.quotedChars
    cases d with
    | mysql => exact List.getLast?_concat
    | postgres =>
        dsimp only
        split <;> exact List.getLast?_concat
  have hled (lead : String) : (lead ++ d.quoteString value).toList.getLast? = some '\'' := by
    rw [String.toList_append, List.getLast?_append, hbody]
    rfl
  unfold stringSpelling
  cases modifier with
  | none => exact hbody
  | some m =>
      dsimp only
      split
      · exact hled "N"
      split
      · exact hled m
      split
      · rw [String.toList_append]
        exact List.getLast?_concat
      · exact hbody

theorem all_isDecimalChar {digits : List Char} (h : ∀ c ∈ digits, c.isDigit = true) :
    digits.all isDecimalChar = true :=
  List.all_eq_true.2 fun c hc => by rw [isDecimalChar, h c hc, Bool.true_or]

theorem Exponent.all_optionalText (e : Option Exponent) :
    (optionalText e).all isDecimalChar = true := by
  cases e with
  | none => rfl
  | some e =>
      obtain ⟨mark, sign, digits, hmark, hsign, hdigits, hsome⟩ := e
      change List.all (mark :: (sign ++ digits)) _ = true
      rw [List.all_cons, List.all_append, all_isDecimalChar hdigits, Bool.and_true]
      simp only [List.mem_cons, List.not_mem_nil, or_false] at hsign
      rcases hmark with rfl | rfl <;> rcases hsign with rfl | rfl | rfl <;> rfl

theorem Decimal.isDecimal (number : Decimal) : DualSql.isDecimal number.text = true := by
  obtain ⟨whole, fraction, e, hwhole, hfraction, hspoken⟩ := number
  have hpart : (fraction.elim [] ('.' :: ·)).all isDecimalChar = true := by
    cases fraction with
    | none => rfl
    | some digits =>
        rw [Option.elim_some, List.all_cons, all_isDecimalChar (hfraction _ rfl)]
        rfl
  simp only [DualSql.isDecimal, text, List.all_append, all_isDecimalChar hwhole, hpart,
    Exponent.all_optionalText, Bool.and_true]
  cases whole with
  | cons c whole => simp [hwhole c List.mem_cons_self]
  | nil =>
      obtain ⟨digits, rfl, hsome⟩ := hspoken rfl
      obtain ⟨c, digits, rfl⟩ := List.exists_cons_of_ne_nil hsome
      simp [hfraction _ rfl c List.mem_cons_self]

theorem stops_of_any {p : Char → Bool} {rest : List Char} (h : rest.head?.any p = false) :
    Stops p rest := by
  rintro c hc
  rwa [Option.mem_def.1 hc, Option.any_some] at h

/-- Every form ends where it is written to end, unless the lexeme goes on or a
comment begins. -/
theorem Written.ok_of_follows (h : Written d text ok) {rest : List Char}
    (hclings : clings d text rest = false)
    (hcomment : ∀ last ∈ text.getLast?, ∀ first ∈ rest.head?,
      Writer.startsComment last first = false)
    (hhugs : EndsPlainly text → ∀ c ∈ rest.head?, c ∈ huggers) : ok rest := by
  simp only [clings, Bool.or_eq_false_iff] at hclings
  obtain ⟨⟨⟨hsymbol, hpoint⟩, hnumber⟩, hvariable⟩ := hclings
  -- What cannot go on holds nothing close, so that only what stands close follows.
  have closed (p : Char → Bool) (hends : EndsPlainly text) (hnone : huggers.any p = false) :
      Stops p rest := fun c hc => eq_false_of_any hnone (hhugs hends c hc)
  cases h with
  | mark h => trivial
  | opener b => trivial
  | placeholder hd => trivial
  | point => exact stops_of_any (by simpa using hpoint)
  | @symbol s h =>
      refine ⟨?_, hcomment⟩
      have hlongest := List.any_eq_false.1 hsymbol s h
      simpa using hlongest
  | number number =>
      rw [number.isDecimal, Bool.true_and] at hnumber
      exact stops_of_any hnumber
  | @bareVariable marker name hd hmarker h =>
      have hhead : (marker.toList ++ name).head? = some '@' := by
        rcases hmarker with rfl | rfl <;> rfl
      rw [hd, hhead, beq_self_eq_true, beq_self_eq_true, Bool.and_self, Bool.true_and] at hvariable
      exact stops_of_any hvariable
  | dollar hd =>
      exact closed _ (endsPlainly_of_forall (List.forall_mem_singleton.2 (by decide))) (by decide)
  | phrase h =>
      have hlast := isWordChar_getLast_words (text.splitOn ' ') (List.splitOn_ne_nil ' ' text)
        (List.all_eq_true.1 h)
      rw [List.intercalate_splitOn] at hlast
      have hstops := closed (fun c => isWordChar c || c == '\'') (endsPlainly_of_isWordChar hlast)
        (by decide)
      intro c hc
      simpa using hstops c hc
  | name h =>
      have hnone : huggers.any (· == d.identifierQuote) = false := by cases d <;> decide
      have hplain : d.identifierQuote ∉ signChars ++ holders := by cases d <;> decide
      have hstops := closed _ (endsPlainly_of_getLast List.getLast?_concat hplain) hnone
      intro hquote
      simpa using hstops _ hquote
  | literal value h =>
      have hstops := closed (· == '\'')
        (endsPlainly_of_getLast (getLast_stringSpelling ..) (by decide)) (by decide)
      intro hquote
      simpa using hstops _ hquote
  | quotedDigits base h =>
      have hlast (front : List Char) :
          (base.marker :: '\'' :: (front ++ ['\''])).getLast? = some '\'' := by
        exact List.getLast?_concat (l := base.marker :: '\'' :: front)
      have hstops := closed (· == '\'') (endsPlainly_of_getLast (hlast _) (by decide)) (by decide)
      intro hquote
      simpa using hstops _ hquote
  | basedDigits base hd hsome h =>
      refine closed _ (endsPlainly_of_forall ?_) (by decide)
      refine List.forall_mem_cons.2 ⟨by decide, List.forall_mem_cons.2 ⟨?_, fun c hc => ?_⟩⟩
      · cases base <;> decide
      · rw [isWordChar, base.isAlphanumeric_of_isDigit (h c hc)]
        rfl
  | numbered hd hsome h =>
      refine closed _ (endsPlainly_of_forall ?_) (by decide)
      exact List.forall_mem_cons.2 ⟨by decide, fun c hc => isWordChar_of_isDigit (h c hc)⟩

/-! ### Where each form begins -/

theorem isBlank_of_isDigit {c : Char} (h : c.isDigit = true) : Text.isBlank c = false := by
  simp only [Char.isDigit, Bool.and_eq_true, decide_eq_true_eq, UInt32.le_iff_toNat_le] at h
  change 48 ≤ c.toNat ∧ c.toNat ≤ 57 at h
  simp only [Text.isBlank, Bool.or_eq_false_iff, Bool.and_eq_false_iff, decide_eq_false_iff_not,
    beq_eq_false_iff_ne]
  omega

theorem exists_cons_stringSpelling (d : Dialect) (value : String) (modifier : Option String) :
    ∃ c more, (stringSpelling d value modifier).toList = c :: more ∧
      c ∈ ['\'', 'E', 'N', '_'] := by
  have hbody : ∃ c more, (d.quoteString value).toList = c :: more ∧ c ∈ ['\'', 'E', 'N', '_'] := by
    rw [Dialect.quoteString, String.toList_ofList]
    unfold Dialect.quotedChars
    cases d with
    | mysql => exact ⟨_, _, rfl, by decide⟩
    | postgres =>
        dsimp only
        split <;> exact ⟨_, _, rfl, by decide⟩
  unfold stringSpelling
  cases modifier with
  | none => exact hbody
  | some m =>
      dsimp only
      split
      · exact ⟨'N', _, String.toList_append, by decide⟩
      split
      next hcharset =>
        obtain ⟨more, hm⟩ := List.head?_eq_some_iff.1 hcharset.2
        refine ⟨'_', more ++ (d.quoteString value).toList, ?_, by decide⟩
        rw [String.toList_append, hm, List.cons_append]
      split
      · rw [String.toList_append, String.toList_append]
        exact ⟨'E', _, rfl, by decide⟩
      · exact hbody

/-- No form begins with a blank. -/
theorem Written.exists_cons (h : Written d text ok) :
    ∃ c more, text = c :: more ∧ Text.isBlank c = false := by
  cases h with
  | mark h =>
      have hnone : [',', ';'].any Text.isBlank = false := by decide
      exact ⟨_, _, rfl, eq_false_of_any hnone h⟩
  | opener b => exact ⟨_, _, rfl, by cases b <;> decide⟩
  | point | dollar _ | basedDigits _ _ _ _ | numbered _ _ _ | placeholder _ =>
      exact ⟨_, _, rfl, by decide⟩
  | @symbol s h =>
      obtain ⟨hsome, hop, -⟩ := symbol_chars d h
      obtain ⟨c, more, hchars⟩ := List.exists_cons_of_ne_nil hsome
      have hnone : (Vocabulary.operatorChars d).any Text.isBlank = false := by
        cases d <;> decide
      have hc : Vocabulary.isOperatorChar d c = true := hop c (hchars ▸ List.mem_cons_self)
      exact ⟨c, more, hchars, eq_false_of_any hnone (List.contains_iff_mem.1 hc)⟩
  | phrase h =>
      obtain ⟨word, words, hsplit⟩ := List.exists_cons_of_ne_nil (List.splitOn_ne_nil ' ' text)
      have hword : isBareWord word = true := by
        rw [isPhrase, hsplit] at h
        exact (Bool.and_eq_true_iff.1 h).1
      obtain ⟨more, hmore⟩ := Scanner.exists_intercalate_cons word words
      have htext : text = word ++ more := by
        rw [← hmore, ← hsplit, List.intercalate_splitOn]
      cases word with
      | nil => cases hword
      | cons c word =>
          have hstart : isWordStart c = true := (Bool.and_eq_true_iff.1 hword).1
          exact ⟨c, word ++ more, htext, Bool.eq_false_iff.2 (isWordStart_cases hstart).1⟩
  | name h => exact ⟨_, _, rfl, by cases d <;> decide⟩
  | literal value h =>
      obtain ⟨c, more, hchars, hc⟩ := exists_cons_stringSpelling d value _
      have hnone : ['\'', 'E', 'N', '_'].any Text.isBlank = false := by decide
      exact ⟨c, more, hchars, eq_false_of_any hnone hc⟩
  | number number =>
      obtain ⟨whole, fraction, e, hwhole, hfraction, hspoken⟩ := number
      cases whole with
      | cons c whole => exact ⟨c, _, rfl, isBlank_of_isDigit (hwhole c List.mem_cons_self)⟩
      | nil =>
          obtain ⟨digits, rfl, -⟩ := hspoken rfl
          exact ⟨'.', _, rfl, by decide⟩
  | quotedDigits base h => exact ⟨_, _, rfl, by cases base <;> decide⟩
  | bareVariable hd hmarker h => rcases hmarker with rfl | rfl <;> exact ⟨_, _, rfl, by decide⟩

theorem Spelled.exists_cons {text : String} (h : Spelled d text) :
    ∃ c more, text.toList = c :: more ∧ Text.isBlank c = false := by
  cases h with
  | written form => exact form.exists_cons
  | closer h =>
      simp only [closerTexts, List.mem_cons, List.not_mem_nil, or_false] at h
      rcases h with rfl | rfl | rfl <;> exact ⟨_, [], rfl, by decide⟩
  | frayed h =>
      simp only [isFrayed, Bool.and_eq_true, beq_iff_eq] at h
      obtain ⟨more, hmore⟩ := List.head?_eq_some_iff.1 h.1.2
      exact ⟨'@', more, hmore, by decide⟩

/-! ### Lexemes next to each other -/

/-- A closing bracket without its partner is refused, whatever follows. -/
theorem reading_closer {a : String} (h : a ∈ closerTexts) (rest rest' : String) :
    reading d (a ++ rest) = reading d (a ++ rest') := by
  obtain ⟨b, hb⟩ : ∃ b : Bracket, a.toList = [b.closer] := by
    simp only [closerTexts, List.mem_cons, List.not_mem_nil, or_false] at h
    rcases h with rfl | rfl | rfl
    exacts [⟨.paren, rfl⟩, ⟨.square, rfl⟩, ⟨.curly, rfl⟩]
  have hrefused (rest : String) :
      reading d (a ++ rest) =
        ([], some (LexError.bare (.unbalancedClose b.closer (Scanner.start d).position))) := by
    have hlexeme (ctx : LexContext) : lexeme ctx b.closer true rest.toList = .done (.closing b) 0 := by
      obtain ⟨d, options, start, before⟩ := ctx
      cases b <;> cases d <;> rfl
    have hchars : (a ++ rest).toList = b.closer :: rest.toList := by
      rw [String.toList_append, hb, List.singleton_append]
    have hunread : ((Scanner.start d).on (b.closer :: rest.toList)).unread =
        b.closer :: rest.toList := rfl
    rw [reading_eq, hchars, Scanner.digest_of_cons hunread, hlexeme]
    rfl
  rw [hrefused, hrefused]

/-- A blank does not make a lexeme go on. -/
theorem clings_blank (d : Dialect) (text rest : List Char) : clings d text (' ' :: rest) = false := by
  have hop : Vocabulary.isOperatorChar d ' ' = false := by cases d <;> decide
  have hvariable : isVariableChar ' ' = false := by decide
  have hdigit : Char.isDigit ' ' = false := by decide
  have hnumber : extendsNumber d text ' ' = false := by simp [extendsNumber, hdigit]
  simp only [clings, List.takeWhile_cons, hop, Bool.false_eq_true, if_false, List.append_nil,
    List.head?_cons, Option.any_some, hvariable, hdigit, hnumber, Bool.and_false, Bool.or_false]
  refine List.any_eq_false.2 fun s hs => ?_
  rintro h
  simp only [Bool.and_eq_true, beq_iff_eq, bne_iff_ne] at h
  exact h.2 (h.1 ▸ Vocabulary.longestSymbol_of_mem hs)

theorem clings_append_blank (hnext : next ≠ []) :
    clings d text (next ++ [' ']) = clings d text next := by
  have hop : Vocabulary.isOperatorChar d ' ' = false := by cases d <;> decide
  have hrun : (next ++ [' ']).takeWhile (Vocabulary.isOperatorChar d) =
      next.takeWhile (Vocabulary.isOperatorChar d) := by
    rw [List.takeWhile_append]
    split
    next hall =>
      rw [List.takeWhile_cons, hop, if_neg Bool.false_ne_true, List.append_nil]
      exact ((List.takeWhile_prefix _).eq_of_length hall).symm
    next => rfl
  rw [clings, clings, hrun, List.head?_append_of_ne_nil _ hnext]

/-- Lexemes with no blank between them are read as with one, if the first does not
go on with the second and is no variable that is written without the quotes it needs. -/
theorem reading_of_adjoins {a b : String} (ha : Spelled d a) (hb : Spelled d b)
    (hadjoins : Adjoins a.toList b.toList) (hclings : clings d a.toList b.toList = false)
    (hfrayed : isFrayed d a.toList = false) :
    reading d (a ++ b ++ " ") = reading d (a ++ " " ++ b ++ " ") := by
  obtain ⟨c, more, hchars, hblank⟩ := hb.exists_cons
  have hnext : b.toList ≠ [] := hchars ▸ List.cons_ne_nil _ _
  have hhead : (b.toList ++ [' ']).head? = b.toList.head? := by rw [hchars]; rfl
  cases ha with
  | frayed h => cases h.symm.trans hfrayed
  | closer h => simpa only [String.append_assoc] using reading_closer h _ _
  | written form =>
      obtain ⟨s, htakes⟩ := form.takes
      refine reading_of_takes htakes ?_ ?_ ?_ fun rest hrest hdigit =>
        hadjoins.followsName_eq_false hrest hdigit
      · refine form.ok_of_follows ((clings_append_blank hnext).trans hclings) ?_
          hadjoins.mem_huggers
        rw [hhead]
        exact hadjoins.comment
      · refine form.ok_of_follows (clings_blank ..) ?_ ?_
        · rintro last - _ ⟨⟩
          simp [Writer.startsComment]
        · rintro - _ ⟨⟩
          decide
      · rintro _ hmem
        rw [hhead, hchars] at hmem
        obtain rfl := Option.some.inj hmem
        exact hblank

end DualSql
