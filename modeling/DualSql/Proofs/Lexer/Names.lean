import DualSql.Forest.Spelling
import DualSql.Proofs.Lexer.Quoting

/-! # Names are read back

A name that is written bare is one word to the lexer, and no keyword and no name of a
data type. Every other name is written in quotes. So each name is read back as itself,
alone in a text, in quotes or not as it was written.

Main results: `lexeme_word`, `lexeme_quotedName` and `Terminal.spelling_lexEvents`. -/

namespace DualSql

open Recogniser

variable {ctx : LexContext}

/-! ### Characters that start words -/

/-- The codes of the blanks and the digits. -/
def wordlessCodes : List Nat :=
  List.range' 0x9 5 ++ [0x20] ++ List.range' 0x30 10 ++ [0x85, 0xA0, 0x1680] ++
    List.range' 0x2000 11 ++ [0x2028, 0x2029, 0x202F, 0x205F, 0x3000]

/-- The other characters that mean something of their own to the lexer. -/
def signs : List Char :=
  ['-', '/', '.', '#', '\'', '"', '\x60', '$', '?', '@', ',', ';', '(', ')', '[', ']', '\x7b',
    '\x7d']

theorem mem_wordlessCodes {c : Char} (h : Text.isBlank c = true ∨ c.isDigit = true) :
    c.toNat ∈ wordlessCodes := by
  simp only [wordlessCodes, List.mem_append, List.mem_range'_1, List.mem_cons, List.not_mem_nil,
    or_false]
  rcases h with hblank | hdigit
  · simp only [Text.isBlank, Bool.or_eq_true, Bool.and_eq_true, decide_eq_true_eq,
      beq_iff_eq] at hblank
    omega
  · have hrange : 48 ≤ c.toNat ∧ c.toNat ≤ 57 := by
      simpa [Char.isDigit, UInt32.le_iff_toNat_le] using hdigit
    omega

theorem wordlessCodes_start_no_word :
    wordlessCodes.all (fun code => !isWordStart (Char.ofNat code)) = true := by
  decide +kernel

theorem signs_start_no_word : signs.all (fun sign => !isWordStart sign) = true := by
  decide

theorem isWordStart_cases {c : Char} (h : isWordStart c = true) :
    ¬ Text.isBlank c = true ∧ ¬ c.isDigit = true := by
  have hcode : c.toNat ∉ wordlessCodes := by
    intro hmem
    have hnone := List.all_eq_true.1 wordlessCodes_start_no_word _ hmem
    rw [Char.ofNat_toNat, h] at hnone
    cases hnone
  exact ⟨fun hb => hcode (mem_wordlessCodes (.inl hb)), fun hd => hcode (mem_wordlessCodes (.inr hd))⟩

/-- A character that can start a word starts nothing else. -/
theorem lexeme_wordStart {c : Char} (h : isWordStart c = true) :
    lexeme ctx c = wordLexeme ctx c := by
  obtain ⟨hblank, hdigit⟩ := isWordStart_cases h
  have hzero : c ≠ '0' := by
    rintro rfl
    exact hdigit rfl
  -- The lexer asks for each of these before it asks whether a word starts.
  have hsign : ∀ sign ∈ signs, ¬ c = sign := by
    rintro sign hmem rfl
    have hnone := List.all_eq_true.1 signs_start_no_word c hmem
    rw [h] at hnone
    cases hnone
  simp only [signs, List.forall_mem_cons, List.not_mem_nil, false_imp_iff, implies_true,
    and_true] at hsign
  obtain ⟨hminus, hslash, hdot, hhash, hquote, hdouble, hback, hdollar, hquestion, hat, hcomma,
    hsemicolon, hopen, hclose, hopen', hclose', hopen'', hclose''⟩ := hsign
  have hopener : Bracket.ofOpener? c = none := by
    simp [Bracket.ofOpener?, Bracket.opener, Ne.symm hopen, Ne.symm hopen', Ne.symm hopen'']
  have hcloser : Bracket.ofCloser? c = none := by
    simp [Bracket.ofCloser?, Bracket.closer, Ne.symm hclose, Ne.symm hclose', Ne.symm hclose'']
  simp only [lexeme, ordinaryLexeme, hblank, hminus, hslash, hdot, hzero, hhash, hquote, hdouble,
    hback, hdollar, hquestion, hat, hcomma, hsemicolon, hdigit, hopener, hcloser, h, false_and,
    or_self, Bool.false_eq_true, if_false, if_true]

/-! ### Names as lexemes -/

/-- A word is read up to its end, where neither another character of a word nor a quote
follows. -/
theorem lexeme_word {first : Char} {word rest : List Char} (hfirst : isWordStart first = true)
    (hword : ∀ c ∈ word, isWordChar c = true)
    (hrest : ∀ c ∈ rest.head?, isWordChar c = false ∧ c ≠ '\'') :
    lexeme ctx first true (word ++ rest) =
      .done (bareWord ctx (first :: word)) word.length := by
  have hstops : rest.takeWhile isWordChar = [] := by
    cases rest with
    | nil => rfl
    | cons c rest => rw [List.takeWhile_cons_of_neg (by simp [(hrest c rfl).1])]
  have hrun : (word ++ rest).takeWhile isWordChar = word := by
    rw [List.takeWhile_append_of_pos hword, hstops, List.append_nil]
  have htake : takeWhile isWordChar true (word ++ rest) = .done word word.length := by
    unfold Recogniser.takeWhile
    simp only [hrun]
    split <;> rfl
  have hlook : look 0 true rest = .done rest.head? 0 := by
    cases rest <;> rfl
  have hquote : rest.head? ≠ some '\'' := fun h => (hrest _ h).2 rfl
  rw [lexeme_wordStart hfirst, wordLexeme, bind_of_done htake, List.drop_left,
    bind_of_done hlook, if_neg hquote]
  rfl

/-- A name that needs no quotes is read as a word with its spelling. -/
theorem lexeme_bareName {name : String} {first : Char} {rest : List Char}
    (hname : name.toList = first :: rest) (h : needsQuotes ctx.dialect name = false) :
    lexeme ctx first true rest =
      .done (.token (ctx.token .identifier name.toList)) rest.length := by
  unfold needsQuotes at h
  simp only [hname, Bool.or_eq_false_iff, Bool.not_eq_false'] at h
  obtain ⟨⟨⟨hfirst, hrest⟩, hkeyword⟩, hdata⟩ := h
  have hword : bareWord ctx (first :: rest) = .token (ctx.token .identifier name.toList) := by
    have hclass : Vocabulary.classify ctx.dialect (Text.toUpper name) = .identifier := by
      simp [Vocabulary.classify, hkeyword, hdata]
    rw [← hname, bareWord, String.ofList_toList, hclass]
    rfl
  have hread : lexeme ctx first true (rest ++ []) = _ :=
    lexeme_word hfirst (List.all_eq_true.1 hrest) fun c hc => (by cases hc)
  rwa [List.append_nil, hword] at hread

/-- A name in quotes is read as the name that it is written for, if no further quote
follows. -/
theorem lexeme_quotedName {name rest : List Char} (hname : name ≠ [])
    (hrest : rest.head? ≠ some ctx.dialect.identifierQuote) :
    lexeme ctx ctx.dialect.identifierQuote true
        ((name.flatMap ctx.dialect.identifierChar ++ [ctx.dialect.identifierQuote]) ++ rest) =
      .done (.token { ctx.token .identifier name with
          delimiter := ctx.dialect.identifierQuote.toString })
        (name.flatMap ctx.dialect.identifierChar ++ [ctx.dialect.identifierQuote]).length := by
  have hlexeme : lexeme ctx ctx.dialect.identifierQuote =
      identifierLexeme ctx ctx.dialect.identifierQuote := by
    obtain ⟨d, options, start, before⟩ := ctx
    cases d <;> rfl
  have hdenotes : Denotes ctx ctx.dialect.identifierQuote .off .quotedIdentifier
      (name.flatMap ctx.dialect.identifierChar) name :=
    denotes_flatMap (denotes_identifierChar ctx.dialect) name
  have hbody := hdenotes.body hrest
  have hnonempty : name.isEmpty = false := by
    rwa [List.isEmpty_eq_false_iff]
  rw [hlexeme, identifierLexeme, List.append_assoc, List.singleton_append, bind_of_done hbody,
    List.length_append]
  simp only [hnonempty]
  rfl

/-- Each name is written as one lexeme that is read as the name, in quotes or not. -/
theorem lexeme_spelledName {name : String} (hname : name ≠ "") (quotes : Bool)
    (h : quotes = false → needsQuotes ctx.dialect name = false) :
    ∃ first more delimiter, delimiter.isSome = quotes ∧
      (if quotes then ctx.dialect.quoteIdentifier name else name).toList = first :: more ∧
      lexeme ctx first true more =
        .done (.token { ctx.token .identifier name.toList with delimiter }) more.length := by
  have hnonempty : name.toList ≠ [] := fun hnil => hname (String.toList_eq_nil_iff.1 hnil)
  cases quotes with
  | true =>
      have hread : lexeme ctx ctx.dialect.identifierQuote true
          (name.toList.flatMap ctx.dialect.identifierChar ++ [ctx.dialect.identifierQuote] ++ []) = _ :=
        lexeme_quotedName hnonempty nofun
      rw [List.append_nil] at hread
      exact ⟨_, _, some _, rfl, String.toList_ofList, hread⟩
  | false =>
      obtain ⟨first, rest, hfirst⟩ := List.exists_cons_of_ne_nil hnonempty
      exact ⟨first, rest, none, rfl, hfirst, lexeme_bareName hfirst (h rfl)⟩

/-! ### Names in a text -/

theorem Phrase.single_of_ne {d : Dialect} {t : Token} (hkeyword : t.kind ≠ .keyword) :
    single d t = t :=
  if_neg hkeyword

theorem Phrase.kind_single (d : Dialect) (t : Token) : (single d t).kind = t.kind := by
  unfold single
  split <;> rfl

theorem Phrase.value_single (d : Dialect) (t : Token) : (single d t).value = t.value := by
  unfold single
  split <;> rfl

/-- A single word is no part of a phrase, if it does not wait for more. -/
theorem Phrase.settle_single (d : Dialect) (final : Bool) {t : Token}
    (htrivia : t.kind.isTrivia = false) :
    settle d final [t] = if !final && mayGrow d [t] then ([], [t]) else ([single d t], []) := by
  have hhead : head d t [] = (single d t, 0) := by
    rw [head, longest]
  rw [settle, htrivia, hhead]
  simp only [Bool.false_eq_true, if_false, List.drop_nil, settle]

namespace Scanner

variable {s : Scanner}

/-- A word is delivered alone, if no other comes with it. -/
theorem flush_wait {t : Token} (hwords : s.words = []) (htrivia : t.kind.isTrivia = false) :
    (s.wait t).flush =
      { s with ready := s.ready ++ [.token (Phrase.single s.dialect t)] } := by
  have hfinal : Phrase.settle s.dialect true [t] = ([Phrase.single s.dialect t], []) :=
    Phrase.settle_single s.dialect true htrivia
  rw [wait, hwords, List.nil_append, Phrase.settle_single s.dialect false htrivia]
  -- The word may begin a phrase, and then waits for the next one, which never comes.
  cases Phrase.mayGrow s.dialect [t] with
  | true => simp [flush, hfinal]
  | false => simp [flush, Phrase.settle]

theorem nesting_stageContent (t : Token) : (s.stageContent t).nesting = s.nesting := by
  unfold stageContent
  dsimp only
  split <;> rfl

/-- A token is delivered alone once no more words come. -/
theorem flush_stage_of_token {t : Token} (hwords : s.words = [])
    (htrivia : t.kind.isTrivia = false) (hbare : t.kind = .keyword → t.delimiter = none) :
    (s.stage t).flush = { s with
      spacePending := false
      ready := s.ready ++
        [.token (Phrase.single s.dialect { t with spaceBefore := s.spacePending })] } := by
  cases hword : Phrase.isWord { t with spaceBefore := s.spacePending } with
  | false =>
      have hkeyword : t.kind ≠ .keyword := by
        intro hkeyword
        simp [Phrase.isWord, hkeyword, hbare hkeyword] at hword
      rw [stage_of_words hwords htrivia hword,
        Phrase.single_of_ne (t := { t with spaceBefore := s.spacePending }) hkeyword]
      exact flush_of_words hwords
  | true =>
      rw [stage_of_content htrivia, stageContent]
      simp only [hword, if_true]
      exact flush_wait hwords htrivia

/-- A text that is one lexeme is read as one token. -/
theorem digest_of_token {c : Char} {text : List Char} {t : Token}
    (hwords : s.words = []) (hnesting : s.nesting = []) (hunread : s.unread = c :: text)
    (hlexeme : lexeme s.context c true text = .done (.token t) text.length)
    (htrivia : t.kind.isTrivia = false) (hbare : t.kind = .keyword → t.delimiter = none) :
    s.digest.1.ready = s.ready ++
        [.token (Phrase.single s.dialect { t with spaceBefore := s.spacePending })] ∧
      s.digest.2 = none := by
  have hnesting' : ((s.stage t).skip c text text.length).nesting = [] := by
    change (s.stage t).nesting = []
    rw [stage_of_content htrivia, nesting_stageContent, hnesting]
  have hunread' : ((s.stage t).skip c text text.length).unread = [] := List.drop_length
  rw [digest_of_cons hunread, hlexeme]
  simp only [accept]
  rw [digest_of_nil hunread', hnesting']
  change (s.stage t).flush.ready = _ ∧ _
  rw [flush_stage_of_token hwords htrivia hbare]
  exact ⟨rfl, rfl⟩

end Scanner

/-- The start of a text in a dialect, read with the usual options. -/
def LexContext.first (d : Dialect) : LexContext :=
  Scanner.context { dialect := d, options := .ofDialect d }

/-- The events of a text that is one lexeme. -/
theorem lexEvents_of_word {d : Dialect} {chunks : List String} {c : Char} {text : List Char}
    {t : Token} (htext : (String.join chunks).toList = c :: text)
    (hlexeme : lexeme (.first d) c true text = .done (.token t) text.length)
    (htrivia : t.kind.isTrivia = false) (hbare : t.kind = .keyword → t.delimiter = none) :
    lexEvents d (.ofDialect d) chunks =
      ([.token (Phrase.single d { t with spaceBefore := false })], none) := by
  have hdigest := Scanner.digest_of_token
    (s := .completed { dialect := d, options := .ofDialect d } (String.join chunks))
    rfl rfl htext hlexeme htrivia hbare
  rw [lexEvents_eq, Scanner.outcome]
  exact Prod.ext hdigest.1 hdigest.2

/-- The events of a text that is one lexeme and no keyword. -/
theorem lexEvents_of_lexeme {d : Dialect} {chunks : List String} {c : Char} {text : List Char}
    {t : Token} (htext : (String.join chunks).toList = c :: text)
    (hlexeme : lexeme (.first d) c true text = .done (.token t) text.length)
    (htrivia : t.kind.isTrivia = false) (hkeyword : t.kind ≠ .keyword) :
    lexEvents d (.ofDialect d) chunks =
      ([.token { t with spaceBefore := false }], none) := by
  rw [lexEvents_of_word htext hlexeme htrivia fun h => absurd h hkeyword,
    Phrase.single_of_ne (t := { t with spaceBefore := false }) hkeyword]

/-- A name is read back as it was written, in whichever pieces it arrives. It stands in
quotes if it was asked to be, and if it would not be read as a name without them. -/
theorem Terminal.spelling_lexEvents (d : Dialect) (c : KeywordCase) (position : Nat)
    {t : Terminal} (hkind : t.kind = .identifier) (hvalue : t.value ≠ "") :
    ∃ text token, t.spelling c d position = .ok text ∧
      (∀ chunks, String.join chunks = text →
        lexEvents d (.ofDialect d) chunks = ([.token token], none)) ∧
      token.kind = .identifier ∧ token.value = t.value ∧
      (token.isQuoted = true ↔ t.quoted = true ∨ needsQuotes d t.value = true) := by
  let ctx : LexContext := .first d
  have hquotes (h : (t.quoted || needsQuotes d t.value) = false) :
      needsQuotes ctx.dialect t.value = false :=
    (Bool.or_eq_false_iff.1 h).2
  obtain ⟨first, more, delimiter, hdelimiter, htext, hlexeme⟩ :=
    lexeme_spelledName hvalue (t.quoted || needsQuotes d t.value) hquotes
  have hspelling : t.spelling c d position =
      .ok (if t.quoted || needsQuotes d t.value then d.quoteIdentifier t.value else t.value) := by
    rw [spelling, hkind]
  refine ⟨_, { ctx.token .identifier t.value.toList with delimiter }, hspelling, ?_, rfl,
    String.ofList_toList, ?_⟩
  · intro chunks hchunks
    exact lexEvents_of_lexeme (hchunks ▸ htext) hlexeme rfl nofun
  · rw [← Bool.or_eq_true, ← hdelimiter]
    rfl

/-- A name that holds a quote. -/
theorem Terminal.spelling_lexEvents_doubled :
    let t : Terminal := { kind := .identifier, value := "a\"b" }
    t.kind = .identifier ∧ t.value ≠ "" ∧ ∃ token,
      t.spelling .upper .postgres 1 = .ok "\"a\"\"b\"" ∧
      lexEvents .postgres (.ofDialect .postgres) ["\"a\"\"", "b\""] = ([.token token], none) ∧
      token.value = "a\"b" ∧ token.isQuoted = true := by
  intro t
  have hvalue : t.value ≠ "" := by decide
  have hspelling : t.spelling .upper .postgres 1 = .ok "\"a\"\"b\"" := by decide +kernel
  obtain ⟨text, token, htext, hevents, -, hname, hquoted⟩ :=
    t.spelling_lexEvents .postgres .upper 1 rfl hvalue
  obtain rfl : "\"a\"\"b\"" = text := Except.ok.inj (hspelling.symm.trans htext)
  have hneeded : needsQuotes .postgres t.value = true := by decide +kernel
  exact ⟨rfl, hvalue, token, hspelling, hevents _ rfl, hname, hquoted.2 (.inr hneeded)⟩

end DualSql
