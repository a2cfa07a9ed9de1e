import DualSql.Proofs.Lexer.Seams

/-! # The forms in which lexemes are written

Every lexeme that is written has one of a few forms, and each form says what must not
follow a lexeme directly for it to end where it is written to end.

Main definition: `Written`. Main result: `Written.takes`. -/

namespace DualSql

open Recogniser

/-- Whether a word can be written bare. -/
def isBareWord (word : List Char) : Bool :=
  word.head?.any isWordStart && word.all isWordChar

/-- Whether a text is a phrase: bare words with a blank between each two. -/
def isPhrase (text : List Char) : Bool :=
  (text.splitOn ' ').all isBareWord

/-- Whether no word goes on, and no quote follows. -/
def EndsWord (rest : List Char) : Prop :=
  ∀ c ∈ rest.head?, isWordChar c = false ∧ c ≠ '\''

/-- Whether a symbol stays what it is before a text. -/
def EndsSymbol (d : Dialect) (symbol : String) (rest : List Char) : Prop :=
  Vocabulary.longestSymbol d (symbol.toList ++ rest.takeWhile (Vocabulary.isOperatorChar d)) =
      some symbol ∧
    ∀ last ∈ symbol.toList.getLast?, ∀ c ∈ rest.head?, Writer.startsComment last c = false

/-- A lexeme as it is written, with what may follow it directly. -/
inductive Written (d : Dialect) : List Char → (List Char → Prop) → Prop
  | mark {c : Char} (h : c ∈ [',', ';']) : Written d [c] fun _ => True
  | opener (b : Bracket) : Written d [b.opener] fun _ => True
  | point : Written d ['.'] (Stops Char.isDigit)
  | symbol {s : String} (h : s ∈ Vocabulary.symbols d) : Written d s.toList (EndsSymbol d s)
  | dollar (h : d = .postgres) :
    Written d ['$'] (Stops fun c => c.isDigit || c == '$' || isWordStart c)
  | phrase {text : List Char} (h : isPhrase text = true) : Written d text EndsWord
  | name {name : List Char} (h : name ≠ []) :
    Written d (d.identifierQuote :: name.flatMap d.identifierChar ++ [d.identifierQuote])
      fun rest => rest.head? ≠ some d.identifierQuote
  | literal (value : String) {modifier : Option String}
    (h : ∀ m ∈ modifier, m = "E" ∨ m = "N" ∨ d = .mysql ∧ isCharset m.toList = true) :
    Written d (stringSpelling d value modifier).toList fun rest => rest.head? ≠ some '\''
  | number (number : Decimal) :
    Written d number.text (Stops (extendsNumber d number.text))
  | quotedDigits (base : Radix) {digits : List Char} (h : ∀ c ∈ digits, base.isDigit c = true) :
    Written d (base.marker :: '\'' :: (digits ++ ['\''])) fun rest => rest.head? ≠ some '\''
  | basedDigits (base : Radix) {digits : List Char} (hd : d = .mysql) (hsome : digits ≠ [])
    (h : ∀ c ∈ digits, base.isDigit c = true) :
    Written d ('0' :: base.letter :: digits) (Stops isWordChar)
  | numbered {digits : List Char} (hd : d = .postgres) (hsome : digits ≠ [])
    (h : ∀ c ∈ digits, c.isDigit = true) : Written d ('$' :: digits) (Stops Char.isDigit)
  | placeholder (hd : d = .mysql) : Written d ['?'] fun _ => True
  | bareVariable {marker : String} {name : List Char} (hd : d = .mysql)
    (hmarker : marker = "@" ∨ marker = "@@") (h : isBareVariable name = true) :
    Written d (marker.toList ++ name) (Stops isVariableChar)

/-! ### Each form is read up to its end -/

section Lexemes

variable {ctx : LexContext} {rest : List Char}

theorem lexeme_mark {c : Char} (h : c ∈ [',', ';']) (text : List Char) :
    lexeme ctx c true text = .done (ctx.plain .punctuation [c]) 0 := by
  obtain ⟨d, options, start, before⟩ := ctx
  simp only [List.mem_cons, List.not_mem_nil, or_false] at h
  rcases h with rfl | rfl <;> cases d <;> rfl

theorem lexeme_opener (b : Bracket) (text : List Char) :
    lexeme ctx b.opener true text = .done (.opening b) 0 := by
  obtain ⟨d, options, start, before⟩ := ctx
  cases b <;> cases d <;> rfl

theorem lexeme_bare_point (h : Stops Char.isDigit rest) :
    lexeme ctx '.' true rest = .done (ctx.plain .punctuation ['.']) 0 := by
  have hlexeme : lexeme ctx '.' = dotStartsNumber ctx >>= fun starts =>
      if starts then numberLexeme ctx '.' else ordinaryLexeme ctx '.' := by
    obtain ⟨d, options, start, before⟩ := ctx
    cases d <;> rfl
  have hordinary : ordinaryLexeme ctx '.' true rest = .done (ctx.plain .punctuation ['.']) 0 := by
    obtain ⟨d, options, start, before⟩ := ctx
    cases d <;> rfl
  have hdigit : rest.head?.any Char.isDigit = false := by
    cases rest with
    | nil => rfl
    | cons c rest => exact h c rfl
  have hstarts := dotStartsNumber_closed ctx rest
  rw [hdigit, Bool.and_false] at hstarts
  rw [hlexeme, bind_of_done hstarts, List.drop_zero, Scan.widen_zero]
  exact hordinary

/-- A character of symbols starts one, unless it starts a comment. -/
theorem lexeme_operatorChar {c : Char} (hc : c ∈ Vocabulary.operatorChars ctx.dialect)
    {text : List Char} (hminus : c = '-' → text.head? ≠ some '-')
    (hslash : c = '/' → text.head? ≠ some '*') :
    lexeme ctx c true text = operatorLexeme ctx c true text := by
  obtain ⟨d, options, start, before⟩ := ctx
  have hlook (p q : Recogniser Lexeme) {sign : Char} (h : text.head? ≠ some sign) :
      (look 0 >>= fun next => if next = some sign then p else q) true text = q true text := by
    rw [look_bind, if_neg h]
  by_cases hm : c = '-'
  · subst hm
    refine (hlook _ _ (hminus rfl)).trans ?_
    cases d <;> rfl
  by_cases hs : c = '/'
  · subst hs
    refine (hlook _ _ (hslash rfl)).trans ?_
    cases d <;> rfl
  cases d with
  | postgres =>
      have hcases : c ∈ ['+', '-', '*', '/', '<', '>', '=', '~', '!', '@', '#', '%', '^', '&', '|',
          ':'] := hc
      simp only [List.mem_cons, List.not_mem_nil, or_false] at hcases
      rcases hcases with rfl | h | rfl | h | rfl | rfl | rfl | rfl | rfl | rfl | rfl | rfl | rfl |
        rfl | rfl | rfl
      all_goals first | rfl | exact absurd h hm | exact absurd h hs
  | mysql =>
      have hcases : c ∈ ['+', '-', '*', '/', '<', '>', '=', '~', '!', '%', '^', '&', '|', ':'] := hc
      simp only [List.mem_cons, List.not_mem_nil, or_false] at hcases
      rcases hcases with rfl | h | rfl | h | rfl | rfl | rfl | rfl | rfl | rfl | rfl | rfl | rfl |
        rfl
      all_goals first | rfl | exact absurd h hm | exact absurd h hs

/-- What the tables say of the characters of symbols. -/
theorem symbol_chars (d : Dialect) {s : String} (h : s ∈ Vocabulary.symbols d) :
    s.toList ≠ [] ∧ (∀ c ∈ s.toList, Vocabulary.isOperatorChar d c = true) ∧
      ¬['-', '-'].isPrefixOf s.toList = true ∧ ¬['/', '*'].isPrefixOf s.toList = true := by
  have hall : ∀ s ∈ Vocabulary.symbols d, s.toList ≠ [] ∧
      s.toList.all (Vocabulary.isOperatorChar d) = true ∧
      ¬['-', '-'].isPrefixOf s.toList = true ∧ ¬['/', '*'].isPrefixOf s.toList = true := by
    cases d <;> decide +kernel
  obtain ⟨hsome, hop, hcomments⟩ := hall s h
  exact ⟨hsome, List.all_eq_true.1 hop, hcomments⟩

/-- Every symbol is the longest one that it begins with. -/
theorem Vocabulary.longestSymbol_of_mem {d : Dialect} {s : String} (h : s ∈ symbols d) :
    longestSymbol d s.toList = some s := by
  have hall : ∀ s ∈ symbols d, longestSymbol d s.toList = some s := by
    cases d <;> decide +kernel
  exact hall s h

/-- A symbol that stays what it is before a text is read as it is. -/
theorem lexeme_symbol {s : String} (hs : s ∈ Vocabulary.symbols ctx.dialect)
    {c : Char} {more : List Char} (hchars : s.toList = c :: more)
    (h : EndsSymbol ctx.dialect s rest) :
    lexeme ctx c true (more ++ rest) =
      .done (.token { ctx.token .operator s.toList with
        operator := Vocabulary.operator? ctx.dialect s }) more.length := by
  obtain ⟨-, hop, hdashes, hcomment⟩ := symbol_chars ctx.dialect hs
  obtain ⟨hlongest, hopens⟩ := h
  rw [hchars] at hop hdashes hcomment hlongest hopens ⊢
  obtain ⟨hc, hmore⟩ := List.forall_mem_cons.1 hop
  -- A comment would begin inside the symbol or at its end.
  have hstart (second : Char) (hin : ¬[c, second].isPrefixOf (c :: more) = true)
      (hend : Writer.startsComment c second = true) : (more ++ rest).head? ≠ some second := by
    cases more with
    | nil =>
        intro hhead
        rw [hopens c rfl second hhead] at hend
        cases hend
    | cons e more =>
        rintro ⟨⟩
        exact hin (by simp)
  have hlexeme : lexeme ctx c true (more ++ rest) = operatorLexeme ctx c true (more ++ rest) :=
    lexeme_operatorChar (List.contains_iff_mem.1 hc)
      (fun hm => hstart '-' (hm ▸ hdashes) (by rw [hm]; rfl))
      (fun hm => hstart '*' (hm ▸ hcomment) (by rw [hm]; rfl))
  have hrun : ahead (takeWhile (Vocabulary.isOperatorChar ctx.dialect)) true (more ++ rest) =
      .done (more ++ rest.takeWhile (Vocabulary.isOperatorChar ctx.dialect)) 0 := by
    rw [ahead, takeWhile_closed, List.takeWhile_append_of_pos hmore]
  have hlength : s.length - 1 = more.length := by
    rw [← String.length_toList, hchars]
    rfl
  have htake : take more.length true (more ++ rest) = .done more more.length := by
    rw [take, if_pos (by simp), List.take_left]
  rw [List.cons_append] at hlongest
  rw [hlexeme, operatorLexeme, bind_of_done hrun, List.drop_zero, Scan.widen_zero, hlongest]
  simp only [hlength]
  rw [bind_of_done htake]
  rfl

theorem lexeme_dollar (hd : ctx.dialect = .postgres)
    (h : Stops (fun c => c.isDigit || c == '$' || isWordStart c) rest) :
    lexeme ctx '$' true rest = .done (ctx.plain .operator ['$']) 0 := by
  obtain ⟨d, options, start, before⟩ := ctx
  cases hd
  change dollarLexeme _ true rest = _
  rw [dollarLexeme, look_bind]
  cases rest with
  | nil => rfl
  | cons c rest =>
      have hc := h c rfl
      simp only [Bool.or_eq_false_iff] at hc
      obtain ⟨⟨hdigit, hdollar⟩, hstart⟩ := hc
      have hne : c ≠ '$' := by simpa using hdollar
      simp only [List.head?_cons, hdigit, hne, hstart, Bool.false_eq_true, if_false]
      rfl

theorem lexeme_placeholder (hd : ctx.dialect = .mysql) (text : List Char) :
    lexeme ctx '?' true text = .done (ctx.plain .bindVariable ['?']) 0 := by
  obtain ⟨d, options, start, before⟩ := ctx
  cases hd
  rfl

/-- A word directly before a quote introduces a literal. -/
theorem lexeme_introduced {first : Char} {word : List Char} (hfirst : isWordStart first = true)
    (hword : ∀ c ∈ word, isWordChar c = true) {literal : Recogniser Lexeme}
    (hliteral : introducedLiteral? ctx (first :: word) = some (take 1 >>= fun _ => literal))
    (text : List Char) :
    lexeme ctx first true (word ++ '\'' :: text) = (literal true text).widen (word.length + 1) := by
  have hstops : Stops isWordChar ('\'' :: text) := by
    rintro c ⟨⟩
    decide
  rw [lexeme_wordStart hfirst, wordLexeme, takeWhile_bind, hstops.takeWhile_append hword,
    hstops.dropWhile_append hword, look_bind, List.head?_cons, if_pos rfl, hliteral]
  dsimp only
  rw [take_bind (by simp), List.drop_succ_cons, List.drop_zero]
  cases literal true text with
  | more | fail => rfl
  | done lx n => simp only [Scan.widen, Nat.add_assoc]

/-- A character inside a literal that was introduced as one with escapes. -/
theorem denotes_sourceChar {what : Construct} (c : Char) :
    Denotes ctx '\'' .postgres what (sourceChar c) [c] := by
  have hescape (letter : Char)
      (h : ∀ closed rest, postgresEscape ctx letter closed rest = .done letter 0) :
      Denotes ctx '\'' .postgres what ['\\', letter] [letter] :=
    denotes_postgres (by decide) h
  unfold sourceChar
  split
  next h => exact h ▸ hescape '\\' fun _ _ => rfl
  next hslash =>
    split
    next h => exact h ▸ hescape '\'' fun _ _ => rfl
    next h => exact denotes_self h (.inl hslash)

/-- What stands between the quotes of a plain literal denotes its value, whichever word
introduces it. -/
theorem exists_denotes_plain (hoptions : ctx.options = .ofDialect ctx.dialect) {value : List Char}
    (h : (ctx.dialect.quotedChars value).head? = some '\'') :
    ∃ written, ctx.dialect.quotedChars value = '\'' :: (written ++ ['\'']) ∧
      ∀ modifier ≠ some "E",
        Denotes ctx '\'' (ctx.escapes modifier) .stringLiteral written value := by
  have hescapes (modifier : Option String) (hne : modifier ≠ some "E") :
      ctx.escapes modifier = if ctx.dialect = .mysql then .mysql else .off := by
    rw [LexContext.escapes, if_neg hne, hoptions]
    cases ctx.dialect <;> rfl
  unfold Dialect.quotedChars at h ⊢
  cases hd : ctx.dialect with
  | postgres =>
      simp only [hd] at h ⊢
      split at h
      next => cases h
      next hplain =>
        rw [if_neg hplain]
        refine ⟨_, rfl, fun modifier hne => ?_⟩
        rw [hescapes modifier hne, hd]
        exact denotes_flatMap denotes_plainChar value
  | mysql =>
      refine ⟨_, rfl, fun modifier hne => ?_⟩
      rw [hescapes modifier hne, hd]
      exact denotes_flatMap denotes_backslashedChar value

/-- The name of a character set is a word behind an underscore. -/
theorem exists_word_of_isCharset {name : List Char} (h : isCharset name = true) :
    ∃ word, name = '_' :: word ∧ word ≠ [] ∧ ∀ c ∈ word, isWordChar c = true := by
  simp only [isCharset, Bool.and_eq_true, beq_iff_eq, decide_eq_true_eq, List.all_eq_true] at h
  obtain ⟨⟨hhead, hlength⟩, hchars⟩ := h
  obtain ⟨word, rfl⟩ := List.head?_eq_some_iff.1 hhead
  refine ⟨word, rfl, ?_, fun c hc => hchars c (List.mem_cons_of_mem _ hc)⟩
  rintro rfl
  exact absurd hlength (by decide)

theorem introducedLiteral_national :
    introducedLiteral? ctx ['N'] =
      some (take 1 >>= fun _ => stringLexeme ctx '\'' (some "N")) := by
  obtain ⟨d, options, start, before⟩ := ctx
  cases d <;> rfl

theorem introducedLiteral_escaped (hd : ctx.dialect = .postgres) :
    introducedLiteral? ctx ['E'] =
      some (take 1 >>= fun _ => stringLexeme ctx '\'' (some "E")) := by
  obtain ⟨d, options, start, before⟩ := ctx
  cases hd
  rfl

theorem introducedLiteral_charset (hd : ctx.dialect = .mysql) {word : List Char}
    (hsome : word ≠ []) :
    introducedLiteral? ctx ('_' :: word) =
      some (take 1 >>= fun _ => stringLexeme ctx '\'' (some (String.ofList ('_' :: word)))) := by
  have hupper (letter : Char) (hletter : letter ≠ '_') :
      List.map Char.toUpper ('_' :: word) ≠ [letter] := by
    intro heq
    obtain ⟨hhead, -⟩ := List.cons.inj heq
    exact hletter (hhead.symm.trans (by decide))
  have hlength : 1 < ('_' :: word).length := by
    rw [List.length_cons]
    exact Nat.succ_lt_succ (List.length_pos_iff.2 hsome)
  unfold introducedLiteral?
  simp only [hupper _ (by decide : 'E' ≠ '_'), hupper _ (by decide : 'N' ≠ '_'),
    hupper _ (by decide : 'X' ≠ '_'), hupper _ (by decide : 'B' ≠ '_'), false_and, if_false, hd,
    hlength, List.head?_cons, and_self, if_true]

/-- Whether a text is read as a string literal with a value if no quote follows. -/
def IsLiteral (ctx : LexContext) (value text : List Char) : Prop :=
  ∃ first more modifier, text = first :: more ∧ ∀ rest : List Char, rest.head? ≠ some '\'' →
    lexeme ctx first true (more ++ rest) =
      .done (.token (ctx.literal modifier value)) more.length

/-- A word that announces a literal and the literal in quotes are one token. -/
theorem isLiteral_introduced {first : Char} {word written value : List Char} {m : String}
    (hfirst : isWordStart first = true) (hword : ∀ c ∈ word, isWordChar c = true)
    (hliteral : introducedLiteral? ctx (first :: word) =
      some (take 1 >>= fun _ => stringLexeme ctx '\'' (some m)))
    (hdenotes : Denotes ctx '\'' (ctx.escapes (some m)) .stringLiteral written value) :
    IsLiteral ctx value (first :: word ++ '\'' :: (written ++ ['\''])) := by
  refine ⟨first, word ++ '\'' :: (written ++ ['\'']), some m, rfl, fun rest hrest => ?_⟩
  rw [List.append_assoc, List.cons_append, List.append_assoc, List.singleton_append,
    lexeme_introduced hfirst hword hliteral, stringLexeme_of_denotes hdenotes hrest]
  simp only [Scan.widen, List.length_append, List.length_cons, List.length_nil]
  congr 1
  omega

/-- A plain literal behind a word that announces one whose escapes are the plain ones. -/
theorem isLiteral_plain (hoptions : ctx.options = .ofDialect ctx.dialect) {value word : List Char}
    {first : Char} {m : String} (hfirst : isWordStart first = true)
    (hword : ∀ c ∈ word, isWordChar c = true)
    (hliteral : introducedLiteral? ctx (first :: word) =
      some (take 1 >>= fun _ => stringLexeme ctx '\'' (some m)))
    (hquote : (ctx.dialect.quotedChars value).head? = some '\'') (hm : some m ≠ some "E") :
    IsLiteral ctx value (first :: word ++ ctx.dialect.quotedChars value) := by
  obtain ⟨written, hwritten, hdenotes⟩ := exists_denotes_plain hoptions hquote
  rw [hwritten]
  exact isLiteral_introduced hfirst hword hliteral (hdenotes (some m) hm)

/-- A string literal is read up to its end, whichever word introduces it. -/
theorem isLiteral_stringSpelling (hoptions : ctx.options = .ofDialect ctx.dialect) (value : String)
    {modifier : Option String}
    (h : ∀ m ∈ modifier, m = "E" ∨ m = "N" ∨ ctx.dialect = .mysql ∧ isCharset m.toList = true) :
    IsLiteral ctx value.toList (stringSpelling ctx.dialect value modifier).toList := by
  have hbody : (ctx.dialect.quoteString value).toList = ctx.dialect.quotedChars value.toList :=
    String.toList_ofList
  have hplain : IsLiteral ctx value.toList (ctx.dialect.quoteString value).toList := by
    obtain ⟨first, more, modifier', hchars, hlexeme⟩ :=
      exists_lexeme_quotedChars ctx hoptions value.toList
    exact ⟨first, more, _, hbody.trans hchars, hlexeme⟩
  unfold stringSpelling
  cases modifier with
  | none => exact hplain
  | some m =>
      dsimp only
      split
      next hnational =>
        obtain ⟨rfl, hquote⟩ := hnational
        rw [hbody] at hquote
        rw [String.toList_append, hbody]
        exact isLiteral_plain hoptions (by decide) (List.forall_mem_nil _) introducedLiteral_national
          hquote (by decide)
      next =>
      split
      next hcharset =>
        obtain ⟨hd, hfirst⟩ := hcharset
        have hset : isCharset m.toList = true := by
          obtain rfl | rfl | ⟨-, hset⟩ := h m rfl
          · cases hfirst
          · cases hfirst
          · exact hset
        obtain ⟨word, hm, hsome, hword⟩ := exists_word_of_isCharset hset
        obtain rfl : m = String.ofList ('_' :: word) := by rw [← hm, String.ofList_toList]
        have hquote : (ctx.dialect.quotedChars value.toList).head? = some '\'' := by
          rw [hd]
          rfl
        rw [String.toList_append, hbody, hm]
        refine isLiteral_plain hoptions (by decide) hword (introducedLiteral_charset hd hsome)
          hquote ?_
        intro hescaped
        rw [Option.some.inj hescaped] at hm
        cases hm
      next =>
      split
      next hescapes =>
        obtain ⟨hd, rfl, -⟩ := hescapes
        have hstyle : ctx.escapes (some "E") = .postgres := rfl
        have htext : ("E'" ++ String.ofList (value.toList.flatMap sourceChar) ++ "'").toList =
            ['E'] ++ '\'' :: (value.toList.flatMap sourceChar ++ ['\'']) := by
          simp [String.toList_append]
        rw [htext]
        exact isLiteral_introduced (by decide) (List.forall_mem_nil _) (introducedLiteral_escaped hd)
          (hstyle ▸ denotes_flatMap denotes_sourceChar value.toList)
      next => exact hplain

end Lexemes

/-! ### Scanners take each form -/

namespace Scanner

variable {s : Scanner} {ok : List Char → Prop}

/-- Every lexeme but a closing bracket is accepted anywhere. -/
theorem exists_accept (s : Scanner) (place : Position) {lx : Lexeme}
    (h : ∀ b, lx ≠ .closing b) : ∃ s', s.accept place lx = .ok s' := by
  cases lx with
  | token t => exact ⟨_, rfl⟩
  | opening b => exact ⟨_, rfl⟩
  | closing b => exact absurd rfl (h b)

theorem exists_takes {c : Char} {more : List Char} {lx : Lexeme} (h : ∀ b, lx ≠ .closing b)
    (hlexeme : ∀ rest, ok rest → lexeme s.context c true (more ++ rest) = .done lx more.length) :
    ∃ s', s.Takes (c :: more) ok s' := by
  obtain ⟨s', haccept⟩ := s.exists_accept s.position h
  exact ⟨_, takes_lexeme hlexeme haccept⟩

theorem exists_takes_word {word : List Char} (h : isBareWord word = true) :
    ∃ s', s.Takes word EndsWord s' := by
  cases word with
  | nil => cases h
  | cons first word =>
      simp only [isBareWord, List.head?_cons, Option.any_some, List.all_cons, Bool.and_eq_true,
        List.all_eq_true] at h
      obtain ⟨hfirst, -, hword⟩ := h
      have hlexeme (rest : List Char) (hrest : EndsWord rest) :
          lexeme s.context first true (word ++ rest) =
            .done (bareWord s.context (first :: word)) word.length :=
        lexeme_word hfirst hword hrest
      refine exists_takes ?_ hlexeme
      intro b hb
      unfold bareWord at hb
      dsimp only at hb
      split at hb <;> cases hb

theorem exists_intercalate_cons (first : List Char) (words : List (List Char)) :
    ∃ more, [' '].intercalate (first :: words) = first ++ more := by
  cases words with
  | nil => exact ⟨[], by simp⟩
  | cons next words => exact ⟨_, by rw [List.intercalate_cons_cons, List.append_assoc]⟩

/-- A bare word begins with no blank. -/
theorem stops_word {word : List Char} (h : isBareWord word = true) (rest : List Char) :
    Stops Text.isBlank (word ++ rest) := by
  cases word with
  | nil => cases h
  | cons first word =>
      rintro c ⟨⟩
      have hfirst : isWordStart first = true := (Bool.and_eq_true_iff.1 h).1
      exact Bool.eq_false_iff.2 (isWordStart_cases hfirst).1

/-- The words of a phrase are taken one after the other, with the blanks between them. -/
theorem exists_takes_words (words : List (List Char)) (hsome : words ≠ [])
    (h : ∀ word ∈ words, isBareWord word = true) (hs : s.options.emitWhitespace = false) :
    ∃ s', s.Takes ([' '].intercalate words) EndsWord s' := by
  induction words generalizing s with
  | nil => exact absurd rfl hsome
  | cons word words ih =>
      obtain ⟨hword, hwords⟩ := List.forall_mem_cons.1 h
      obtain ⟨s₁, htakes⟩ := exists_takes_word (s := s) hword
      cases words with
      | nil => exact ⟨s₁, by simpa using htakes⟩
      | cons next words =>
          have hs₁ : s₁.options.emitWhitespace = false := by rw [htakes.options, hs]
          obtain ⟨s₂, hblank, -⟩ := takes_blank hs₁
          have hs₂ : s₂.options.emitWhitespace = false := by rw [hblank.options, hs₁]
          obtain ⟨s₃, hrest⟩ := ih (List.cons_ne_nil _ _) hwords hs₂
          obtain ⟨more, hmore⟩ := exists_intercalate_cons next words
          have hnext : isBareWord next = true := hwords next List.mem_cons_self
          have hends (rest : List Char) : EndsWord ([' '] ++ rest) := by
            rintro c ⟨⟩
            decide
          have hstops (rest : List Char) :
              Stops Text.isBlank ([' '].intercalate (next :: words) ++ rest) := by
            rw [hmore, List.append_assoc]
            exact stops_word hnext _
          have hsome : [' '].intercalate (next :: words) ≠ [] := by
            intro hnil
            rw [hmore] at hnil
            rw [(List.append_eq_nil_iff.1 hnil).1] at hnext
            cases hnext
          refine ⟨s₃, ?_⟩
          rw [List.intercalate_cons_cons]
          exact (htakes.append hblank (fun rest _ => hends rest) (List.cons_ne_nil _ _)).append hrest
            (fun rest _ => hstops rest) hsome

/-- A phrase is taken word by word. -/
theorem exists_takes_phrase {text : List Char} (h : isPhrase text = true)
    (hs : s.options.emitWhitespace = false) : ∃ s', s.Takes text EndsWord s' := by
  have htakes := exists_takes_words (text.splitOn ' ') (List.splitOn_ne_nil ' ' text)
    (List.all_eq_true.1 h) hs
  rwa [List.intercalate_splitOn] at htakes

end Scanner

/-- Whatever is written in one of the forms is taken up to its end. -/
theorem Written.takes {d : Dialect} {chars : List Char} {ok : List Char → Prop}
    (h : Written d chars ok) : ∃ s, (Scanner.start d).Takes chars ok s := by
  have token {c : Char} {more : List Char} {t : Token} {ok : List Char → Prop}
      (hlexeme : ∀ rest, ok rest → lexeme (Scanner.start d).context c true (more ++ rest) =
        .done (.token t) more.length) : ∃ s, (Scanner.start d).Takes (c :: more) ok s :=
    Scanner.exists_takes (fun b hb => by cases hb) hlexeme
  cases h with
  | mark h => exact token fun rest _ => lexeme_mark h rest
  | opener b => exact Scanner.exists_takes (fun b hb => by cases hb) fun rest _ => lexeme_opener b rest
  | point => exact token fun rest hrest => lexeme_bare_point hrest
  | @symbol s h =>
      obtain ⟨c, more, hchars⟩ := List.exists_cons_of_ne_nil (symbol_chars d h).1
      have hlexeme (rest : List Char) (hrest : EndsSymbol d s rest) :
          lexeme (Scanner.start d).context c true (more ++ rest) = _ :=
        lexeme_symbol h hchars hrest
      rw [hchars]
      exact token hlexeme
  | dollar hd => exact token fun rest hrest => lexeme_dollar hd hrest
  | phrase h => exact Scanner.exists_takes_phrase h rfl
  | name h => exact token fun rest hrest => lexeme_quotedName h hrest
  | @literal value modifier h =>
      obtain ⟨first, more, mark, hchars, hlexeme⟩ :=
        @isLiteral_stringSpelling (Scanner.start d).context rfl value modifier h
      change (stringSpelling d value modifier).toList = _ at hchars
      rw [hchars]
      exact token hlexeme
  | number number =>
      obtain ⟨first, more, hchars⟩ := List.exists_cons_of_ne_nil number.text_ne_nil
      rw [hchars]
      exact token fun rest hrest => lexeme_decimal hchars (by rwa [hchars]) rfl
  | @quotedDigits base digits h =>
      let t : Token := { (Scanner.start d).context.token base.kind digits with
        delimiter := "'", modifier := base.quotedMark }
      refine token (t := t) fun rest hrest => ?_
      have hlength : ('\'' :: (digits ++ ['\''])).length = digits.length + 2 := by simp
      rw [hlength, List.cons_append, List.append_assoc]
      exact lexeme_quotedDigits base h hrest
  | basedDigits base hd hsome h =>
      exact token fun rest hrest => lexeme_basedDigits base hd hsome h hrest
  | numbered hd hsome h => exact token fun rest hrest => lexeme_numbered hd hsome h hrest
  | placeholder hd => exact token fun rest _ => lexeme_placeholder hd rest
  | @bareVariable marker name hd hmarker h =>
      obtain ⟨more, hmore⟩ : ∃ more, marker.toList = '@' :: more := by
        rcases hmarker with rfl | rfl <;> exact ⟨_, rfl⟩
      let t : Token := { (Scanner.start d).context.token .variable name with modifier := marker }
      rw [hmore, List.cons_append]
      refine token (t := t) fun rest hrest => ?_
      obtain ⟨more', hmore', hlexeme⟩ :=
        @lexeme_variable (Scanner.start d).context rest hd name marker hmarker h hrest
      obtain rfl : more = more' := (List.cons.inj (hmore.symm.trans hmore')).2
      rw [List.append_assoc]
      exact hlexeme

end DualSql
