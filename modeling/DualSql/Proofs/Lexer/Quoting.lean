import Mathlib.Data.List.TakeWhile
import DualSql.Dialect.Quoting
import DualSql.Proofs.Lexer.Digest

/-! # Quoted text is read back

A literal in quotes is written character by character, and read back so: whatever
follows, what is written for a character stands for that character. So the quote that
ends the literal is the one written last, and no value can end it before.

Main definition: `Denotes`. Main results: `lexeme_quotedChars` and
`Scanner.quoteString_scanned`. -/

namespace DualSql

open Recogniser

/-! ### The bodies of quoted lexemes -/

/-- In the body of a quoted lexeme some characters stand for others, whatever
follows them. -/
def Denotes (ctx : LexContext) (quote : Char) (style : EscapeStyle) (what : Construct)
    (written value : List Char) : Prop :=
  ∀ closed rest, quotedBody ctx quote style what closed (written ++ rest) =
    ((quotedBody ctx quote style what closed rest).map (value ++ ·)).widen written.length

section

variable {ctx : LexContext} {quote : Char} {style : EscapeStyle} {what : Construct}

theorem denotes_nil : Denotes ctx quote style what [] [] := by
  intro closed rest
  cases h : quotedBody ctx quote style what closed rest with
  | more | fail => simp [h, Scan.map, Scan.widen]
  | done value width => simp [h, Scan.map, Scan.widen]

theorem Denotes.append {written written' value value' : List Char}
    (h : Denotes ctx quote style what written value)
    (h' : Denotes ctx quote style what written' value') :
    Denotes ctx quote style what (written ++ written') (value ++ value') := by
  intro closed rest
  rw [List.append_assoc, h, h']
  cases quotedBody ctx quote style what closed rest with
  | more | fail => rfl
  | done value width => simp [Scan.map, Scan.widen, Nat.add_assoc]

/-- Characters that are written one after the other. -/
theorem denotes_flatMap {write : Char → List Char}
    (h : ∀ c, Denotes ctx quote style what (write c) [c]) (value : List Char) :
    Denotes ctx quote style what (value.flatMap write) value := by
  induction value with
  | nil => exact denotes_nil
  | cons c rest ih => exact (h c).append ih

theorem denotes_self {c : Char} (hquote : c ≠ quote) (h : c ≠ '\\' ∨ style = .off) :
    Denotes ctx quote style what [c] [c] := by
  intro closed rest
  have hplain : ¬ (c = '\\' ∧ style ≠ .off) := by
    rintro ⟨hc, hs⟩
    exact h.elim (absurd hc) hs
  rw [List.singleton_append, quotedBody.eq_def]
  simp only [if_neg hquote, if_neg hplain]
  rfl

theorem denotes_doubled : Denotes ctx quote style what [quote, quote] [quote] := by
  intro closed rest
  rw [List.cons_append, List.singleton_append, quotedBody.eq_def]
  simp only [if_true]
  rfl

theorem denotes_mysql (hquote : '\\' ≠ quote) (letter : Char) :
    Denotes ctx quote .mysql what ['\\', letter] (mysqlEscape letter) := by
  intro closed rest
  have hstyle : EscapeStyle.mysql ≠ .off := by decide
  rw [List.cons_append, List.singleton_append, quotedBody.eq_def]
  simp only [if_neg hquote, ne_eq, hstyle, not_false_eq_true, and_self, if_true]
  rfl

theorem denotes_postgres (hquote : '\\' ≠ quote) {letter c : Char} {digits : List Char}
    (h : ∀ closed rest, postgresEscape ctx letter closed (digits ++ rest) = .done c digits.length) :
    Denotes ctx quote .postgres what ('\\' :: letter :: digits) [c] := by
  intro closed rest
  have hstyle : EscapeStyle.postgres ≠ .off := by decide
  have hother : EscapeStyle.postgres ≠ .mysql := by decide
  rw [List.cons_append, List.cons_append, quotedBody.eq_def]
  simp only [if_neg hquote, ne_eq, hstyle, hother, not_false_eq_true, and_self, if_true, if_false,
    h, List.drop_left, List.length_cons, Nat.add_comm 2]
  rfl

/-- The closing quote ends the body, unless another one follows it. -/
theorem quotedBody_closing {rest : List Char} (hrest : rest.head? ≠ some quote) :
    quotedBody ctx quote style what true (quote :: rest) = .done [] 1 := by
  rw [quotedBody.eq_def]
  simp only [if_true]
  cases rest with
  | nil => rfl
  | cons q rest =>
      have hne : q ≠ quote := fun heq => hrest (congrArg some heq)
      simp only [if_neg hne]

/-- What is read up to the closing quote. -/
theorem Denotes.body {written value rest : List Char}
    (h : Denotes ctx quote style what written value) (hrest : rest.head? ≠ some quote) :
    quotedBody ctx quote style what true (written ++ quote :: rest) =
      .done value (written.length + 1) := by
  rw [h, quotedBody_closing hrest]
  simp [Scan.map, Scan.widen]

end

variable {ctx : LexContext} {what : Construct}

/-! ### Written characters -/

theorem denotes_plainChar (c : Char) :
    Denotes ctx '\'' .off what (Dialect.plainChar c) [c] := by
  unfold Dialect.plainChar
  split
  next h => exact h ▸ denotes_doubled
  next h => exact denotes_self h (.inr rfl)

theorem denotes_identifierChar (d : Dialect) (c : Char) :
    Denotes ctx d.identifierQuote .off what (d.identifierChar c) [c] := by
  unfold Dialect.identifierChar
  split
  next h => exact h ▸ denotes_doubled
  next h => exact denotes_self h (.inr rfl)

theorem denotes_backslashedChar (c : Char) :
    Denotes ctx '\'' .mysql what (Dialect.backslashedChar c) [c] := by
  have hescape (letter : Char) : Denotes ctx '\'' .mysql what ['\\', letter] (mysqlEscape letter) :=
    denotes_mysql (by decide) letter
  unfold Dialect.backslashedChar
  split
  next h => exact h ▸ denotes_doubled
  next hquote =>
  split
  next h =>
    subst h
    exact hescape '\\'
  next hbackslash =>
  split
  next h => exact h ▸ hescape '0'
  split
  next h => exact h ▸ hescape 'n'
  split
  next h => exact h ▸ hescape 'r'
  split
  next h => exact h ▸ hescape 't'
  split
  next h => exact h ▸ hescape 'b'
  split
  next h => exact h ▸ hescape 'Z'
  next => exact denotes_self hquote (.inl hbackslash)

/-- The code of a control character is spelled by four digits, and read back from them. -/
theorem fourHexDigits_of_lt : ∀ code < 160, (Dialect.fourHexDigits code).length = 4 ∧
    (Dialect.fourHexDigits code).all isHexDigit = true ∧
    charOfCode? (numeral 16 (Dialect.fourHexDigits code)) = some (Char.ofNat code) := by
  decide +kernel

theorem takeUpTo_of_all {p : Char → Bool} {digits : List Char} (h : digits.all p = true)
    (closed : Bool) (rest : List Char) :
    takeUpTo digits.length p closed (digits ++ rest) = .done digits digits.length := by
  have hrun : ((digits ++ rest).take digits.length).takeWhile p = digits := by
    rw [List.take_left]
    exact List.takeWhile_eq_self_iff.2 (List.all_eq_true.1 h)
  unfold takeUpTo
  simp only [hrun, Nat.lt_irrefl, false_and, if_false]

theorem postgresEscape_code {c : Char} (h : Text.isControl c = true) (closed : Bool)
    (rest : List Char) :
    postgresEscape ctx 'u' closed (Dialect.fourHexDigits c.toNat ++ rest) =
      .done c (Dialect.fourHexDigits c.toNat).length := by
  have hlt : c.toNat < 160 := by
    simp only [Text.isControl, Bool.or_eq_true, Bool.and_eq_true, decide_eq_true_eq] at h
    omega
  -- From here on only these three facts about the digits matter.
  obtain ⟨hlength, hdigits, hcode⟩ := fourHexDigits_of_lt c.toNat hlt
  rw [Char.ofNat_toNat] at hcode
  generalize Dialect.fourHexDigits c.toNat = digits at hlength hdigits hcode ⊢
  have htake := takeUpTo_of_all hdigits closed rest
  rw [hlength] at htake
  have hnonempty : digits.isEmpty = false := by
    cases digits with
    | nil => cases hlength
    | cons => rfl
  change (takeUpTo 4 isHexDigit >>= fun more => _) closed (digits ++ rest) = _
  rw [bind_of_done htake]
  simp only [List.nil_append, hnonempty, hlength, hcode]
  rfl

theorem denotes_escapedChar (c : Char) :
    Denotes ctx '\'' .postgres what (Dialect.escapedChar c) [c] := by
  have hescape (letter c : Char)
      (h : ∀ closed rest, postgresEscape ctx letter closed rest = .done c 0) :
      Denotes ctx '\'' .postgres what ['\\', letter] [c] :=
    denotes_postgres (by decide) h
  unfold Dialect.escapedChar
  split
  next h => exact h ▸ hescape '\'' _ fun _ _ => rfl
  next hquote =>
  split
  next h =>
    subst h
    exact hescape '\\' _ fun _ _ => rfl
  next hbackslash =>
  split
  next h => exact h ▸ hescape 'n' _ fun _ _ => rfl
  split
  next h => exact h ▸ hescape 'r' _ fun _ _ => rfl
  split
  next h => exact h ▸ hescape 't' _ fun _ _ => rfl
  split
  next h => exact h ▸ hescape 'b' _ fun _ _ => rfl
  split
  next h => exact h ▸ hescape 'f' _ fun _ _ => rfl
  split
  next h => exact denotes_postgres (by decide) (postgresEscape_code h)
  next => exact denotes_self hquote (.inl hbackslash)

/-! ### Literals as lexemes -/

/-- The token of a string literal in single quotes. -/
def LexContext.literal (ctx : LexContext) (modifier : Option String) (value : List Char) : Token :=
  { ctx.token .stringLiteral value with delimiter := "'", modifier }

theorem stringLexeme_of_denotes {modifier : Option String} {written value rest : List Char}
    (h : Denotes ctx '\'' (ctx.escapes modifier) .stringLiteral written value)
    (hrest : rest.head? ≠ some '\'') :
    stringLexeme ctx '\'' modifier true (written ++ '\'' :: rest) =
      .done (.token (ctx.literal modifier value)) (written.length + 1) := by
  rw [stringLexeme, bind_of_done (h.body hrest)]
  rfl

/-- The letter that introduces a literal with escapes. -/
theorem lexeme_introducer (hd : ctx.dialect = .postgres) (text : List Char) :
    lexeme ctx 'E' true ('\'' :: text) =
      (stringLexeme ctx '\'' (some "E") true text).widen 1 := by
  obtain ⟨d, options, start, before⟩ := ctx
  cases hd
  change Scan.widen 0 (Scan.widen 0 (Scan.widen 1 (stringLexeme _ '\'' (some "E") true text))) = _
  cases stringLexeme ⟨.postgres, options, start, before⟩ '\'' (some "E") true text with
  | more => rfl
  | fail e => rfl
  | done t width => simp only [Scan.widen, Nat.zero_add]

/-- A literal with a given value is read as one token with that value, whatever follows
it but a further quote. -/
theorem exists_lexeme_quotedChars (ctx : LexContext) (hoptions : ctx.options = .ofDialect ctx.dialect)
    (value : List Char) :
    ∃ first more modifier, ctx.dialect.quotedChars value = first :: more ∧
      ∀ rest : List Char, rest.head? ≠ some '\'' → lexeme ctx first true (more ++ rest) =
        .done (.token (ctx.literal modifier value)) more.length := by
  have hquoted {modifier : Option String} {written rest : List Char}
      (h : Denotes ctx '\'' (ctx.escapes modifier) .stringLiteral written value)
      (hrest : rest.head? ≠ some '\'') :
      stringLexeme ctx '\'' modifier true ((written ++ ['\'']) ++ rest) =
        .done (.token (ctx.literal modifier value)) (written ++ ['\'']).length := by
    rw [List.append_assoc, List.singleton_append, stringLexeme_of_denotes h hrest,
      List.length_append, List.length_singleton]
  unfold Dialect.quotedChars
  -- Each form of a literal is read under the escapes that it is written with.
  cases hd : ctx.dialect with
  | postgres =>
      simp only
      split
      next =>
        refine ⟨'E', '\'' :: (value.flatMap Dialect.escapedChar ++ ['\'']), some "E", rfl, ?_⟩
        intro rest hrest
        have hstyle : ctx.escapes (some "E") = .postgres := rfl
        have hbody := hquoted (hstyle ▸ denotes_flatMap denotes_escapedChar value) hrest
        rw [List.cons_append, lexeme_introducer hd, hbody, List.length_cons, Nat.add_comm _ 1]
        rfl
      next =>
        have hstyle : ctx.escapes none = .off := by
          rw [LexContext.escapes, hoptions, hd]
          rfl
        refine ⟨_, _, none, rfl, fun rest hrest => ?_⟩
        exact hquoted (hstyle ▸ denotes_flatMap denotes_plainChar value) hrest
  | mysql =>
      have hstyle : ctx.escapes none = .mysql := by
        rw [LexContext.escapes, hoptions, hd]
        rfl
      refine ⟨_, _, none, rfl, fun rest hrest => ?_⟩
      exact hquoted (hstyle ▸ denotes_flatMap denotes_backslashedChar value) hrest

/-- A literal with a given value is read as one token with that value. -/
theorem lexeme_quotedChars (ctx : LexContext) (hoptions : ctx.options = .ofDialect ctx.dialect)
    (value : List Char) {rest : List Char} (hrest : rest.head? ≠ some '\'') :
    ∃ first more modifier, ctx.dialect.quotedChars value = first :: more ∧
      lexeme ctx first true (more ++ rest) =
        .done (.token (ctx.literal modifier value)) more.length := by
  obtain ⟨first, more, modifier, hchars, hlexeme⟩ :=
    exists_lexeme_quotedChars ctx hoptions value
  exact ⟨first, more, modifier, hchars, hlexeme rest hrest⟩

/-! ### Literals in a text -/

namespace Scanner

variable {s : Scanner}

theorem flush_of_words (h : s.words = []) : s.flush = s := by
  obtain ⟨d, options, unread, position, before, nesting, closed, finished, space, words, ready⟩ := s
  cases h
  simp only [flush, Phrase.settle, List.map_nil, List.append_nil]

theorem stage_of_content {t : Token} (h : t.kind.isTrivia = false) :
    s.stage t = s.stageContent t := by
  unfold stage
  split
  next hkind =>
    rw [hkind] at h
    cases h
  next hkind =>
    rw [hkind] at h
    cases h
  next => rfl

/-- A token that is no word is delivered at once if no words wait. -/
theorem stage_of_words {t : Token} (hwords : s.words = []) (htrivia : t.kind.isTrivia = false)
    (hword : Phrase.isWord { t with spaceBefore := s.spacePending } = false) :
    s.stage t = { s with
      spacePending := false
      ready := s.ready ++ [.token { t with spaceBefore := s.spacePending }] } := by
  have hflush : { s with spacePending := false }.flush = { s with spacePending := false } :=
    flush_of_words hwords
  rw [stage_of_content htrivia, stageContent]
  simp only [hword, deliver, hflush]
  rfl

/-- A scanner that is about to take in a lexeme that is one token and no word. -/
theorem next_of_token {c : Char} {text : List Char} {t : Token} {width : Nat}
    (hready : s.ready = []) (hfinished : s.finished = false) (hwords : s.words = [])
    (hunread : s.unread = c :: text)
    (hlexeme : lexeme s.context c s.closed text = .done (.token t) width)
    (htrivia : t.kind.isTrivia = false)
    (hword : Phrase.isWord { t with spaceBefore := s.spacePending } = false) :
    s.next = (.event (.token { t with spaceBefore := s.spacePending }),
      { s.skip c text width with spacePending := false }) := by
  rw [next_eq_of_unread hready hfinished hunread, hlexeme]
  simp only [accept, stage_of_words hwords htrivia hword, hready, List.nil_append]
  rw [next]
  simp [skip, pop, hready]

/-- What a text begins with that a scanner is given, in whichever pieces. -/
theorem heard_of_next {d : Dialect} {options : LexOptions} {calls : List Call} {t : Token}
    {s' : Scanner}
    (h : (completed { dialect := d, options } (fed calls)).next = (.event (.token t), s')) :
    heard { dialect := d, options } calls = .event (.token t) :: s'.drain := by
  rw [(heard_eq_of_whole d options calls).1]
  exact drain_of_event h

/-- A string literal cannot be escaped from: a text that begins with it begins with a
token that has its value and ends where it does, unless another quote follows. -/
theorem quoteString_scanned (d : Dialect) (value following : String)
    (h : following.toList.head? ≠ some '\'') :
    let written := d.quoteString value
    let s := completed { dialect := d, options := .ofDialect d } (written ++ following)
    ∃ t s', s.next = (.event (.token t), s') ∧ t.kind = .stringLiteral ∧ t.value = value ∧
      t.position = .start ∧ s'.unread = following.toList ∧
      s'.position = Position.start.advanceAll written.toList ∧
      ∀ calls, fed calls = written ++ following →
        heard { dialect := d, options := .ofDialect d } calls = .event (.token t) :: s'.drain := by
  intro written s
  obtain ⟨first, more, modifier, hquoted, hlexeme⟩ :=
    lexeme_quotedChars s.context rfl value.toList h
  have hwritten : written.toList = first :: more := by
    rw [← hquoted]
    exact String.toList_ofList
  have hunread : s.unread = first :: (more ++ following.toList) := by
    change [] ++ (written ++ following).toList = _
    rw [List.nil_append, String.toList_append, hwritten]
    rfl
  have hnext := next_of_token (s := s) rfl rfl rfl hunread hlexeme rfl rfl
  refine ⟨_, _, hnext, rfl, String.ofList_toList, rfl, ?_, ?_, ?_⟩
  · exact List.drop_left
  · change Position.advanceAll _ (first :: (more ++ following.toList).take more.length) = _
    rw [List.take_left, hwritten]
    rfl
  · intro calls hcalls
    exact heard_of_next (by rw [hcalls]; exact hnext)

/-- A value with a quote, a backslash and a line break, in front of a comment. -/
theorem quoteString_scanned_escaped :
    let written := Dialect.quoteString .postgres "it's \\\n"
    let s := completed { dialect := .postgres, options := .ofDialect .postgres } (written ++ "--'")
    "--'".toList.head? ≠ some '\'' ∧ written = "E'it\\'s \\\\\\n'" ∧
      ∃ t s', s.next = (.event (.token t), s') ∧ t.value = "it's \\\n" ∧
        s'.unread = "--'".toList := by
  intro written s
  have hfollowing : "--'".toList.head? ≠ some '\'' := by decide
  obtain ⟨t, s', hnext, -, hvalue, -, hunread, -⟩ :=
    quoteString_scanned .postgres "it's \\\n" "--'" hfollowing
  exact ⟨hfollowing, by decide +kernel, t, s', hnext, hvalue, hunread⟩

end Scanner

end DualSql
