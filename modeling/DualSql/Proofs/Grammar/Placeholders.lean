import DualSql.Proofs.Grammar.Gathering
import DualSql.Proofs.Grammar.OnePass
import DualSql.Proofs.Grammar.Reaching
import DualSql.Proofs.Grammar.Unparsing

/-! # Placeholders keep their parameters

A placeholder stands for the parameter with its number, or with its place if it
has no number. A dialect that numbers its placeholders writes the number; the
other one writes none, so that it can write only placeholders that stand in the
order of their numbers, one for each. Either way what is written stands for the
parameters that the text had: the placeholders of a text all come to its tree,
and the count of them is right wherever one is written.

Main definitions: `Terminal.placeholders`, `Terminal.parameters` and
`Tree.WrittenAs`. Main results: `Mark.filter_isBind`, `Mark.outOfOrder` and
`Tree.placeholders_kept`. -/

namespace DualSql

namespace Terminal

/-- Whether a terminal is a placeholder. -/
def isPlaceholder (t : Terminal) : Bool :=
  t.kind == .bindVariable

/-- The number that a placeholder is written with. -/
def number (t : Terminal) : Nat :=
  Text.ofDigits t.value.toList

/-- The placeholders among terminals. -/
def placeholders (ts : List Terminal) : List Terminal :=
  ts.filter isPlaceholder

/-- The parameters that placeholders stand for behind some others. -/
def parameters (binds : Nat) : List Terminal → List Nat
  | [] => []
  | t :: rest => (Text.word64? t.value).getD (binds + 1) :: parameters (binds + 1) rest

variable {t : Terminal} {ts : List Terminal} {binds : Nat}

theorem kind_of_isPlaceholder (h : t.isPlaceholder = true) : t.kind = .bindVariable :=
  beq_iff_eq.1 h

/-- Placeholders without numbers stand for the parameters one after the other. -/
theorem parameters_of_unnumbered (h : ∀ t ∈ ts, Text.word64? t.value = none) :
    parameters binds ts = List.range' (binds + 1) ts.length := by
  induction ts generalizing binds with
  | nil => rfl
  | cons t ts ih =>
      obtain ⟨ht, hrest⟩ := List.forall_mem_cons.1 h
      rw [parameters, ht, ih hrest, List.length_cons, List.range'_succ]
      rfl

/-- Placeholders with numbers stand for the parameters with these numbers. -/
theorem parameters_of_numbered (h : ∀ t ∈ ts, Text.word64? t.value = some t.number) :
    parameters binds ts = ts.map number := by
  induction ts generalizing binds with
  | nil => rfl
  | cons t ts ih =>
      obtain ⟨ht, hrest⟩ := List.forall_mem_cons.1 h
      rw [parameters, ht, ih hrest]
      rfl

/-- How far the placeholders among terminals are counted. -/
theorem foldl_count (binds : Nat) (ts : List Terminal) :
    ts.foldl Mark.count binds = binds + (placeholders ts).length := by
  induction ts generalizing binds with
  | nil => rfl
  | cons t ts ih =>
      rw [List.foldl_cons, ih, placeholders, placeholders, List.filter_cons, Mark.count,
        isPlaceholder]
      by_cases hkind : t.kind = .bindVariable
      · simp only [hkind, if_true, beq_self_eq_true, List.length_cons]
        omega
      · simp [hkind]

end Terminal

open Terminal

/-! ### What is spelled -/

namespace Mark

variable {c : KeywordCase} {d : Dialect} {binds : Nat} {marks : List Mark} {lexemes : List String}

/-- Marks of which the words and what is spelled for terminals are no placeholders,
but for the placeholders themselves. -/
structure Unmistakable (c : KeywordCase) (d : Dialect) (marks : List Mark) : Prop where
  words : ∀ text, .word text ∈ marks → d.isBind text = false
  terminals : ∀ t ∈ Mark.terminals marks, t.isPlaceholder = false →
    ∀ position text, t.spelling c d position = .ok text → d.isBind text = false

theorem spelling_of_isPlaceholder {t : Terminal} (h : t.isPlaceholder = true) (c : KeywordCase)
    (d : Dialect) (position : Nat) : t.spelling c d position = bindSpelling d position t.value := by
  rw [Terminal.spelling, kind_of_isPlaceholder h]

theorem count_of_isPlaceholder {t : Terminal} (h : t.isPlaceholder = true) (binds : Nat) :
    count binds t = binds + 1 :=
  if_pos (kind_of_isPlaceholder h)

theorem count_of_not_isPlaceholder {t : Terminal} (h : t.isPlaceholder = false) (binds : Nat) :
    count binds t = binds :=
  if_neg (by simpa [isPlaceholder] using h)

/-- A placeholder is written for its parameter, which is that of its place where
placeholders are not numbered. -/
theorem bindSpelling_eq_ok {position : Nat} {value text : String}
    (h : bindSpelling d position value = .ok text) :
    text = d.bindVariable ((Text.word64? value).getD position) ∧
      (d.numberedBinds = false → (Text.word64? value).getD position = position) := by
  unfold bindSpelling at h
  dsimp only at h
  split at h
  next => cases h
  next hplaced =>
    refine ⟨(Except.ok.inj h).symm, fun hd => ?_⟩
    simpa [hd] using hplaced

/-- A placeholder that is not written stands for another parameter than that of its place. -/
theorem bindSpelling_eq_error {position : Nat} {value : String} {e : RenderError}
    (h : bindSpelling d position value = .error e) :
    e = .bindOrder ((Text.word64? value).getD position) position d ∧
      (Text.word64? value).getD position ≠ position := by
  unfold bindSpelling at h
  dsimp only at h
  split at h
  next hplaced =>
    have hne := (Bool.and_eq_true_iff.1 hplaced).2
    exact ⟨(Except.error.inj h).symm, by simpa using hne⟩
  next => cases h

/-- The lexemes that are placeholders are those of the parameters that the
placeholders among the terminals stand for. -/
theorem filter_isBind (h : Unmistakable c d marks) (hspell : spell c d binds marks = .ok lexemes) :
    lexemes.filter d.isBind =
      (parameters binds (placeholders (terminals marks))).map d.bindVariable := by
  induction marks generalizing binds lexemes with
  | nil =>
      cases hspell
      rfl
  | cons mark marks ih =>
      cases mark with
      | word text =>
          obtain ⟨rest, hrest, rfl⟩ := spell_word_eq_ok.1 hspell
          have hmarks : Unmistakable c d marks :=
            ⟨fun text htext => h.words text (List.mem_cons_of_mem _ htext), h.terminals⟩
          rw [List.filter_cons_of_neg (by simp [h.words text (List.mem_cons_self ..)])]
          exact ih hmarks hrest
      | terminal t =>
          obtain ⟨text, rest, htext, hrest, rfl⟩ := spell_terminal_eq_ok.1 hspell
          have hmarks : Unmistakable c d marks :=
            ⟨fun text htext => h.words text (List.mem_cons_of_mem _ htext),
              fun t ht => h.terminals t (List.mem_cons_of_mem _ ht)⟩
          rw [terminals, placeholders]
          cases hkind : t.isPlaceholder with
          | true =>
              rw [spelling_of_isPlaceholder hkind, count_of_isPlaceholder hkind] at htext
              rw [count_of_isPlaceholder hkind] at hrest
              obtain ⟨rfl, -⟩ := bindSpelling_eq_ok htext
              rw [List.filter_cons_of_pos (Dialect.isBind_bindVariable ..),
                List.filter_cons_of_pos hkind, parameters, List.map_cons, ih hmarks hrest]
              rfl
          | false =>
              have hplain := h.terminals t (List.mem_cons_self ..) hkind _ _ htext
              rw [count_of_not_isPlaceholder hkind] at hrest
              rw [List.filter_cons_of_neg (by simp [hplain]),
                List.filter_cons_of_neg (by simp [hkind])]
              exact ih hmarks hrest

/-- What is written without numbers stands for the parameters one after the other. -/
theorem inOrder (hd : d.numberedBinds = false) (hspell : spell c d binds marks = .ok lexemes) :
    parameters binds (placeholders (terminals marks)) =
      List.range' (binds + 1) (placeholders (terminals marks)).length := by
  induction marks generalizing binds lexemes with
  | nil => rfl
  | cons mark marks ih =>
      cases mark with
      | word text =>
          obtain ⟨rest, hrest, rfl⟩ := spell_word_eq_ok.1 hspell
          exact ih hrest
      | terminal t =>
          obtain ⟨text, rest, htext, hrest, rfl⟩ := spell_terminal_eq_ok.1 hspell
          rw [terminals, placeholders]
          cases hkind : t.isPlaceholder with
          | true =>
              rw [spelling_of_isPlaceholder hkind, count_of_isPlaceholder hkind] at htext
              rw [count_of_isPlaceholder hkind] at hrest
              have hplace := (bindSpelling_eq_ok htext).2 hd
              rw [List.filter_cons_of_pos hkind, parameters, hplace, List.length_cons,
                List.range'_succ]
              exact congrArg _ (ih hrest)
          | false =>
              rw [count_of_not_isPlaceholder hkind] at hrest
              rw [List.filter_cons_of_neg (by simp [hkind])]
              exact ih hrest

/-- Nothing but a placeholder can be out of place. -/
theorem isPlaceholder_of_spelling {t : Terminal} {position : Nat} {e : RenderError}
    (h : t.spelling c d position = .error e) : t.isPlaceholder = true := by
  unfold Terminal.spelling at h
  rw [isPlaceholder]
  split at h <;> first | cases h | simp [*]

/-- Where terminals cannot be written because a placeholder is out of place, it is the first
that does not stand for the parameter of its place. -/
theorem outOfOrder (hd : d.numberedBinds = false) {ts : List Terminal} {index position : Nat}
    {d' : Dialect}
    (h : spell c d binds (ts.map terminal) = .error (.bindOrder index position d')) :
    ∃ before t after, placeholders ts = before ++ t :: after ∧
      parameters binds before = List.range' (binds + 1) before.length ∧
      position = binds + before.length + 1 ∧
      (Text.word64? t.value).getD position = index ∧ index ≠ position := by
  induction ts generalizing binds with
  | nil => cases h
  | cons t ts ih =>
      rw [List.map_cons, spell] at h
      rw [placeholders]
      cases htext : t.spelling c d (count binds t) with
      | error e =>
          have hkind := isPlaceholder_of_spelling htext
          rw [htext] at h
          obtain rfl : e = .bindOrder index position d' := Except.error.inj h
          rw [spelling_of_isPlaceholder hkind, count_of_isPlaceholder hkind] at htext
          obtain ⟨heq, hne⟩ := bindSpelling_eq_error htext
          cases heq
          exact ⟨[], t, placeholders ts, List.filter_cons_of_pos hkind, rfl, rfl, rfl, hne⟩
      | ok text =>
          rw [htext] at h
          have hrest : spell c d (count binds t) (ts.map terminal) =
              .error (.bindOrder index position d') := by
            dsimp only at h
            cases hrest : spell c d (count binds t) (ts.map terminal) with
            | error e =>
                rw [hrest] at h
                exact h
            | ok rest =>
                rw [hrest] at h
                cases h
          cases hkind : t.isPlaceholder with
          | true =>
              rw [spelling_of_isPlaceholder hkind, count_of_isPlaceholder hkind] at htext
              rw [count_of_isPlaceholder hkind] at hrest
              have hplace := (bindSpelling_eq_ok htext).2 hd
              obtain ⟨before, u, after, hsplit, hbefore, hposition, hindex, hne⟩ := ih hrest
              refine ⟨t :: before, u, after, ?_, ?_, ?_, hindex, hne⟩
              · rw [List.filter_cons_of_pos hkind]
                exact congrArg (t :: ·) hsplit
              · rw [parameters, hplace, hbefore, List.length_cons, List.range'_succ]
              · rw [hposition, List.length_cons]
                omega
          | false =>
              rw [count_of_not_isPlaceholder hkind] at hrest
              rw [List.filter_cons_of_neg (by simp [hkind])]
              exact ih hrest

end Mark

/-! ### Texts -/

/-- The placeholders of a text. -/
def textPlaceholders (d : Dialect) (sql : String) : List Terminal :=
  placeholders ((lexEvents d (.ofDialect d) [sql]).1.flatMap Event.terminals)

/-- The placeholders of a text are as many as the pieces of it that are yet to be numbered. -/
theorem length_textPlaceholders (d : Dialect) (events : List Event) :
    (placeholders (events.flatMap Event.terminals)).length =
      Piece.binds (events.flatMap (Event.pieces d)) := by
  induction events with
  | nil => rfl
  | cons e events ih =>
      rw [List.flatMap_cons, List.flatMap_cons, Piece.binds_append, ← ih, placeholders,
        List.filter_append, List.length_append]
      refine congrArg (· + _) ?_
      cases e with
      | token token =>
          rw [Event.terminals, Event.pieces, Token.terminals, Token.pieces]
          split
          next => rfl
          next =>
            by_cases hkind : token.kind = .bindVariable
            · have hplaceholder : (Terminal.ofToken token).isPlaceholder = true :=
                beq_iff_eq.2 hkind
              have hpiece : (Terminal.ofToken token).piece d = .placeholder token.value :=
                if_pos hkind
              rw [List.filter_cons_of_pos hplaceholder, hpiece]
              rfl
            · have hother : ¬(Terminal.ofToken token).isPlaceholder = true :=
                fun h => hkind (beq_iff_eq.1 h)
              obtain ⟨text, -, hpiece⟩ :=
                Terminal.spelling_of_ne (d := d) (t := .ofToken token) hkind 0
              rw [List.filter_cons_of_neg hother, hpiece]
              rfl
      | opened b place space => cases b <;> rfl
      | closed b place => rfl

/-- A placeholder of a text is one of its tokens. -/
theorem exists_token_of_mem {d : Dialect} {sql : String} {x : Terminal}
    (hx : x ∈ (lexEvents d (.ofDialect d) [sql]).1.flatMap Event.terminals) :
    (∃ token, .token token ∈ (lexEvents d (.ofDialect d) [sql]).1 ∧
      token.kind.isTrivia = false ∧ x = .ofToken token) ∨
    ∃ b place space, x = .ofToken (Token.ofBracket b place space) := by
  obtain ⟨e, he, hmem⟩ := List.mem_flatMap.1 hx
  cases e with
  | token token =>
      rw [Event.terminals, Token.terminals] at hmem
      split at hmem
      next => cases hmem
      next hkind => exact .inl ⟨token, he, Bool.not_eq_true _ ▸ hkind, List.mem_singleton.1 hmem⟩
  | opened b place space =>
      rw [Event.terminals, Token.terminals] at hmem
      split at hmem
      next => cases hmem
      next => exact .inr ⟨b, place, space, List.mem_singleton.1 hmem⟩
  | closed b place => cases hmem

/-- The text of a placeholder is its number or, where they are not numbered, its mark. -/
theorem value_of_mem_placeholders {d : Dialect} {sql : String} {x : Terminal}
    (hx : x ∈ textPlaceholders d sql) :
    d = .postgres ∧ x.value ≠ "" ∧ (∀ c ∈ x.value.toList, c.isDigit = true) ∨
      d = .mysql ∧ x.value = "?" := by
  obtain ⟨hmem, hkind⟩ := List.mem_filter.1 hx
  rcases exists_token_of_mem hmem with ⟨token, htoken, -, rfl⟩ | ⟨b, place, space, rfl⟩
  · have hbind : token.kind = .bindVariable := beq_iff_eq.1 hkind
    cases scalar_of_mem_lexEvents htoken (by rw [hbind]; rfl) with
    | numbered _ _ hd hsome hdigits => exact .inl ⟨hd, hsome, hdigits⟩
    | placeholder _ _ hd hvalue => exact .inr ⟨hd, hvalue⟩
    | number hother => cases hbind.symm.trans hother
    | based base hother => cases base <;> cases hbind.symm.trans hother
    | named hother => cases hbind.symm.trans hother
  · cases b <;> cases hkind

/-- Placeholders that are not numbered have no numbers. -/
theorem unnumbered_of_mem {sql : String} {x : Terminal} (hx : x ∈ textPlaceholders .mysql sql) :
    Text.word64? x.value = none := by
  rcases value_of_mem_placeholders hx with ⟨hd, -⟩ | ⟨-, hvalue⟩
  · cases hd
  · rw [hvalue]
    decide

/-- A placeholder that is numbered stands for the parameter with its number, unless that is
too large. -/
theorem numbered_of_mem {sql : String} {x : Terminal} (hx : x ∈ textPlaceholders .postgres sql)
    (hsmall : x.number < UInt64.size) : Text.word64? x.value = some x.number := by
  rcases value_of_mem_placeholders hx with ⟨-, hsome, hdigits⟩ | ⟨hd, -⟩
  · rw [Text.word64_of_digits hsome hdigits]
    exact if_pos hsmall
  · cases hd

namespace Tree

variable {d d' : Dialect} {types : List String} {sql text : String} {t : Tree} {o : FormatOptions}
  {ts : List Terminal} {lexemes : List String}

/-- The placeholders of a tree are placeholders of the text. -/
theorem mem_textPlaceholders (h : parseAs d types sql = .ok t) {x : Terminal}
    (hx : x ∈ placeholders t.content.terminals) : x ∈ textPlaceholders d sql :=
  ((terminals_sublist h).filter _).subset hx

/-- No terminal of a tree but a placeholder is written like one in the other dialect. -/
theorem isBind_spelling (h : parseAs d types sql = .ok t) (hd : d' = .postgres → d = .mysql)
    {x : Terminal} (hx : x ∈ t.content.terminals) (hkind : x.isPlaceholder = false)
    {c : KeywordCase} {position : Nat} (hspelling : x.spelling c d' position = .ok text) :
    d'.isBind text = false := by
  rcases exists_token_of_mem ((terminals_sublist h).subset hx) with
    ⟨token, htoken, htrivia, rfl⟩ | ⟨b, place, space, rfl⟩
  · have hlexed : token.Lexed d := (lexEvents_tells d [sql]).1 _ htoken
    exact token.isBind_eq_false hlexed (scalar_of_mem_lexEvents htoken)
      (formed_of_mem_lexEvents htoken) htrivia (beq_eq_false_iff_ne.1 hkind) hd hspelling
  · obtain rfl : b.opener.toString = text := by cases b <;> exact Except.ok.inj hspelling
    cases b <;> cases d' <;> decide

/-- A parsed tree fits the shapes of its types. -/
theorem shaped_of_parseAs (h : parseAs d types sql = .ok t) :
    t.content.Shaped (Standard.readable d).toOutline := by
  obtain ⟨trees, rest, fuel, hlexed, -, hfound, -⟩ := (accepted_of_parseAs h).found
  have hx : (Standard.readable d).Fitting types t.content :=
    (((Standard.readable d).tells fuel).any hlexed hfound).2
  exact hx.2

/-- All terminals of a parsed tree are written, if no offset stands without a limit where it
needs one. -/
theorem render_traces (h : parseAs d types sql = .ok t) (o : FormatOptions)
    (hlimited : d' = .mysql → t.content.Limited) :
    Rendering.Traces (Standard.extend {}) o d' ((Standard.extend {}).IsWord o.keywordCase d')
      Layout.lexemes (Rendering.render o d' t.forest t.root) (· = t.content.terminals) :=
  Rendering.renderNode_traces (Standard.exhaustive d') (accepted_of_parseAs h).descends
    ((Standard.inOrder d).ordered (shaped_of_parseAs h)) (Content.unguarded hlimited)

/-- All placeholders of a text come to its tree, if no offset stands without a limit. -/
theorem placeholders_content (h : parseAs d types sql = .ok t) (hlimited : t.content.Limited) :
    placeholders t.content.terminals = textPlaceholders d sql := by
  have accepted := accepted_of_parseAs h
  refine ((terminals_sublist h).filter _).eq_of_length ?_
  -- In its own dialect the tree is written as the text was: what is counted are the terminals
  -- of the tree on the one hand and the pieces of the text on the other.
  obtain ⟨texts, htexts⟩ := Event.exists_spellings (lexEvents_tells d [sql]).1 0
  rw [Event.spellings_eq] at htexts
  have agrees : (Standard.extend {}).Agrees Standard.registry := Standard.agrees_registry d
  obtain ⟨layout, s', hrun, -, hpieces, -⟩ :=
    Writing.renderNode_writes accepted.descends accepted.dialect accepted.written
      { registry := Standard.registry } texts agrees htexts
  obtain ⟨marks, hmarks, -, -, hterminals, -⟩ :=
    render_traces h {} (fun _ => hlimited) { registry := Standard.registry } layout s' agrees hrun
  rw [hmarks, foldl_count] at hterminals
  rw [← length_textPlaceholders] at hpieces
  exact Nat.add_left_cancel (hterminals.symm.trans hpieces)

/-- A tree is written as a text: in one pass, with these lexemes, which are words of the
grammar and the spellings of these terminals, in their order. -/
structure WrittenAs (t : Tree) (d : Dialect) (o : FormatOptions) (text : String)
    (ts : List Terminal) (lexemes : List String) : Prop where
  pass : ∃ s, Pass.serialize o d t.forest t.root { registry := Standard.registry } = (.ok text, s) ∧
    s.inks.map Ink.text = lexemes
  marks : ∃ marks, Mark.terminals marks = ts ∧
    (∀ word, .word word ∈ marks → (Standard.extend {}).IsWord o.keywordCase d word) ∧
    Mark.spell o.keywordCase d 0 marks = .ok lexemes

theorem exists_writtenAs
    (htraces : Rendering.Traces (Standard.extend {}) o d
      ((Standard.extend {}).IsWord o.keywordCase d) Layout.lexemes
      (Rendering.render o d t.forest t.root) (· = ts))
    (htext : t.toSqlWith d o = .ok text) : ∃ lexemes, t.WrittenAs d o text ts lexemes := by
  have houtcome := Pass.serialize_outcome o d t.forest t.root
    (s := { registry := Standard.registry }) rfl
  rw [toSqlWith, layout] at htext
  rcases hrun : Rendering.render o d t.forest t.root { registry := Standard.registry }
    with ⟨e | layout, s'⟩
  · rw [hrun] at htext
    cases htext
  · rw [hrun] at htext houtcome
    obtain ⟨s, hpass, -, hinks, -⟩ := houtcome
    replace hinks := hinks (Layout.print_eq_ok.1 htext).1
    rw [show layout.print o = .ok text from htext] at hpass
    have agrees : (Standard.extend {}).Agrees Standard.registry := Standard.agrees_registry d
    obtain ⟨marks, hmarks, hwords, hspell, -⟩ := htraces _ _ _ agrees hrun
    exact ⟨layout.lexemes, ⟨s, hpass, by rw [hinks, layout.text_inks]⟩,
      marks, hmarks, hwords, hspell⟩

/-- The placeholders among what is written are those of the parameters of the tree. -/
theorem WrittenAs.filter_isBind (hw : t.WrittenAs d' o text ts lexemes)
    (h : parseAs d types sql = .ok t) (hd : d' = .postgres → d = .mysql)
    (hts : ts ⊆ t.content.terminals) :
    lexemes.filter d'.isBind = (parameters 0 (placeholders ts)).map d'.bindVariable := by
  obtain ⟨marks, rfl, hwords, hspell⟩ := hw.marks
  refine Mark.filter_isBind ⟨fun word hword => ?_, fun x hx hkind position text => ?_⟩ hspell
  · exact Standard.isBind_of_isWord (hwords word hword)
  · exact isBind_spelling h hd (hts hx) hkind

/-- A tree of a text without numbers is written with the numbers in order. -/
theorem numbered_of_unnumbered (h : parseAs .mysql types sql = .ok t)
    (htext : t.toSqlWith .postgres o = .ok text) :
    ∃ lexemes, t.WrittenAs .postgres o text t.content.terminals lexemes ∧
      placeholders t.content.terminals = textPlaceholders .mysql sql ∧
      lexemes.filter Dialect.postgres.isBind =
        (List.range' 1 (textPlaceholders .mysql sql).length).map Dialect.postgres.bindVariable := by
  have hlimited := Standard.limited_of_shaped (shaped_of_parseAs h)
  obtain ⟨lexemes, hw⟩ := exists_writtenAs (render_traces h o fun _ => hlimited) htext
  have hplaceholders := placeholders_content h hlimited
  refine ⟨lexemes, hw, hplaceholders, ?_⟩
  rw [hw.filter_isBind h (fun _ => rfl) (List.Subset.refl _), hplaceholders,
    parameters_of_unnumbered fun x => unnumbered_of_mem]

/-- The terminals of a tree in the order in which they are reached when it is written. -/
def reached (t : Tree) (d : Dialect) : List Terminal :=
  t.content.reached (Standard.extend {}) d

theorem render_reaches (h : parseAs d types sql = .ok t) (d' : Dialect) (o : FormatOptions) :
    Rendering.Reaches (Standard.extend {}) o d' ((Standard.extend {}).IsWord o.keywordCase d')
      Layout.lexemes (Rendering.render o d' t.forest t.root) (t.reached d') :=
  Rendering.renderNode_reaches (accepted_of_parseAs h).descends

/-- The placeholders of a text with numbers stand for the parameters with these numbers. -/
theorem numbered_of_reached (h : parseAs .postgres types sql = .ok t)
    (hsmall : ∀ x ∈ textPlaceholders .postgres sql, x.number < UInt64.size) :
    ∀ x ∈ placeholders (t.reached d'), Text.word64? x.value = some x.number := by
  intro x hx
  obtain ⟨hmem, hkind⟩ := List.mem_filter.1 hx
  have hterminal := Content.reached_subset (Standard.extend {}) d' t.content hmem
  have htext : x ∈ textPlaceholders .postgres sql :=
    mem_textPlaceholders h (List.mem_filter.2 ⟨hterminal, hkind⟩)
  exact numbered_of_mem htext (hsmall x htext)

/-- A tree of a text with numbers is written without them only if they are in order. -/
theorem inOrder_of_numbered (h : parseAs .postgres types sql = .ok t)
    (hsmall : ∀ x ∈ textPlaceholders .postgres sql, x.number < UInt64.size)
    (htext : t.toSqlWith .mysql o = .ok text) :
    ∃ lexemes n, t.WrittenAs .mysql o text (t.reached .mysql) lexemes ∧
      lexemes.filter Dialect.mysql.isBind = List.replicate n "?" ∧
      (placeholders (t.reached .mysql)).map number = List.range' 1 n := by
  obtain ⟨lexemes, hw⟩ := exists_writtenAs (render_reaches h .mysql o).traces htext
  have hnumbered : parameters 0 (placeholders (t.reached .mysql)) =
      (placeholders (t.reached .mysql)).map number :=
    parameters_of_numbered (numbered_of_reached h hsmall)
  obtain ⟨marks, hmarks, -, hspell⟩ := hw.marks
  have hplaces := Mark.inOrder rfl hspell
  rw [hmarks] at hplaces
  refine ⟨lexemes, (placeholders (t.reached .mysql)).length, hw, ?_, hnumbered.symm.trans hplaces⟩
  rw [hw.filter_isBind h nofun (Content.reached_subset ..), hplaces]
  refine List.eq_replicate_iff.2 ⟨by simp, fun lexeme hlexeme => ?_⟩
  obtain ⟨k, -, rfl⟩ := List.mem_map.1 hlexeme
  rfl

/-- A tree of a text with numbers is not written without them because of the first one that
is out of order. -/
theorem outOfOrder_of_numbered (h : parseAs .postgres types sql = .ok t)
    (hsmall : ∀ x ∈ textPlaceholders .postgres sql, x.number < UInt64.size)
    {index position : Nat}
    (herror : t.toSqlWith .mysql o = .error (.render (.bindOrder index position d'))) :
    ∃ before x after, placeholders (t.reached .mysql) = before ++ x :: after ∧
      before.map number = List.range' 1 before.length ∧ position = before.length + 1 ∧
      x.number = index ∧ index ≠ position := by
  have hnumbered : ∀ x ∈ placeholders (t.reached .mysql), Text.word64? x.value = some x.number :=
    numbered_of_reached h hsmall
  rw [toSqlWith, layout] at herror
  rcases hrun : Rendering.render o .mysql t.forest t.root { registry := Standard.registry }
    with ⟨e | layout, s'⟩
  · rw [hrun] at herror
    obtain rfl : e = .render (.bindOrder index position d') := Except.error.inj herror
    have agrees : (Standard.extend {}).Agrees Standard.registry := Standard.agrees_registry .mysql
    have hfails := (render_reaches h .mysql o).error agrees hrun
    obtain ⟨before, x, after, hsplit, hbefore, hposition, hindex, hne⟩ := Mark.outOfOrder rfl hfails
    rw [hsplit] at hnumbered
    refine ⟨before, x, after, hsplit, ?_, by rwa [Nat.zero_add] at hposition, ?_, hne⟩
    · have hnumbers : parameters 0 before = before.map number :=
        parameters_of_numbered fun y hy => hnumbered y (List.mem_append_left _ hy)
      exact hnumbers.symm.trans hbefore
    · rwa [hnumbered x (by simp), Option.getD_some] at hindex
  · rw [hrun] at herror
    cases (Layout.print_eq_error.1 herror).2

/-- Placeholders keep their parameters, in every layout. Those of a text without numbers are
numbered one after the other; those of a text with numbers are written without them only if
they are in order, and it is the first that is not which keeps them from being written. -/
theorem placeholders_kept (o : FormatOptions) (types : List String) (sql : String) (t : Tree) :
    (parseAs .mysql types sql = .ok t → ∀ text, t.toSqlWith .postgres o = .ok text →
      ∃ lexemes, t.WrittenAs .postgres o text t.content.terminals lexemes ∧
        placeholders t.content.terminals = textPlaceholders .mysql sql ∧
        lexemes.filter Dialect.postgres.isBind =
          (List.range' 1 (textPlaceholders .mysql sql).length).map Dialect.postgres.bindVariable) ∧
    (parseAs .postgres types sql = .ok t →
      (∀ x ∈ textPlaceholders .postgres sql, x.number < UInt64.size) →
      (∀ text, t.toSqlWith .mysql o = .ok text →
        ∃ lexemes n, t.WrittenAs .mysql o text (t.reached .mysql) lexemes ∧
          lexemes.filter Dialect.mysql.isBind = List.replicate n "?" ∧
          (placeholders (t.reached .mysql)).map number = List.range' 1 n) ∧
      ∀ index position d',
        t.toSqlWith .mysql o = .error (.render (.bindOrder index position d')) →
        ∃ before x after, placeholders (t.reached .mysql) = before ++ x :: after ∧
          before.map number = List.range' 1 before.length ∧ position = before.length + 1 ∧
          x.number = index ∧ index ≠ position) :=
  ⟨fun h _ => numbered_of_unnumbered h, fun h hsmall =>
    ⟨fun _ => inOrder_of_numbered h hsmall, fun _ _ _ => outOfOrder_of_numbered h hsmall⟩⟩

/-- A tree that a text is parsed to, of which something was found to hold. -/
theorem exists_of_any {holds : Tree → Bool} (h : (parse d sql).toOption.any holds = true) :
    ∃ t, parse d sql = .ok t ∧ holds t = true := by
  cases ht : parse d sql with
  | error e =>
      rw [ht] at h
      cases h
  | ok t =>
      rw [ht] at h
      exact ⟨t, rfl, h⟩

/-- Lists of more than one item stand on lines of their own. -/
def narrow : FormatOptions :=
  { pretty := true, lineWidth := 10 }

/-- Placeholders on two lines are numbered. Of two with numbers the second is written if its
number is the second, and is out of order if it is the third. -/
theorem placeholders_kept_second :
    (∃ t text lexemes, parse .mysql "select ?, ? + ?" = .ok t ∧
      t.toSqlWith .postgres narrow = .ok text ∧
      t.WrittenAs .postgres narrow text t.content.terminals lexemes ∧
      lexemes.filter Dialect.postgres.isBind = ["$1", "$2", "$3"]) ∧
    (∃ t text lexemes n, parse .postgres "select $1, $2" = .ok t ∧
      t.toSqlWith .mysql {} = .ok text ∧ t.WrittenAs .mysql {} text (t.reached .mysql) lexemes ∧
      lexemes.filter Dialect.mysql.isBind = List.replicate n "?" ∧
      (placeholders (t.reached .mysql)).map number = List.range' 1 n) ∧
    ∃ t before x after, parse .postgres "select $1, $3" = .ok t ∧
      t.toSqlWith .mysql {} = .error (.render (.bindOrder 3 2 .mysql)) ∧
      placeholders (t.reached .mysql) = before ++ x :: after ∧
      before.map number = [1] ∧ x.number = 3 := by
  -- The kernel works out the schemas once for all of these.
  obtain ⟨hnumbered, hordered, hfails⟩ :
      ((parse .mysql "select ?, ? + ?").toOption.any fun t =>
        decide (t.toSqlWith .postgres narrow = .ok "SELECT\n    $1,\n    $2 + $3")) = true ∧
      ((parse .postgres "select $1, $2").toOption.any fun t =>
        decide (t.toSqlWith .mysql {} = .ok "SELECT ?, ?")) = true ∧
      ((parse .postgres "select $1, $3").toOption.any fun t =>
        decide (t.toSqlWith .mysql {} = .error (.render (.bindOrder 3 2 .mysql)))) = true := by
    unfold parse parseAs parseChunks parseSource toSqlWith layout
    rw [Standard.registry_eq]
    decide +kernel
  refine ⟨?_, ?_, ?_⟩
  · obtain ⟨t, ht, htext⟩ := exists_of_any hnumbered
    obtain ⟨lexemes, hw, -, hbinds⟩ :=
      (placeholders_kept narrow _ _ t).1 ht _ (of_decide_eq_true htext)
    have hlength : (textPlaceholders .mysql "select ?, ? + ?").length = 3 := by decide +kernel
    rw [hlength] at hbinds
    exact ⟨t, _, lexemes, ht, of_decide_eq_true htext, hw, hbinds.trans (by decide +kernel)⟩
  · obtain ⟨t, ht, htext⟩ := exists_of_any hordered
    obtain ⟨lexemes, n, hw, hbinds, hnumbers⟩ :=
      ((placeholders_kept {} _ _ t).2 ht (by decide +kernel)).1 _ (of_decide_eq_true htext)
    exact ⟨t, _, lexemes, n, ht, of_decide_eq_true htext, hw, hbinds, hnumbers⟩
  · obtain ⟨t, ht, herror⟩ := exists_of_any hfails
    obtain ⟨before, x, after, hsplit, hbefore, hposition, hindex, -⟩ :=
      ((placeholders_kept {} _ _ t).2 ht (by decide +kernel)).2 _ _ _ (of_decide_eq_true herror)
    have hlength : before.length = 1 := (Nat.succ.inj hposition).symm
    rw [hlength] at hbefore
    exact ⟨t, before, x, after, ht, of_decide_eq_true herror, hsplit, hbefore, hindex⟩

end Tree

end DualSql
