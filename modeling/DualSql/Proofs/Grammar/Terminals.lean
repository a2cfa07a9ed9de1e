import DualSql.Proofs.Grammar.Transcription
import DualSql.Proofs.Lexer.SpelledScalars
import DualSql.Proofs.Lexer.Spellings

/-! # The terminals that a reader admits

A reader asks of a terminal what the parser asks of a token: a kind and a value.
Of whatever it admits, the production of the field takes every token with that
kind and that value, if the branches of named alternatives are of the same
kinds. Whether the text of the terminal is such a token is not asked. It is one
for names, words and symbols of the tables, string literals and scalars.

Main definitions: `Terminal.Told`, `Production.takes` and `Production.isEven`. Main
results: `Terminal.Told.exists_token`, `Structured.fits_of_readTerminal?`,
`Standard.takes_of_read`, and its counterpart `Tree.number_of_five_tokens`. -/

namespace DualSql

/-! ### Terminals that are told by their texts -/

theorem Vocabulary.classify_cases {d : Dialect} {word : String} {kind : TokenKind}
    (known : classify d word = kind) (hkind : kind ≠ .identifier) :
    kind = .keyword ∨ kind = .dataType := by
  unfold classify at known
  split at known
  next => exact .inl known.symm
  next =>
    split at known
    next => exact .inr known.symm
    next => exact absurd known.symm hkind

/-- A word that stands in the tables is read with its kind and as it stands there. -/
theorem lexeme_classified {ctx : LexContext} {word : String} {kind : TokenKind}
    (known : Vocabulary.classify ctx.dialect word = kind) (hkind : kind ≠ .identifier)
    (hbare : isBareWord word.toList = true) :
    ∃ first more, word.toList = first :: more ∧
      lexeme ctx first true more = .done (.token (ctx.token kind word.toList)) more.length := by
  obtain ⟨hstart, hall⟩ := Bool.and_eq_true_iff.1 hbare
  cases hchars : word.toList with
  | nil => rw [hchars] at hstart; cases hstart
  | cons first more =>
      rw [hchars] at hstart hall
      have hword : bareWord ctx (first :: more) = .token (ctx.token kind (first :: more)) := by
        have hupper := Vocabulary.toUpper_of_classify (known.symm ▸ hkind)
        rw [← hchars, bareWord, String.ofList_toList, hupper, known]
        rcases Vocabulary.classify_cases known hkind with rfl | rfl <;> rfl
      have hlexeme : lexeme ctx first true (more ++ []) = _ :=
        lexeme_word hstart (List.forall_mem_cons.1 (List.all_eq_true.1 hall)).2
          (by simp)
      rw [List.append_nil, hword] at hlexeme
      exact ⟨first, more, rfl, hlexeme⟩

/-- A terminal that is told by what is written for it: a name, a word or a symbol as
the tables have it, a string literal, or a scalar as the lexer makes it. -/
inductive Terminal.Told (d : Dialect) (t : Terminal) : Prop
  | name (kind : t.kind = .identifier) (spoken : t.value ≠ "")
  | word (kind : t.kind ≠ .identifier) (known : Vocabulary.classify d t.value = t.kind)
      (bare : isBareWord t.value.toList = true)
  | symbol (kind : t.kind = .operator) (listed : t.value ∈ Vocabulary.symbols d)
      (known : (Vocabulary.operator? d t.value).isSome = true)
  | literal (kind : t.kind = .stringLiteral)
      (introduced : ∀ m ∈ t.modifier, m = "E" ∨ m = "N" ∨ d = .mysql ∧ isCharset m.toList = true)
  | scalar (u : Token) (token : u.Scalar d) (writable : u.IsWritable d)
      (plain : u.kind ≠ .bindVariable ∨ d.numberedBinds = false) (same : .ofToken u = t)

namespace Terminal

variable {d : Dialect} {t : Terminal} {c : Char} {more : List Char} {u : Token}

/-- A text that is one lexeme is one token. -/
theorem exists_token_of_lexeme {text : String} {position : Nat}
    (hspelling : t.spelling .upper d position = .ok text) (htext : text.toList = c :: more)
    (hlexeme : lexeme (.first d) c true more = .done (.token u) more.length)
    (htrivia : u.kind.isTrivia = false) (hbare : u.kind = .keyword → u.delimiter = none)
    (hkind : u.kind = t.kind) (hvalue : u.value = t.value) :
    ∃ text u, t.spelling .upper d position = .ok text ∧
      lexEvents d (.ofDialect d) [text] = ([.token u], none) ∧ u.kind = t.kind ∧
      u.value = t.value := by
  have hjoin : (String.join [text]).toList = c :: more := by
    rw [String.join_cons, String.join_nil, String.append_empty, htext]
  exact ⟨text, _, hspelling, lexEvents_of_word hjoin hlexeme htrivia hbare,
    (Phrase.kind_single ..).trans hkind, (Phrase.value_single ..).trans hvalue⟩

/-- The text of a terminal that is told by it is one token, of its kind and value. -/
theorem Told.exists_token (h : t.Told d) (position : Nat) :
    ∃ text u, t.spelling .upper d position = .ok text ∧
      lexEvents d (.ofDialect d) [text] = ([.token u], none) ∧ u.kind = t.kind ∧
      u.value = t.value := by
  cases h with
  | name kind spoken =>
      obtain ⟨first, more, delimiter, -, htext, hlexeme⟩ :=
        @lexeme_spelledName (.first d) t.value spoken (t.quoted || needsQuotes d t.value)
          fun h => (Bool.or_eq_false_iff.1 h).2
      refine exists_token_of_lexeme ?_ htext hlexeme rfl (by rintro ⟨⟩) kind.symm
        String.ofList_toList
      rw [spelling, kind]
      rfl
  | word kind known bare =>
      obtain ⟨first, more, hchars, hlexeme⟩ :=
        @lexeme_classified (.first d) t.value t.kind known kind bare
      have htable := Vocabulary.classify_cases known kind
      have htrivia : t.kind.isTrivia = false := by rcases htable with h | h <;> rw [h] <;> rfl
      have hspelling : t.spelling .upper d position = .ok t.value := by
        have hupper : Text.toUpper t.value = t.value :=
          Vocabulary.toUpper_of_classify (known.symm ▸ kind)
        unfold spelling
        rcases htable with h | h <;> rw [h] <;> exact congrArg Except.ok hupper
      exact exists_token_of_lexeme hspelling hchars hlexeme htrivia (fun _ => rfl) rfl
        String.ofList_toList
  | symbol kind listed known =>
      obtain ⟨info, hinfo⟩ := Option.isSome_iff_exists.1 known
      have hspelling : t.spelling .upper d position = .ok t.value := by
        rw [spelling, kind]
        simp only [fixedSpelling, KeywordCase.apply, Vocabulary.toUpper_of_operator hinfo, ite_self]
      obtain ⟨first, more, hchars⟩ := List.exists_cons_of_ne_nil (symbol_chars d listed).1
      have hends : EndsSymbol d t.value [] := by
        refine ⟨?_, by simp⟩
        rw [List.takeWhile_nil, List.append_nil]
        exact Vocabulary.longestSymbol_of_mem listed
      have hlexeme : lexeme (.first d) first true (more ++ []) = _ :=
        lexeme_symbol listed hchars hends
      rw [List.append_nil] at hlexeme
      exact exists_token_of_lexeme hspelling hchars hlexeme rfl (by rintro ⟨⟩) kind.symm
        String.ofList_toList
  | literal kind introduced =>
      obtain ⟨first, more, mark, hchars, hlexeme⟩ :=
        @isLiteral_stringSpelling (.first d) rfl t.value t.modifier introduced
      have hend := hlexeme [] (by simp)
      rw [List.append_nil] at hend
      refine exists_token_of_lexeme ?_ hchars hend rfl (by rintro ⟨⟩) kind.symm String.ofList_toList
      rw [spelling, kind]
      rfl
  | scalar u token writable plain same =>
      obtain ⟨text, v, hspelling, hevents, hsame⟩ :=
        token.exists_sameScalar writable .upper position
      exact ⟨text, v, same ▸ hspelling, hevents, hsame.kind.trans (same ▸ rfl),
        (hsame.value plain).trans (same ▸ rfl)⟩

end Terminal

namespace Structured

variable {d : Dialect} {kinds : List TokenKind} {values : List String}

/-- A token with the kind and the value of a terminal that is read fits the field. -/
theorem fits_of_readTerminal? {value : Json} {t : Terminal} {u : Token}
    (h : readTerminal? d kinds values value = some t) (hkind : u.kind = t.kind)
    (hvalue : u.value = t.value) : Parsing.fits kinds values u = true := by
  simp only [readTerminal?, Option.bind_eq_bind, Option.bind_eq_some_iff] at h
  obtain ⟨⟨text, quoted, modifier⟩, -, kind, hinferred, h⟩ := h
  split at h
  case isFalse => cases h
  next haccepted =>
    cases h
    refine Bool.and_eq_true_iff.2 ⟨?_, ?_⟩
    · rw [hkind]
      simpa using mem_of_inferKind? hinferred
    · rcases Bool.or_eq_true_iff.1 haccepted with hnone | hany
      · rw [hnone, Bool.true_or]
      · obtain ⟨v, hv, hsame⟩ := List.any_eq_true.1 hany
        refine Bool.or_eq_true_iff.2 (.inr (List.any_eq_true.2 ⟨v, hv, ?_⟩))
        rw [Token.is, beq_self_eq_true, Bool.true_and, hkind, hvalue]
        split at hsame
        next hword => rwa [if_pos hword, Text.eqIgnoringAsciiCase, BEq.comm]
        next hword => rwa [if_neg hword, BEq.comm]

end Structured

namespace Production

/-- Whether a production that sets a terminal takes a token, by one of its
branches if it has any. -/
def takes (u : Token) : Production → Bool
  | token _ kinds values => Parsing.fits kinds values u
  | alternatives _ branches =>
    branches.any fun q => q.token?.any fun t => Parsing.fits t.1 t.2 u
  | _ => false

/-- Whether all branches of named alternatives are of the same kinds. -/
def isEven : Production → Bool
  | alternatives _ branches =>
    (branches.filterMap token?).all fun t =>
      (branches.filterMap token?).all fun t' => t.1.all t'.1.contains
  | _ => true

/-- A token that fits the field of a production is taken by the production. -/
theorem takes_of_fits {p : Production} {kinds : List TokenKind} {values : List String} {u : Token}
    (heven : p.isEven = true) (hholds : p.fieldKind? = some (.terminal kinds values))
    (hfits : Parsing.fits kinds values u = true) : p.takes u = true := by
  cases p with
  | token info =>
      cases hholds
      exact hfits
  | node info types climb =>
      rw [fieldKind?] at hholds
      split at hholds <;> cases hholds
  | sequence | block => cases hholds
  | alternatives info branches =>
      simp only [fieldKind?, Schema.plainKind, Option.some.injEq, FieldKind.terminal.injEq]
        at hholds
      obtain ⟨rfl, rfl⟩ := hholds
      obtain ⟨hkind, hvalue⟩ := Bool.and_eq_true_iff.1 hfits
      have hsome : ∃ t ∈ branches.filterMap token?, u.kind ∈ t.1 :=
        (mem_pooled.1 (by simpa using hkind)).resolve_left List.not_mem_nil
      -- Every branch is of the kind, so that one with the value is enough.
      have htaken {t : List TokenKind × List String} (ht : t ∈ branches.filterMap token?)
          (hvalues : (t.2.isEmpty || t.2.any fun v => u.is u.kind (some v)) = true) :
          takes u (.alternatives info branches) = true := by
        obtain ⟨q, hq, htoken⟩ := List.mem_filterMap.1 ht
        refine List.any_eq_true.2 ⟨q, hq, ?_⟩
        rw [htoken]
        obtain ⟨t', ht', hmem⟩ := hsome
        have heach := List.all_eq_true.1 (List.all_eq_true.1 heven t' ht') t ht
        exact Bool.and_eq_true_iff.2 ⟨List.all_eq_true.1 heach _ hmem, hvalues⟩
      split at hvalue
      next hany =>
        obtain ⟨t, ht, hempty⟩ := List.any_eq_true.1 hany
        exact htaken ht (by rw [hempty, Bool.true_or])
      next hnone =>
        rcases Bool.or_eq_true_iff.1 hvalue with hempty | hany
        · obtain ⟨t, ht, -⟩ := hsome
          have hnil := List.flatMap_eq_nil_iff.1 (List.isEmpty_iff.1 hempty) t ht
          exact htaken ht (by rw [hnil]; rfl)
        · obtain ⟨v, hv, hsame⟩ := List.any_eq_true.1 hany
          obtain ⟨t, ht, hv⟩ := List.mem_flatMap.1 hv
          exact htaken ht (Bool.or_eq_true_iff.2 (.inr (List.any_eq_true.2 ⟨v, hv, hsame⟩)))

end Production

/-- A part of the production of a type sets a field of its shapes. -/
structure Schema.SetBy (schema : Schema) (field : FieldSchema) (root q : Production) : Prop where
  hasRoot : schema.root = some root
  part : q ∈ root.setters
  named : q.attrs.name = some field.name
  holds : q.fieldKind? = some field.kind

namespace Registry

variable {r : Registry} {d : Dialect} {tag : String} {schema : Schema} {shape : Shape}
  {field : FieldSchema}

/-- A field of a shape is set by a part of the production of the type. -/
theorem Built.exists_setter (h : r.Built) (hschema : (r.schema tag d).1 = .ok schema)
    (hshape : shape ∈ schema.shapes) (hfield : field ∈ shape) :
    ∃ root q, schema.SetBy field root q := by
  obtain ⟨nodeType, catalog, -, hcompiled⟩ := h.exists_compile hschema
  obtain ⟨root, -, hroot, -, hmem, -⟩ := Schema.shape_of_compile hcompiled hshape
  obtain ⟨q, hq, hnamed, hholds⟩ := Production.exists_setter root hmem field hfield
  exact ⟨root, q, hroot, hq, hnamed, hholds⟩

/-- Whether the alternatives of all types are of the same kinds, one field aside. -/
def isEven (r : Registry) (d : Dialect) (exempt : String × String) : Bool :=
  r.types.all fun entry =>
    match (r.schema entry.1 d).1 with
    | .ok schema => schema.root.all fun root => root.setters.all fun q =>
        q.isEven || q.attrs.name.any fun name => (entry.1, name) == exempt
    | .error _ => true

theorem even_of_isEven {exempt : String × String} (h : r.isEven d exempt = true)
    {root q : Production} {name : String} (hschema : (r.schema tag d).1 = .ok schema)
    (hroot : schema.root = some root) (hq : q ∈ root.setters) (hname : q.attrs.name = some name)
    (hexempt : (tag, name) ≠ exempt) : q.isEven = true := by
  obtain ⟨nodeType, htype⟩ := exists_type_of_schema hschema
  have hentry := List.all_eq_true.1 h _ (mem_types htype)
  simp only [hschema, hroot, Option.all_some] at hentry
  simpa [hname, hexempt] using List.all_eq_true.1 hentry q hq

end Registry

namespace Standard

/-- The name of a function can be a word of some kinds or one of two keywords. As
the first have any value, so have the keywords for a reader. -/
def functionName : String × String :=
  ("FunctionCall", "name")

theorem isEven (d : Dialect) : (extend {}).isEven d functionName = true := by
  have hall : ∀ d ∈ Dialect.all, (extend {}).isEven d functionName = true := by decide +kernel
  exact hall d d.mem_all

variable {d : Dialect} {tag : String} {schema : Schema} {shape : Shape} {field : FieldSchema}
  {kinds : List TokenKind} {values : List String}

/-- Of a terminal that is read for a field, names of functions aside, the part of
the grammar that sets the field takes every token with its kind and its value. If
it is told by its text, the text is one such token. -/
theorem takes_of_read (hschema : (registry.schema tag d).1 = .ok schema)
    (hshape : shape ∈ schema.shapes) (hfield : field ∈ shape)
    (hname : (tag, field.name) ≠ functionName) (hkind : field.kind = .terminal kinds values)
    {value : Json} {t : Terminal}
    (h : Structured.readTerminal? d kinds values value = some t) :
    ∃ root p, schema.root = some root ∧ p ∈ root.setters ∧ p.attrs.name = some field.name ∧
      (∀ u : Token, u.kind = t.kind → u.value = t.value → p.takes u = true) ∧
      (t.Told d → ∀ position, ∃ text u, t.spelling .upper d position = .ok text ∧
        lexEvents d (.ofDialect d) [text] = ([.token u], none) ∧ p.takes u = true ∧
        u.value = t.value) := by
  obtain ⟨root, p, hroot, hp, hset, hholds⟩ := built.exists_setter hschema hshape hfield
  have hfirst : ((extend {}).schema tag d).1 = .ok schema :=
    ((agrees_registry d).schemas tag d).symm.trans hschema
  have heven := Registry.even_of_isEven (isEven d) hfirst hroot hp hset hname
  rw [hkind] at hholds
  have htakes {u : Token} (hu : u.kind = t.kind) (hvalue : u.value = t.value) :
      p.takes u = true :=
    Production.takes_of_fits heven hholds (Structured.fits_of_readTerminal? h hu hvalue)
  refine ⟨root, p, hroot, hp, hset, fun u => htakes, fun told position => ?_⟩
  obtain ⟨text, u, hspelling, hevents, hu, hvalue⟩ := told.exists_token position
  exact ⟨text, u, hspelling, hevents, htakes hu hvalue, hvalue⟩

/-- The direction of an order is one of two keywords, and is read back from its text. -/
theorem takes_direction :
    ∃ schema root p, (registry.schema "OrderItem" .postgres).1 = .ok schema ∧
      schema.root = some root ∧ p ∈ root.setters ∧ p.attrs.name = some "direction" ∧
      (∀ u : Token, u.kind = .keyword → u.value = "DESC" → p.takes u = true) ∧
      ∃ u, lexEvents .postgres (.ofDialect .postgres) ["DESC"] = ([.token u], none) ∧
        p.takes u = true ∧ u.value = "DESC" := by
  let t : Terminal := { kind := .keyword, value := "DESC" }
  have hfacts : (((extend {}).schema "OrderItem" .postgres).1.toOption.any fun schema =>
      schema.shapes.any fun shape => shape.any fun field =>
        field.name == "direction" && field.kind == .terminal [.keyword] ["ASC", "DESC"] &&
          Structured.readTerminal? .postgres [.keyword] ["ASC", "DESC"] (.string "DESC") ==
            some t) = true := by
    decide +kernel
  have told : t.Told .postgres := .word nofun (by decide +kernel) (by decide +kernel)
  have hspelling : t.spelling .upper .postgres 0 = .ok "DESC" := by decide +kernel
  cases hschema : ((extend {}).schema "OrderItem" .postgres).1 with
  | error e =>
      rw [hschema] at hfacts
      cases hfacts
  | ok schema =>
      rw [hschema] at hfacts
      simp only [Except.toOption, Option.any_some, List.any_eq_true, Bool.and_eq_true,
        beq_iff_eq] at hfacts
      obtain ⟨shape, hshape, field, hfield, ⟨hname, hkind⟩, hread⟩ := hfacts
      have hasked : (registry.schema "OrderItem" .postgres).1 = .ok schema :=
        ((agrees_registry .postgres).schemas _ _).trans hschema
      obtain ⟨root, p, hroot, hp, hset, htakes, hread⟩ := takes_of_read hasked hshape hfield
        (by simp [functionName]) hkind hread
      obtain ⟨text, u, htext, hevents, htaken, hvalue⟩ := hread told 0
      obtain rfl : "DESC" = text := Except.ok.inj (hspelling.symm.trans htext)
      exact ⟨schema, root, p, hasked, hroot, hp, hname ▸ hset, htakes, u, hevents, htaken, hvalue⟩

end Standard

namespace Tree

/-- The text of a structured tree. -/
def structuredText? (d : Dialect) (types : List String) (json : Json) : Option String := do
  let t ← (ofJson d types json).toOption
  t.toSql.toOption

/-- A number that is read need not be one: it is written as it is, and its text
is scanned to other tokens. -/
theorem number_of_five_tokens :
    structuredText? .postgres ["NumberLiteral"]
        (.object [(nodeName, .string "NumberLiteral"), ("value", .string "1 OR 1=1")]) =
      some "1 OR 1=1" ∧
    (lexEvents .postgres (.ofDialect .postgres) ["1 OR 1=1"]).1.length = 5 := by
  unfold structuredText? ofJson toSql toSqlWith layout
  rw [Standard.registry_eq]
  decide +kernel

end Tree

end DualSql
