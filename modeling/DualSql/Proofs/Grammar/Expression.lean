import DualSql.Proofs.Grammar.Operators

/-! # Expressions and their brackets

Expressions as they are meant, apart from any forest: operands, operators
before an operand and between two, and brackets. Where brackets are needed
follows from the operators on both sides, and an expression that has them can
be taken as a sequence of tokens.

Main definitions: `Expression`, `Expression.written`, the expression with the
brackets that are written, `Expression.Grouped`, what it means to have enough of
them, and `TokenTree.ofLexemes`, lexemes taken as tokens. Main results:
`Expression.grouped_written`, `Expression.unwrapped_written` and
`Expression.ofLexemes_lexemes`. -/

namespace DualSql

/-- Whether a text begins like a number. -/
def startsNumber (text : String) : Bool :=
  text.toList.head?.any fun c => c.isDigit || c == '.'

/-- Whether a text is the name of a data type, of one word or of several. -/
def Vocabulary.namesType (d : Dialect) (text : String) : Bool :=
  isDataType d text || (compounds d).lookup text == some .dataType

/-- An operand that is a single token. -/
inductive Atom (d : Dialect) where
  | quoted (name : String)
  /-- A name that is not taken for something else. -/
  | bare (name : String) (plain : needsQuotes d name = false)
  /-- The name of a data type, which can be that of a column. -/
  | typeName (name : String) (known : Vocabulary.namesType d name = true)
  | number (digits : String) (starts : startsNumber digits = true)

/-- A symbol before a single operand. -/
inductive Sign where
  | minus
  | plus
  | tilde
  | bang
  deriving DecidableEq

/-- An operator of a dialect that stands between two operands. -/
structure Connective (d : Dialect) where
  symbol : String
  info : OperatorInfo
  known : Vocabulary.operator? d symbol = some info
  binary : info.binary = true

/-- An expression of a dialect. -/
inductive Expression (d : Dialect) where
  | atom (a : Atom d)
  | paren (inner : Expression d)
  | not (operand : Expression d)
  | signed (sign : Sign) (operand : Expression d)
  | binary (left : Expression d) (op : Connective d) (right : Expression d)

/-- The symbol as it is written. -/
def Sign.symbol : Sign → String
  | minus => "-"
  | plus => "+"
  | tilde => "~"
  | bang => "!"

/-- The operand as it is written. -/
def Atom.lexeme {d : Dialect} : Atom d → String
  | quoted name => d.quoteIdentifier name
  | bare name _ => name
  | typeName name _ => name
  | number digits _ => digits

namespace Expression

variable {d : Dialect}

/-- The expression without its brackets. -/
def unwrapped : Expression d → Expression d
  | atom a => atom a
  | paren inner => inner.unwrapped
  | not operand => not operand.unwrapped
  | signed sign operand => signed sign operand.unwrapped
  | binary left op right => binary left.unwrapped op right.unwrapped

/-- The lexemes of the expression with the brackets that it has. -/
def lexemes : Expression d → List String
  | atom a => [a.lexeme]
  | paren inner => "(" :: (inner.lexemes ++ [")"])
  | not operand => "NOT" :: operand.lexemes
  | signed sign operand => sign.symbol :: operand.lexemes
  | binary left op right => left.lexemes ++ op.symbol :: right.lexemes

/-- Puts brackets around an expression if they are needed. Inside them it
stands alone. -/
def bracketed (needed : Bool) (context : Context) (body : Context → Expression d) :
    Expression d :=
  if needed then paren (body .free) else body context

/-- The expression with the brackets that are written in a context: those that
are needed and, unless they are to be few, those that it has. -/
def written (minimal : Bool) (context : Context) : Expression d → Expression d
  | atom a => atom a
  | paren inner =>
    if minimal then inner.written minimal context else paren (inner.written minimal .free)
  | not operand =>
    bracketed (Vocabulary.notLevel < context.trailing) context fun c =>
      not (operand.written minimal ⟨Vocabulary.isLevel, c.trailing⟩)
  | signed sign operand =>
    bracketed (Vocabulary.exponentLevel < context.trailing) context fun c =>
      signed sign (operand.written minimal ⟨Vocabulary.unaryLevel, c.trailing⟩)
  | binary left op right =>
    bracketed (op.info.precedence < context.minimum) context fun c =>
      binary (left.written minimal ⟨op.info.leftMinimum, op.info.precedence⟩) op
        (right.written minimal ⟨Parsing.nextMinimum op.info, c.trailing⟩)

/-- Whether an expression has all the brackets that it needs in a context. -/
def Grouped (context : Context) : Expression d → Prop
  | atom _ => True
  | paren inner => inner.Grouped .free
  | not operand =>
    context.trailing ≤ Vocabulary.notLevel ∧
      operand.Grouped ⟨Vocabulary.isLevel, context.trailing⟩
  | signed _ operand =>
    context.trailing ≤ Vocabulary.exponentLevel ∧
      operand.Grouped ⟨Vocabulary.unaryLevel, context.trailing⟩
  | binary left op right =>
    context.minimum ≤ op.info.precedence ∧
      left.Grouped ⟨op.info.leftMinimum, op.info.precedence⟩ ∧
      right.Grouped ⟨Parsing.nextMinimum op.info, context.trailing⟩

theorem unwrapped_bracketed (needed : Bool) (context : Context) {body : Context → Expression d}
    {e : Expression d} (h : ∀ c, (body c).unwrapped = e) :
    (bracketed needed context body).unwrapped = e := by
  unfold bracketed
  split
  · exact h .free
  · exact h context

/-- Writing an expression changes nothing but its brackets. -/
theorem unwrapped_written (minimal : Bool) (context : Context) (e : Expression d) :
    (e.written minimal context).unwrapped = e.unwrapped := by
  induction e generalizing context with
  | atom a => rfl
  | paren inner ih =>
      rw [written, unwrapped]
      split
      · exact ih context
      · exact ih .free
  | not operand ih =>
      apply unwrapped_bracketed
      intro c
      rw [unwrapped, ih, unwrapped]
  | signed sign operand ih =>
      apply unwrapped_bracketed
      intro c
      rw [unwrapped, ih, unwrapped]
  | binary left op right ihl ihr =>
      apply unwrapped_bracketed
      intro c
      rw [unwrapped, ihl, ihr, unwrapped]

theorem grouped_bracketed {needed : Bool} {context : Context} {body : Context → Expression d}
    (hfree : (body .free).Grouped .free)
    (hcontext : needed = false → (body context).Grouped context) :
    (bracketed needed context body).Grouped context := by
  unfold bracketed
  cases needed with
  | true => exact hfree
  | false => exact hcontext rfl

/-- An expression is written with all the brackets that it needs. -/
theorem grouped_written (minimal : Bool) (context : Context) (e : Expression d) :
    (e.written minimal context).Grouped context := by
  induction e generalizing context with
  | atom a => trivial
  | paren inner ih =>
      rw [written]
      split
      · exact ih context
      · exact ih .free
  | not operand ih =>
      apply grouped_bracketed
      · exact ⟨Nat.zero_le _, ih _⟩
      · intro hneeded
        exact ⟨Nat.le_of_not_lt (of_decide_eq_false hneeded), ih _⟩
  | signed sign operand ih =>
      apply grouped_bracketed
      · exact ⟨Nat.zero_le _, ih _⟩
      · intro hneeded
        exact ⟨Nat.le_of_not_lt (of_decide_eq_false hneeded), ih _⟩
  | binary left op right ihl ihr =>
      apply grouped_bracketed
      · exact ⟨Nat.zero_le _, ihl _, ihr _⟩
      · intro hneeded
        exact ⟨Nat.le_of_not_lt (of_decide_eq_false hneeded), ihl _, ihr _⟩

end Expression

/-! ### Lexemes as tokens -/

/-- Takes one of each pair of quotes. -/
def undoubled (quote : Char) : List Char → List Char
  | [] => []
  | c :: rest =>
    if c = quote then
      match rest with
      | [] => []
      | _ :: rest => c :: undoubled quote rest
    else c :: undoubled quote rest

/-- The token that a lexeme is, unless it is a bracket. Operators carry what
their dialect knows of them. -/
def Token.ofLexeme (d : Dialect) (text : String) : Token :=
  if text.toList.head? = some d.identifierQuote then
    { kind := .identifier
      value := String.ofList (undoubled d.identifierQuote text.toList.tail)
      delimiter := some d.identifierQuote.toString }
  else if startsNumber text then { kind := .numberLiteral, value := text }
  else
    match Vocabulary.operator? d text with
    | some info =>
      { kind := if Vocabulary.isKeyword d text then .keyword else .operator
        value := text
        operator := some info }
    | none =>
      if text.toList.head?.any fun c => Text.isAlphabetic c || c == '_' then
        { kind := ((Vocabulary.compounds d).lookup text).getD
            (Vocabulary.classify d (Text.toUpper text))
          value := text }
      else { kind := .operator, value := text }

/-- The event that a lexeme is. -/
def Event.ofLexeme (d : Dialect) (text : String) : Event :=
  if text = "(" then .opened .paren .start false
  else if text = ")" then .closed .paren .start
  else .token (Token.ofLexeme d text)

/-- Lexemes taken as tokens, with a block for each pair of brackets. -/
def TokenTree.ofLexemes (d : Dialect) (texts : List String) : List TokenTree :=
  ofEvents (texts.map (Event.ofLexeme d))

namespace Vocabulary

variable {d : Dialect} {s : String} {info : OperatorInfo}

/-- No operator is spelled like a name, a number or a bracket. -/
theorem spelling_of_operator (h : operator? d s = some info) :
    needsQuotes d s = true ∧ startsNumber s = false ∧
      s.toList.head? ≠ some d.identifierQuote ∧ s ≠ "(" ∧ s ≠ ")" := by
  have hall : ∀ entry ∈ operators d, needsQuotes d entry.1 = true ∧
      startsNumber entry.1 = false ∧ entry.1.toList.head? ≠ some d.identifierQuote ∧
      entry.1 ≠ "(" ∧ entry.1 ≠ ")" := by
    cases d <;> decide +kernel
  exact hall _ (mem_of_lookup h)

/-- The name of a data type is read as such and written as it stands. -/
theorem spelling_of_namesType (h : namesType d s = true) :
    Token.ofLexeme d s = { kind := .dataType, value := s } ∧ Text.toUpper s = s := by
  have hword : ∀ word ∈ dataTypes d,
      Token.ofLexeme d word = { kind := .dataType, value := word } ∧ Text.toUpper word = word := by
    cases d <;> decide +kernel
  have hphrase : ∀ entry ∈ compounds d, entry.2 = .dataType →
      Token.ofLexeme d entry.1 = { kind := .dataType, value := entry.1 } ∧
        Text.toUpper entry.1 = entry.1 := by
    cases d <;> decide +kernel
  rw [namesType, Bool.or_eq_true, isDataType, List.contains_iff_mem, beq_iff_eq] at h
  rcases h with hs | hs
  · exact hword s hs
  · exact hphrase _ (mem_of_lookup hs) rfl

end Vocabulary

namespace Token

variable {d : Dialect} {text : String}

theorem undoubled_identifierChar (name : List Char) :
    undoubled d.identifierQuote (name.flatMap d.identifierChar ++ [d.identifierQuote]) = name := by
  induction name with
  | nil => simp [undoubled]
  | cons c rest ih =>
      rw [List.flatMap_cons, List.append_assoc, Dialect.identifierChar]
      split
      next hc => simp [undoubled, hc, ih]
      next hc =>
        rw [List.singleton_append, undoubled.eq_def]
        simp only [if_neg hc, ih]

theorem ofLexeme_quoteIdentifier (name : String) :
    ofLexeme d (d.quoteIdentifier name) =
      { kind := .identifier, value := name, delimiter := some d.identifierQuote.toString } := by
  have hlist : (d.quoteIdentifier name).toList =
      d.identifierQuote :: (name.toList.flatMap d.identifierChar ++ [d.identifierQuote]) := by
    simp [Dialect.quoteIdentifier]
  rw [ofLexeme, if_pos (by rw [hlist]; rfl), hlist, List.tail_cons, undoubled_identifierChar,
    String.ofList_toList]

theorem ofLexeme_operator {info : OperatorInfo} (h : Vocabulary.operator? d text = some info) :
    ofLexeme d text =
      { kind := if Vocabulary.isKeyword d text then .keyword else .operator
        value := text
        operator := some info } := by
  obtain ⟨-, hnumber, hquote, -⟩ := Vocabulary.spelling_of_operator h
  rw [ofLexeme, if_neg hquote, hnumber, h]
  rfl

theorem isAlphabetic_of_isDigit {c : Char} (h : c.isDigit = true) :
    Text.isAlphabetic c = false := by
  obtain ⟨hleast, hmost⟩ : 48 ≤ c.toNat ∧ c.toNat ≤ 57 := by
    simpa [Char.isDigit, UInt32.le_iff_toNat_le] using h
  have hupper : c.isUpper = false := by
    apply decide_eq_false
    rintro ⟨hletter, -⟩
    have hletter : 65 ≤ c.toNat := UInt32.le_iff_toNat_le.1 hletter
    omega
  have hlower : c.isLower = false := by
    rw [Char.isLower, Bool.and_eq_false_iff, decide_eq_false_iff_not]
    left
    intro hletter
    have hletter : 97 ≤ c.toNat := UInt32.le_iff_toNat_le.1 hletter
    omega
  rw [Text.isAlphabetic, if_pos (by omega), Char.isAlpha, hupper, hlower, Bool.or_false]

/-- A word begins with neither a digit nor a point nor a quote. -/
theorem first_of_word {c : Char} (h : (Text.isAlphabetic c || c == '_') = true) :
    (c.isDigit || c == '.') = false ∧ c ≠ d.identifierQuote := by
  refine ⟨?_, ?_⟩
  · rw [Bool.or_eq_false_iff, beq_eq_false_iff_ne]
    constructor
    · by_contra hdigit
      rw [Bool.not_eq_false] at hdigit
      rw [isAlphabetic_of_isDigit hdigit, Bool.false_or, beq_iff_eq] at h
      subst h
      revert hdigit
      decide
    · rintro rfl
      revert h
      decide
  · rintro rfl
    revert h
    cases d <;> decide

/-- No name that stands without quotes has several words. -/
theorem lookup_compounds_of_bare (h : needsQuotes d text = false) :
    (Vocabulary.compounds d).lookup text = none := by
  have hall : ∀ entry ∈ Vocabulary.compounds d, needsQuotes d entry.1 = true := by
    cases d <;> decide +kernel
  rw [List.lookup_eq_none_iff]
  intro entry hentry
  rw [bne_iff_ne]
  rintro rfl
  rw [hall entry hentry] at h
  cases h

theorem ofLexeme_bare (h : needsQuotes d text = false) :
    ofLexeme d text = { kind := .identifier, value := text } := by
  have hcompound := lookup_compounds_of_bare h
  have hoperator : Vocabulary.operator? d text = none := by
    rw [Option.eq_none_iff_forall_ne_some]
    intro info hinfo
    rw [(Vocabulary.spelling_of_operator hinfo).1] at h
    cases h
  unfold needsQuotes at h
  split at h
  next => cases h
  next first rest htext =>
    simp only [Bool.or_eq_false_iff, Bool.not_eq_false'] at h
    obtain ⟨⟨⟨hfirst, -⟩, hkeyword⟩, htype⟩ := h
    obtain ⟨hnumber, hquote⟩ := first_of_word (d := d) hfirst
    have hstarts : startsNumber text = false := by
      rw [startsNumber, htext]
      exact hnumber
    rw [ofLexeme, hstarts, hoperator, htext, List.head?_cons, if_neg (by simpa using hquote)]
    simp [hfirst, Vocabulary.classify, hkeyword, htype, hcompound]

theorem ofLexeme_typeName (h : Vocabulary.namesType d text = true) :
    ofLexeme d text = { kind := .dataType, value := text } :=
  (Vocabulary.spelling_of_namesType h).1

theorem ofLexeme_number (h : startsNumber text = true) :
    ofLexeme d text = { kind := .numberLiteral, value := text } := by
  have hquote : text.toList.head? ≠ some d.identifierQuote := by
    intro hhead
    rw [startsNumber, hhead] at h
    revert h
    cases d <;> decide
  rw [ofLexeme, if_neg hquote, if_pos h]

end Token

namespace Atom

variable {d : Dialect}

/-- The token of an operand. -/
def token (a : Atom d) : Token :=
  Token.ofLexeme d a.lexeme

theorem event_lexeme (a : Atom d) : Event.ofLexeme d a.lexeme = .token a.token := by
  have hbrackets : a.lexeme ≠ "(" ∧ a.lexeme ≠ ")" := by
    cases a with
    | quoted name =>
        have hhead : (d.quoteIdentifier name).toList.head? = some d.identifierQuote := by
          simp [Dialect.quoteIdentifier]
        constructor
        all_goals
          intro heq
          rw [← lexeme, heq] at hhead
          revert hhead
          cases d <;> decide
    | bare name plain =>
        constructor
        all_goals
          rintro rfl
          revert plain
          cases d <;> decide
    | typeName name known =>
        constructor
        all_goals
          rintro rfl
          revert known
          cases d <;> decide
    | number digits starts =>
        constructor
        all_goals
          rintro rfl
          revert starts
          decide
  rw [Event.ofLexeme, if_neg hbrackets.1, if_neg hbrackets.2, token]

end Atom

namespace Connective

variable {d : Dialect}

/-- The token of an operator. -/
def token (op : Connective d) : Token :=
  Token.ofLexeme d op.symbol

theorem event_symbol (op : Connective d) : Event.ofLexeme d op.symbol = .token op.token := by
  obtain ⟨-, -, -, hopen, hclose⟩ := Vocabulary.spelling_of_operator op.known
  rw [Event.ofLexeme, if_neg hopen, if_neg hclose, token]

end Connective

/-- The token of a symbol before an operand. -/
def Sign.token (d : Dialect) (sign : Sign) : Token :=
  Token.ofLexeme d sign.symbol

namespace Expression

variable {d : Dialect}

/-- The trees of the tokens of an expression. -/
def trees : Expression d → List TokenTree
  | atom a => [.leaf a.token]
  | paren inner => [.block (.ofBracket .paren .start false) inner.trees]
  | not operand => .leaf (.ofLexeme d "NOT") :: operand.trees
  | signed sign operand => .leaf (sign.token d) :: operand.trees
  | binary left op right => left.trees ++ .leaf op.token :: right.trees

theorem build_lexemes (e : Expression d) (here : List TokenTree) (around : List TokenTree.Level)
    (more : List Event) :
    TokenTree.build here around (e.lexemes.map (Event.ofLexeme d) ++ more) =
      TokenTree.build (e.trees.reverse ++ here) around more := by
  induction e generalizing here around more with
  | atom a =>
      rw [lexemes, List.map_singleton, a.event_lexeme]
      rfl
  | paren inner ih =>
      have hopen : Event.ofLexeme d "(" = .opened .paren .start false := rfl
      have hclose : Event.ofLexeme d ")" = .closed .paren .start := rfl
      simp only [lexemes, List.map_cons, List.map_append, List.map_nil, List.cons_append,
        List.append_assoc, List.nil_append, hopen, hclose, TokenTree.build, ih, trees,
        List.append_nil, List.reverse_reverse, List.reverse_singleton]
  | not operand ih =>
      have hnot : Event.ofLexeme d "NOT" = .token (.ofLexeme d "NOT") := rfl
      simp only [lexemes, List.map_cons, List.cons_append, hnot, TokenTree.build, ih, trees,
        List.reverse_cons, List.append_assoc, List.nil_append]
  | signed sign operand ih =>
      have hsign : Event.ofLexeme d sign.symbol = .token (sign.token d) := by
        cases sign <;> rfl
      simp only [lexemes, List.map_cons, List.cons_append, hsign, TokenTree.build, ih, trees,
        List.reverse_cons, List.append_assoc, List.nil_append]
  | binary left op right ihl ihr =>
      simp only [lexemes, List.map_cons, List.map_append, List.cons_append, List.append_assoc,
        op.event_symbol, TokenTree.build, ihl, ihr, trees, List.reverse_cons, List.reverse_append,
        List.nil_append]

/-- The lexemes of an expression are its tokens. -/
theorem ofLexemes_lexemes (e : Expression d) : TokenTree.ofLexemes d e.lexemes = e.trees := by
  have hbuild := e.build_lexemes [] [] []
  rw [List.append_nil, List.append_nil] at hbuild
  rw [TokenTree.ofLexemes, TokenTree.ofEvents, hbuild, TokenTree.build, List.reverse_reverse]

end Expression

end DualSql
