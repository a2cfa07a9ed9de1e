import DualSql.Lexer.Options
import DualSql.Lexer.Recogniser
import DualSql.Text.Blank
import DualSql.Text.Numeric
import DualSql.Vocabulary

/-! # Lexemes

One lexeme at a time: from its first character and what follows, which token
or bracket it is and how far it reaches. Words are not yet joined to phrases
and brackets are not yet matched; the scanner does both.

Main definition: `lexeme`. -/

namespace DualSql

open Recogniser

/-- A token or a bracket, as the characters of a single lexeme spell it. -/
inductive Lexeme where
  | token (token : Token)
  | opening (bracket : Bracket)
  | closing (bracket : Bracket)
  deriving DecidableEq, Repr

/-- What is known before a lexeme is read. -/
structure LexContext where
  dialect : Dialect
  options : LexOptions
  /-- The place of the first character of the lexeme. -/
  start : Position
  /-- The character before the lexeme. -/
  before : Option Char
  deriving Repr

/-- Which escapes a backslash starts in a literal. -/
inductive EscapeStyle where
  | off
  | postgres
  | mysql
  deriving DecidableEq, Repr

/-- Whether a character can stand in a bare word after the first. -/
def isWordChar (c : Char) : Bool :=
  Text.isAlphanumeric c || c == '_' || c == '$'

/-- Whether a character can start a bare word. -/
def isWordStart (c : Char) : Bool :=
  Text.isAlphabetic c || c == '_'

/-- Whether a character is a hexadecimal digit. -/
def isHexDigit (c : Char) : Bool :=
  c.isDigit || ('a' ≤ c && c ≤ 'f') || ('A' ≤ c && c ≤ 'F')

/-- Whether a character is an octal digit. -/
def isOctalDigit (c : Char) : Bool :=
  '0' ≤ c && c ≤ '7'

/-- The value of a hexadecimal digit. -/
def hexValue (c : Char) : Nat :=
  if c.isDigit then c.toNat - '0'.toNat
  else if 'a' ≤ c && c ≤ 'f' then c.toNat - 'a'.toNat + 10
  else c.toNat - 'A'.toNat + 10

/-- The number that digits spell in a base. -/
def numeral (base : Nat) (digits : List Char) : Nat :=
  digits.foldl (fun n c => n * base + hexValue c) 0

/-- The character with a code, if the code is one. -/
def charOfCode? (code : Nat) : Option Char :=
  if code.isValidChar then some (Char.ofNat code) else none

namespace LexContext

/-- A token that starts where the lexeme does. -/
def token (ctx : LexContext) (kind : TokenKind) (value : List Char) : Token :=
  { kind, value := String.ofList value, position := ctx.start }

/-- A lexeme whose value is its text. -/
def plain (ctx : LexContext) (kind : TokenKind) (text : List Char) : Lexeme :=
  .token (ctx.token kind text)

/-- The failure for a malformed literal. -/
def invalid (ctx : LexContext) {α : Type} (what : Construct) (defect : Defect) : Recogniser α :=
  Recogniser.fail (.invalidLiteral what defect ctx.start)

end LexContext

/-- The characters that a backslash and a letter denote in a MySQL literal. -/
def mysqlEscape (letter : Char) : List Char :=
  if letter = '0' then ['\x00']
  else if letter = 'b' then ['\x08']
  else if letter = 'n' then ['\n']
  else if letter = 'r' then ['\r']
  else if letter = 't' then ['\t']
  else if letter = 'Z' then ['\x1a']
  else if letter = '%' ∨ letter = '_' then ['\\', letter]
  else [letter]

/-- The control character that a backslash and a letter denote in a Postgres literal. -/
def postgresControl? (letter : Char) : Option Char :=
  if letter = 'b' then some '\x08'
  else if letter = 'f' then some '\x0c'
  else if letter = 'n' then some '\n'
  else if letter = 'r' then some '\r'
  else if letter = 't' then some '\t'
  else none

/-- The base of a numeric escape, the digits that may follow its letter, and
the digits that the letter itself contributes. -/
def numericEscape? (letter : Char) : Option (Nat × Nat × List Char) :=
  if letter = 'x' then some (16, 2, [])
  else if letter = 'u' then some (16, 4, [])
  else if letter = 'U' then some (16, 8, [])
  else if isOctalDigit letter then some (8, 2, [letter])
  else none

/-- Reads at most `max` characters with a property. -/
def takeUpTo (max : Nat) (p : Char → Bool) : Recogniser (List Char) := fun closed text =>
  let run := (text.take max).takeWhile p
  if run.length < max ∧ run.length = text.length then atEnd closed (.done run run.length)
  else .done run run.length

/-- What follows the backslash and the letter of a Postgres escape, decoded. -/
def postgresEscape (ctx : LexContext) (letter : Char) : Recogniser Char :=
  match postgresControl? letter with
  | some c => pure c
  | none =>
    match numericEscape? letter with
    | none => pure letter
    | some (base, max, first) => do
      let more ← takeUpTo max (if base = 16 then isHexDigit else isOctalDigit)
      let digits := first ++ more
      if digits.isEmpty then pure letter
      else if (letter = 'u' ∨ letter = 'U') ∧ more.length ≠ max then
        ctx.invalid .stringLiteral (.shortEscape letter max)
      else
        match charOfCode? (numeral base digits) with
        | some c => pure c
        | none => ctx.invalid .stringLiteral (.escapeValue letter digits)

/-- The value of a quoted lexeme, from behind its opening quote to behind its
closing one. A doubled quote stands for itself. -/
def quotedBody (ctx : LexContext) (quote : Char) (style : EscapeStyle) (what : Construct)
    (closed : Bool) (text : List Char) : Scan (List Char) :=
  let unfinished : Scan (List Char) := atEnd closed (.fail (.unterminated what ctx.start))
  match text with
  | [] => unfinished
  | c :: rest =>
    if c = quote then
      match rest with
      | [] => atEnd closed (.done [] 1)
      | q :: rest' =>
        if q = quote then
          ((quotedBody ctx quote style what closed rest').map (quote :: ·)).widen 2
        else .done [] 1
    else if c = '\\' ∧ style ≠ .off then
      match rest with
      | [] => unfinished
      | letter :: rest' =>
        if style = .mysql then
          ((quotedBody ctx quote style what closed rest').map (mysqlEscape letter ++ ·)).widen 2
        else
          match postgresEscape ctx letter closed rest' with
          | .more => .more
          | .fail e => .fail e
          | .done c n =>
            ((quotedBody ctx quote style what closed (rest'.drop n)).map (c :: ·)).widen (2 + n)
    else ((quotedBody ctx quote style what closed rest).map (c :: ·)).widen 1
termination_by text.length
decreasing_by all_goals simp_all; try omega

/-- A quoted lexeme, opening quote included. -/
def quoted (ctx : LexContext) (quote : Char) (style : EscapeStyle) (what : Construct) :
    Recogniser (List Char) := do
  let _ ← take 1
  quotedBody ctx quote style what

/-- The escapes that are active in a string literal with the given modifier. -/
def LexContext.escapes (ctx : LexContext) (modifier : Option String) : EscapeStyle :=
  if modifier = some "E" then .postgres
  else if !ctx.options.backslashEscapes then .off
  else
    match ctx.dialect with
    | .postgres => .postgres
    | .mysql => .mysql

/-- A string literal from behind its opening quote. -/
def stringLexeme (ctx : LexContext) (quote : Char) (modifier : Option String) :
    Recogniser Lexeme := do
  let value ← quotedBody ctx quote (ctx.escapes modifier) .stringLiteral
  pure <| .token { ctx.token .stringLiteral value with delimiter := quote.toString, modifier }

/-- A quoted identifier from behind its opening quote. -/
def identifierLexeme (ctx : LexContext) (quote : Char) : Recogniser Lexeme := do
  let value ← quotedBody ctx quote .off .quotedIdentifier
  if value.isEmpty then ctx.invalid .quotedIdentifier .emptyName
  else pure <| .token { ctx.token .identifier value with delimiter := quote.toString }

/-- Fails at the first character that is no digit of a hexadecimal or bit literal. -/
def checkDigits (ctx : LexContext) (what : Construct) (digits : List Char) : Recogniser Unit :=
  let valid := if what = .hexLiteral then isHexDigit else fun c => c == '0' || c == '1'
  match digits.find? fun c => !valid c with
  | some bad => ctx.invalid what (.badDigit bad)
  | none => pure ()

/-- The digits of `X'..'` or `B'..'` from behind the opening quote. -/
def quotedDigits (ctx : LexContext) (kind : TokenKind) (marker : String) : Recogniser Lexeme := do
  let what := if kind = .hexLiteral then Construct.hexLiteral else .bitLiteral
  let digits ← quotedBody ctx '\'' .off what
  checkDigits ctx what digits
  pure <| .token { ctx.token kind digits with delimiter := "'", modifier := marker }

/-- The rest of a block comment inside `depth` open ones. -/
def blockCommentBody (ctx : LexContext) (closed : Bool) (depth : Nat) :
    List Char → Scan Unit
  | [] => atEnd closed (.fail (.unterminated .blockComment ctx.start))
  | [_] => atEnd closed (.fail (.unterminated .blockComment ctx.start))
  | c :: d :: rest =>
    if c = '/' ∧ d = '*' ∧ ctx.dialect.nestedComments then
      (blockCommentBody ctx closed (depth + 1) rest).widen 2
    else if c = '*' ∧ d = '/' then
      if depth ≤ 1 then .done () 2
      else (blockCommentBody ctx closed (depth - 1) rest).widen 2
    else (blockCommentBody ctx closed depth (d :: rest)).widen 1

/-- A block comment from behind its first slash. -/
def blockComment (ctx : LexContext) : Recogniser Lexeme := do
  let text ← covered do
    let _ ← take 1
    fun closed text => blockCommentBody ctx closed 1 text
  pure (ctx.plain .comment ('/' :: text))

/-- Whether two dashes start a comment. MySQL asks for a blank or a control
character behind them. -/
def dashesStartComment (ctx : LexContext) : Recogniser Bool :=
  match ctx.dialect with
  | .postgres => pure true
  | .mysql => do
    match ← look 1 with
    | none => pure true
    | some c => pure (Text.isBlank c || Text.isControl c)

/-- A comment to the end of the line. -/
def lineComment (ctx : LexContext) (first : Char) : Recogniser Lexeme := do
  let text ← takeWhile (· != '\n')
  pure (ctx.plain .comment (first :: text))

/-- The symbol that a run of operator characters starts with, with its info. -/
def operatorLexeme (ctx : LexContext) (first : Char) : Recogniser Lexeme := do
  let run ← ahead (takeWhile (Vocabulary.isOperatorChar ctx.dialect))
  match Vocabulary.longestSymbol ctx.dialect (first :: run) with
  | none => Recogniser.fail (.unexpectedCharacter first ctx.start)
  | some symbol =>
    let rest ← take (symbol.length - 1)
    pure <| .token { ctx.token .operator (first :: rest) with
      operator := Vocabulary.operator? ctx.dialect symbol }

/-- The body of a dollar-quoted string up to its closing tag. -/
def dollarBody (ctx : LexContext) (tag : List Char) (closed : Bool) :
    List Char → Scan (List Char)
  | [] => atEnd closed (.fail (.unterminated .dollarString ctx.start))
  | c :: rest =>
    if tag.isPrefixOf (c :: rest) then .done [] tag.length
    else ((dollarBody ctx tag closed rest).map (c :: ·)).widen 1

/-- A dollar-quoted string whose opening tag takes the next `width` characters. -/
def dollarString (ctx : LexContext) (width : Nat) : Recogniser Lexeme := do
  let name ← take width
  let tag := '$' :: name
  let value ← dollarBody ctx tag
  pure <| .token { ctx.token .stringLiteral value with delimiter := String.ofList tag }

/-- A Postgres dollar: a placeholder, a dollar-quoted string or a bare symbol. -/
def dollarLexeme (ctx : LexContext) : Recogniser Lexeme := do
  let bare := ctx.plain .operator ['$']
  match ← look 0 with
  | none => pure bare
  | some c =>
    if c.isDigit then
      let digits ← takeWhile Char.isDigit
      pure (ctx.plain .bindVariable digits)
    else if c = '$' then dollarString ctx 1
    else if isWordStart c then
      let name ← ahead (takeWhile fun c => Text.isAlphanumeric c || c == '_')
      if (← look name.length) = some '$' then dollarString ctx (name.length + 1)
      else pure bare
    else pure bare

/-- The name of a MySQL variable from behind its marker. -/
def variableName (ctx : LexContext) (marker : String) : Recogniser Lexeme := do
  let unexpected : Recogniser Lexeme := Recogniser.fail (.unexpectedCharacter '@' ctx.start)
  match ← look 0 with
  | none => unexpected
  | some c =>
    if c = '\'' ∨ c = '"' ∨ c = '\x60' then
      let value ← quoted ctx c .off .variableName
      pure <| .token { ctx.token .variable value with
        delimiter := c.toString, modifier := marker }
    else if Text.isAlphanumeric c || c == '_' || c == '$' then
      let value ← takeWhile fun c => isWordChar c || c == '.'
      pure <| .token { ctx.token .variable value with modifier := marker }
    else unexpected

/-- A MySQL variable from behind its first at sign. -/
def variableLexeme (ctx : LexContext) : Recogniser Lexeme := do
  if (← look 0) = some '@' then
    let _ ← take 1
    variableName ctx "@@"
  else variableName ctx "@"

/-- Whether a dot starts a number: a digit follows and no name or bracket ends before it. -/
def dotStartsNumber (ctx : LexContext) : Recogniser Bool :=
  let followsName := ctx.before.any fun c =>
    Text.isAlphanumeric c || c == '_' || c == '"' || c == '\x60' || c == ')' || c == ']'
  if followsName then pure false
  else do pure ((← look 0).any Char.isDigit)

/-- The digits of an exponent. -/
def exponentDigits (ctx : LexContext) : Recogniser Unit := do
  if (← look 0).any Char.isDigit then
    let _ ← takeWhile Char.isDigit
    pure ()
  else ctx.invalid .number .noExponent

/-- The exponent of a number, if it has one. -/
def exponent (ctx : LexContext) : Recogniser Unit := do
  let mark ← look 0
  if mark = some 'e' ∨ mark = some 'E' then
    let _ ← take 1
    let sign ← look 0
    if sign = some '+' ∨ sign = some '-' then
      let _ ← take 1
      exponentDigits ctx
    else exponentDigits ctx
  else pure ()

/-- What stands behind the point of a number. -/
def fraction (ctx : LexContext) : Recogniser Unit := do
  let _ ← takeWhile Char.isDigit
  if (← look 0) = some '.' then ctx.invalid .number .secondPoint
  else exponent ctx

/-- The rest of a number behind its first character. -/
def numberTail (ctx : LexContext) (first : Char) : Recogniser Unit := do
  if first = '.' then fraction ctx
  else
    let _ ← takeWhile Char.isDigit
    if (← look 0) = some '.' then
      let _ ← take 1
      fraction ctx
    else exponent ctx

/-- A decimal number. -/
def numberLexeme (ctx : LexContext) (first : Char) : Recogniser Lexeme := do
  let rest ← covered (numberTail ctx first)
  pure (ctx.plain .numberLiteral (first :: rest))

/-- A MySQL number in base sixteen or two, from behind its leading zero. -/
def basedLexeme (ctx : LexContext) (letter : Char) : Recogniser Lexeme := do
  let (kind, what, marker) :=
    if letter = 'x' then (TokenKind.hexLiteral, Construct.hexLiteral, "0x")
    else (.bitLiteral, .bitLiteral, "0b")
  let _ ← take 1
  let digits ← takeWhile fun c => Text.isAlphanumeric c || c == '_'
  if digits.isEmpty then ctx.invalid what .noDigits
  else
    checkDigits ctx what digits
    pure <| .token { ctx.token kind digits with modifier := marker }

/-- The literal that a word directly before a quote introduces, if it does. -/
def introducedLiteral? (ctx : LexContext) (word : List Char) : Option (Recogniser Lexeme) :=
  let upper := word.map Char.toUpper
  let behindQuote (p : Recogniser Lexeme) : Recogniser Lexeme := do
    let _ ← take 1
    p
  if upper = ['E'] ∧ ctx.dialect = .postgres then
    some (behindQuote (stringLexeme ctx '\'' (some "E")))
  else if upper = ['N'] then some (behindQuote (stringLexeme ctx '\'' (some "N")))
  else if upper = ['X'] then some (behindQuote (quotedDigits ctx .hexLiteral "X"))
  else if upper = ['B'] then some (behindQuote (quotedDigits ctx .bitLiteral "B"))
  else if ctx.dialect = .mysql ∧ 1 < word.length ∧ word.head? = some '_' then
    some (behindQuote (stringLexeme ctx '\'' (some (String.ofList word))))
  else none

/-- A bare word: keyword, name of a data type or identifier. Only identifiers
keep their case. -/
def bareWord (ctx : LexContext) (word : List Char) : Lexeme :=
  let upper := Text.toUpper (String.ofList word)
  match Vocabulary.classify ctx.dialect upper with
  | .identifier => ctx.plain .identifier word
  | kind => ctx.plain kind upper.toList

/-- A word, or the literal that it introduces. -/
def wordLexeme (ctx : LexContext) (first : Char) : Recogniser Lexeme := do
  let rest ← takeWhile isWordChar
  let word := first :: rest
  if (← look 0) = some '\'' then
    match introducedLiteral? ctx word with
    | some literal => literal
    | none => pure (bareWord ctx word)
  else pure (bareWord ctx word)

/-- A lexeme that starts with neither a comment nor any other character whose
meaning depends on the next one. -/
def ordinaryLexeme (ctx : LexContext) (c : Char) : Recogniser Lexeme :=
  let mysql := ctx.dialect = .mysql
  if c = '#' ∧ mysql then lineComment ctx c
  else if c = '\'' then stringLexeme ctx c none
  else if c = '"' then
    if ¬mysql ∨ ctx.options.ansiQuotes then identifierLexeme ctx c else stringLexeme ctx c none
  else if c = '\x60' ∧ mysql then identifierLexeme ctx c
  else if c = '$' ∧ ctx.dialect.dollarQuoting then dollarLexeme ctx
  else if c = '?' ∧ mysql then pure (ctx.plain .bindVariable [c])
  else if c = '@' ∧ mysql then variableLexeme ctx
  else if c.isDigit then numberLexeme ctx c
  else if c = ',' ∨ c = ';' ∨ c = '.' then pure (ctx.plain .punctuation [c])
  else
    match Bracket.ofOpener? c, Bracket.ofCloser? c with
    | some b, _ => pure (.opening b)
    | none, some b => pure (.closing b)
    | none, none =>
      if isWordStart c then wordLexeme ctx c
      else if Vocabulary.isOperatorChar ctx.dialect c then operatorLexeme ctx c
      else Recogniser.fail (.unexpectedCharacter c ctx.start)

/-- The lexeme that starts with a given character, read from behind that
character. -/
def lexeme (ctx : LexContext) (c : Char) : Recogniser Lexeme := do
  if Text.isBlank c then
    let text ← takeWhile Text.isBlank
    pure (ctx.plain .whitespace (c :: text))
  else if c = '-' then
    if (← look 0) = some '-' then
      if ← dashesStartComment ctx then lineComment ctx c else ordinaryLexeme ctx c
    else ordinaryLexeme ctx c
  else if c = '/' then
    if (← look 0) = some '*' then
      blockComment ctx
    else ordinaryLexeme ctx c
  else if c = '0' ∧ ctx.dialect = .mysql then
    match ← look 0 with
    | some 'x' => basedLexeme ctx 'x'
    | some 'b' => basedLexeme ctx 'b'
    | _ => ordinaryLexeme ctx c
  else if c = '.' then
    if ← dotStartsNumber ctx then numberLexeme ctx c else ordinaryLexeme ctx c
  else ordinaryLexeme ctx c

end DualSql
