import DualSql.Grammar.Items
import DualSql.Grammar.Registry
import DualSql.Stream.TokenTree

/-! # Parsing

Recursive descent over productions. A production that does not match leaves
the stream, the forest and the fields as they were, so that alternatives can
be tried one after the other; only an asserted production turns a mismatch
into an error. Operators are combined by precedence climbing.

Main definitions: `parseNode`, `parseAny`, `parseType`, `parseClimbing`,
`matchRule`.

## Implementation notes

Rules may refer to each other in any way, so the recursion takes a bound on
its depth. `Parsing.bound` is large enough for every grammar in which no type
leads back to itself before a token is consumed. -/

namespace DualSql

/-- The choices that a parse is made under. -/
structure ParseOptions where
  dialect : Dialect
  /-- Selects productions by path whose mismatch is an error, beside those declared so. -/
  assertWhen : Option (String → Bool) := none

/-- What a parse works on. -/
structure ParseState where
  source : Source
  forest : Forest
  registry : Registry

/-- A computation that parses. -/
abbrev Parsing := ExceptT Error (StateM ParseState)

namespace Parsing

/-- Reads from the stream. -/
def read {α : Type} (action : Reading α) : Parsing α := fun s =>
  let (result, source) := action s.source
  (result, { s with source })

/-- Reads from the stream of a block, which is put back afterwards. -/
def inside {α : Type} (contents : Stream) (action : Parsing α) : Parsing α := fun s =>
  let (result, t) := action { s with source := { s.source with stream := contents } }
  let outer := { s.source with feed := t.source.feed }
  (result, { t with source := outer.setCurrentContents t.source.stream })

/-- The schema of a type. -/
def schema (tag : String) (d : Dialect) : Parsing Schema := fun s =>
  let (result, registry) := s.registry.schema tag d
  (result, { s with registry })

/-- Makes a node. -/
def build (tag : String) (fields : Fields) : Parsing NodeId := fun s =>
  match s.forest.build tag fields with
  | .ok (id, forest) => (.ok id, { s with forest })
  | .error e => (.error e, s)

/-- The number of nodes made so far, to return to later. -/
def mark : Parsing Nat := do
  return (← get).forest.size

/-- Returns to a position of the stream and drops the nodes made since. -/
def backtrack (start mark : Nat) : Parsing Unit := do
  read (Source.restore start)
  modify fun s => { s with forest := s.forest.truncate mark }

/-- Whether a mismatch of a production is an error. -/
def asserts (options : ParseOptions) (p : Production) : Bool :=
  p.attrs.asserted || options.assertWhen.any (· p.info.path)

mutual

/-- What a production expects, in words. -/
def expectation : Production → String
  | .token _ kinds values =>
    if values.isEmpty then " or ".intercalate (kinds.map TokenKind.name)
    else " or ".intercalate (values.map fun v => s!"'{v}'")
  | .node _ types _ => " or ".intercalate types
  | .sequence _ parts => firstExpectation parts
  | .alternatives _ branches => " or ".intercalate (expectations branches)
  | .block _ bracket _ => s!"'{bracket.opener}'"

/-- What the first of several productions expects. -/
def firstExpectation : List Production → String
  | [] => ""
  | p :: _ => expectation p

/-- What several productions expect. -/
def expectations : List Production → List String
  | [] => []
  | p :: rest => expectation p :: expectations rest

end

/-- Fails with what a production expects and what stands there instead. -/
def assertionFailure {α : Type} (options : ParseOptions) (p : Production) (tag : String) :
    Parsing α := do
  let found ← read Source.peekSignificant
  throw (.parse {
    mismatch := Source.mismatch (expectation p) found
    site := some ⟨tag, p.info.path, options.dialect⟩ })

/-- Whether a token is of one of the kinds and, if there are values, has one of them. -/
def fits (kinds : List TokenKind) (values : List String) (t : Token) : Bool :=
  kinds.contains t.kind && (values.isEmpty || values.any fun v => t.is t.kind (some v))

/-- Matches a token and stores it in a field, if there is one. -/
def matchToken (kinds : List TokenKind) (values : List String) (name : Option String)
    (fields : Fields) : Parsing (Option Fields) := do
  read Source.skipTrivia
  match ← read (Source.peek 0) with
  | none => return none
  | some t =>
    if fits kinds values t then
      let _ ← read Source.next
      return some (fields ++ (name.map fun n => (n, .terminal (.ofToken t))).toList)
    else return none

/-- Matches the first of several tokens. -/
def matchTokens (name : Option String) (fields : Fields) :
    List Production → Parsing (Option Fields)
  | [] => return none
  | p :: rest => do
    match p.token? with
    | none => matchTokens name fields rest
    | some (kinds, values) =>
      match ← matchToken kinds values name fields with
      | some fields => return some fields
      | none => matchTokens name fields rest

/-- Whether a token is the separator of a list. -/
def isSeparator (separator : String) (t : Token) : Bool :=
  (t.kind == .punctuation || t.kind == .operator || t.kind == .keyword) &&
    Text.eqIgnoringAsciiCase t.value separator

/-- Consumes the separator of a list, if it comes next. -/
def eatSeparator (separator : String) : Parsing Bool := do
  read Source.skipTrivia
  if (← read (Source.peek 0)).any (isSeparator separator) then
    let _ ← read Source.next
    return true
  else return false

/-- Consumes the separator before an item, if the item needs one. -/
def separate (separator : Option String) (items : List NodeId) : Parsing Bool :=
  match separator with
  | none => return true
  | some s => if items.isEmpty then return true else eatSeparator s

/-- The least precedence that the right operand of an operator is read with. -/
def nextMinimum (info : OperatorInfo) : Nat :=
  match info.associativity with
  | .left => min (info.precedence + 1) 255
  | .right => info.precedence

/-- The operator that climbing takes next, if its precedence is high enough. -/
def climbingOperator (minimum : Nat) : Parsing (Option (Token × OperatorInfo)) := do
  match ← read Source.peekSignificant with
  | none => return none
  | some t =>
    match t.operator with
    | some info =>
      if info.binary && minimum ≤ info.precedence then return some (t, info) else return none
    | none => return none

mutual

/-- Parses a node of a type in the way of that type. -/
def parseNode (options : ParseOptions) (fuel : Nat) (tag : String) :
    Parsing (Option NodeId) := do
  match fuel with
  | 0 => throw .endless
  | fuel + 1 =>
    match (← get).registry.type? tag with
    | none => throw (.grammar (.unknownType tag))
    | some (.declared _) => parseType options fuel tag
    | some (.climbing operands climb _) =>
      let start ← read Source.savepoint
      let mark ← mark
      match ← parseClimbing options fuel operands climb 0 with
      | some id =>
        if (← get).forest.tag id = climb.node then return some id
        else
          backtrack start mark
          return none
      | none =>
        backtrack start mark
        return none

/-- Parses a node of the first type that matches. -/
def parseAny (options : ParseOptions) (fuel : Nat) (types : List String) :
    Parsing (Option NodeId) := do
  match fuel with
  | 0 => throw .endless
  | fuel + 1 =>
    match types with
    | [] => return none
    | tag :: rest =>
      match ← parseNode options fuel tag with
      | some id => return some id
      | none => parseAny options fuel rest

/-- Parses a node of a type by its schema. -/
def parseType (options : ParseOptions) (fuel : Nat) (tag : String) :
    Parsing (Option NodeId) := do
  match fuel with
  | 0 => throw .endless
  | fuel + 1 =>
    let schema ← schema tag options.dialect
    match schema.root with
    | none => return none
    | some root =>
      let start ← read Source.savepoint
      let mark ← mark
      match ← matchRule options fuel tag root [] with
      | some fields => return some (← build tag fields)
      | none =>
        backtrack start mark
        return none

/-- Parses operands with operators between them, down to a least precedence. -/
def parseClimbing (options : ParseOptions) (fuel : Nat) (operands : List String)
    (climb : Climb) (minimum : Nat) : Parsing (Option NodeId) := do
  match fuel with
  | 0 => throw .endless
  | fuel + 1 =>
    match ← parseAny options fuel operands with
    | none => return none
    | some left => return some (← climbFrom options fuel operands climb minimum left)

/-- Extends an operand by the operators that follow it. -/
def climbFrom (options : ParseOptions) (fuel : Nat) (operands : List String) (climb : Climb)
    (minimum : Nat) (left : NodeId) : Parsing NodeId := do
  match fuel with
  | 0 => throw .endless
  | fuel + 1 =>
    match ← climbingOperator minimum with
    | none => return left
    | some (operator, info) =>
      let before ← read Source.savepoint
      let mark ← mark
      read Source.skipTrivia
      let _ ← read Source.next
      match ← parseClimbing options fuel operands climb (nextMinimum info) with
      | none =>
        backtrack before mark
        return left
      | some right =>
        let whole ← build climb.node [(climb.left, .node left),
          (climb.operator, .terminal (.ofToken operator)), (climb.right, .node right)]
        climbFrom options fuel operands climb minimum whole

/-- Matches a production and adds the fields that it sets. Where its condition
does not hold it matches nothing. -/
def matchRule (options : ParseOptions) (fuel : Nat) (tag : String) (p : Production)
    (fields : Fields) : Parsing (Option Fields) := do
  match fuel with
  | 0 => throw .endless
  | fuel + 1 =>
    if !p.attrs.condition.all (·.holds fun name => (fields.lookup name).isSome) then
      return some fields
    let start ← read Source.savepoint
    let mark ← mark
    let matched ← match p with
      | .token info kinds values => matchToken kinds values info.attrs.name fields
      | .node info types climb => matchNode options fuel info types climb fields
      | .sequence _ parts => matchAll options fuel tag parts fields
      | .alternatives info branches =>
        if info.attrs.name.isSome then matchTokens info.attrs.name fields branches
        else matchFirst options fuel tag branches fields
      | .block _ bracket inner => matchBlock options fuel tag bracket inner fields
    match matched with
    | some fields => return some fields
    | none =>
      if !p.attrs.optional && asserts options p then assertionFailure options p tag
      else
        backtrack start mark
        return if p.attrs.optional then some fields else none

/-- Matches productions one after the other. -/
def matchAll (options : ParseOptions) (fuel : Nat) (tag : String) (parts : List Production)
    (fields : Fields) : Parsing (Option Fields) := do
  match fuel with
  | 0 => throw .endless
  | fuel + 1 =>
    match parts with
    | [] => return some fields
    | p :: rest =>
      match ← matchRule options fuel tag p fields with
      | some fields => matchAll options fuel tag rest fields
      | none => return none

/-- Matches the first production that does match. -/
def matchFirst (options : ParseOptions) (fuel : Nat) (tag : String)
    (branches : List Production) (fields : Fields) : Parsing (Option Fields) := do
  match fuel with
  | 0 => throw .endless
  | fuel + 1 =>
    match branches with
    | [] => return none
    | p :: rest =>
      match ← matchRule options fuel tag p fields with
      | some fields => return some fields
      | none => matchFirst options fuel tag rest fields

/-- Matches a block whose contents match a production completely. -/
def matchBlock (options : ParseOptions) (fuel : Nat) (tag : String) (bracket : Bracket)
    (inner : Production) (fields : Fields) : Parsing (Option Fields) := do
  match fuel with
  | 0 => throw .endless
  | fuel + 1 =>
    read Source.skipTrivia
    match ← read (Source.peek 0) with
    | none => return none
    | some t =>
      if t.kind ≠ bracket.tokenKind then return none
      else
        match (← read Source.nextCell).bind Cell.contents? with
        | none => return none
        | some contents =>
          inside contents do
            let start ← read Source.savepoint
            match ← matchRule options fuel tag inner fields with
            | some fields =>
              read Source.skipTrivia
              if ← read Source.isExhausted then return some fields
              else
                read (Source.restore start)
                return none
            | none =>
              read (Source.restore start)
              return none

/-- Matches a node or a list of nodes and stores it in its field. -/
def matchNode (options : ParseOptions) (fuel : Nat) (info : RuleInfo) (types : List String)
    (climb : Option Climb) (fields : Fields) : Parsing (Option Fields) := do
  match fuel with
  | 0 => throw .endless
  | fuel + 1 =>
    match info.attrs.name with
    | none => return none
    | some name =>
      match info.attrs.arity with
      | none =>
        match ← matchOperand options fuel info types climb with
        | some id => return some (fields ++ [(name, .node id)])
        | none => return none
      | some arity =>
        let items ← matchItems options fuel info types climb arity []
        if items.length < arity.least then return none
        else return some (fields ++ [(name, .list items)])

/-- Matches a single node of a node rule. -/
def matchOperand (options : ParseOptions) (fuel : Nat) (info : RuleInfo) (types : List String)
    (climb : Option Climb) : Parsing (Option NodeId) := do
  match fuel with
  | 0 => throw .endless
  | fuel + 1 =>
    match climb with
    | some climb => parseClimbing options fuel types climb (info.attrs.minPrecedence.getD 0)
    | none => parseAny options fuel types

/-- Extends the items of a list. It ends where no separator or no further item
follows, or where the item would be repeated. -/
def matchItems (options : ParseOptions) (fuel : Nat) (info : RuleInfo) (types : List String)
    (climb : Option Climb) (arity : Arity) (items : List NodeId) : Parsing (List NodeId) := do
  match fuel with
  | 0 => throw .endless
  | fuel + 1 =>
    if !arity.admitsMore items.length then return items
    else
      let before ← read Source.savepoint
      let mark ← mark
      if !(← separate info.attrs.separator items) then return items
      else
        match ← matchOperand options fuel info types climb with
        | none =>
          backtrack before mark
          return items
        | some id =>
          if info.attrs.singletons.repeats (← get).forest items id then
            backtrack before mark
            return items
          else matchItems options fuel info types climb arity (items ++ [id])

end

/-- A bound on the depth of a parse. -/
def bound (s : ParseState) : Nat :=
  (s.source.weight + 2) * (8 * s.registry.size + 32)

/-- Where the tokens go on, in words. -/
def whereabouts : Option Token → String
  | some t => s!"before {t.describe} at {t.position.describe}"
  | none => "at end of input"

/-- Parses the whole stream as a node of the first type that matches. -/
def parseWhole (options : ParseOptions) (types : List String) : Parsing NodeId := do
  let start ← read Source.savepoint
  let root ← parseAny options (bound (← get) + types.length) types
  read Source.skipTrivia
  let noMatch : Parsing NodeId := do
    throw (.noMatch (" or ".intercalate types) (whereabouts (← read (Source.peek 0))))
  match root with
  | some root =>
    if ← read Source.isExhausted then
      read (Source.commit start)
      return root
    else noMatch
  | none => noMatch

/-- The parse of a source into an empty forest. -/
def start (source : Source) (registry : Registry) (d : Dialect) : ParseState where
  source
  forest := { dialect := d }
  registry

/-- The parser in words, for diagnostics. -/
def inspect (options : ParseOptions) (f : Forest) : String :=
  s!"Parser \x7b dialect: {options.dialect.label}, options: ParseOptions \x7b " ++
    s!"assert_when: {options.assertWhen.isSome} \x7d, nodes: {f.size}, .. \x7d"

end Parsing

end DualSql
