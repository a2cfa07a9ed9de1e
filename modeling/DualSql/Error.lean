import DualSql.Dialect
import DualSql.Lexer.Error
import DualSql.Token

/-! # Errors

The causes of failure outside the scanner, and the message for each. -/

namespace DualSql

/-- The number of a node in its forest. -/
abbrev NodeId := Nat

/-- Misuse of a token stream. -/
inductive StreamError where
  /-- The block that the stream belongs to was looked at but not entered. -/
  | locked
  /-- A position that the stream cannot return to. -/
  | invalidSavepoint (index least greatest : Nat)
  deriving DecidableEq, Repr

/-- The message for a misuse of a stream. -/
def StreamError.message : StreamError → String
  | locked => "token stream is locked: its block token has only been peeked"
  | invalidSavepoint index least greatest =>
    s!"invalid savepoint {index}: valid range is {least}..={greatest}"

/-- Why an input does not fit where it has to. -/
inductive Mismatch where
  /-- A token stands where something else was expected. -/
  | unexpected (expected : String) (found : Token)
  /-- The tokens end where something was expected. -/
  | endOfInput (expected : String)
  /-- The fields of a structured node fit no shape of its type. -/
  | shape (tag : String) (fields : List String) (dialect : Dialect)
  deriving DecidableEq, Repr

/-- The mismatch in words. -/
def Mismatch.describe : Mismatch → String
  | unexpected expected found => s!"Unexpected {found.describe}: expected {expected}"
  | endOfInput expected => s!"Unexpected end of input: expected {expected}"
  | shape tag fields dialect =>
    let names := ", ".intercalate fields
    s!"{tag} object with fields [{names}] matches no {dialect.name} shape"

/-- What was expected, where that is known. -/
def Mismatch.expected? : Mismatch → Option String
  | unexpected expected _ | endOfInput expected => some expected
  | shape .. => none

/-- The token that was found, if there was one. -/
def Mismatch.found? : Mismatch → Option Token
  | unexpected _ found => some found
  | endOfInput _ | shape .. => none

/-- The rule of a grammar that an input fails. -/
structure RuleSite where
  node : String
  path : String
  dialect : Dialect
  deriving DecidableEq, Repr

/-- An input that does not fit, with the rule that demanded it. -/
structure ParseError where
  mismatch : Mismatch
  site : Option RuleSite := none
  deriving DecidableEq, Repr

/-- The message for an input that does not fit. -/
def ParseError.message (e : ParseError) : String :=
  let site := match e.site with
    | some site => s!" in {site.path} ({site.dialect.name})"
    | none => ""
  let place := match e.mismatch.found? with
    | some token => s!" at {token.position.describe}"
    | none => ""
  e.mismatch.describe ++ site ++ place

/-- What is wrong with the declaration of a grammar. -/
inductive GrammarError where
  | unknownType (tag : String)
  | namedComposite (path : String)
  | arityOnNonNode (path : String)
  | separatorWithoutArity (path : String)
  | fieldlessToken (path : String)
  | unnamedNode (path : String)
  | empty (path what : String)
  | unknownDependency (path field : String)
  | badClimb (path node field : String)
  | duplicateField (node field : String)
  deriving DecidableEq, Repr

/-- The message for a malformed grammar. -/
def GrammarError.message : GrammarError → String
  | unknownType tag => s!"unknown node type '{tag}'"
  | namedComposite path => s!"{path}: only token alternatives can be named"
  | arityOnNonNode path => s!"{path}: arity and separators apply to node rules only"
  | separatorWithoutArity path => s!"{path}: separator without arity"
  | fieldlessToken path => s!"{path}: token rule needs a name or a fixed value"
  | unnamedNode path => s!"{path}: node rule needs a name"
  | empty path what => s!"{path}: empty {what}"
  | unknownDependency path field =>
    s!"{path}: condition depends on '{field}', which is not declared earlier"
  | badClimb path node field => s!"{path}: climbing node '{node}' has no field '{field}'"
  | duplicateField node field =>
    s!"{node}: field '{field}' declared twice in one alternative"

/-- Why a tree cannot be rendered. -/
inductive RenderError where
  | missingField (node field : String)
  | noAlternative (node : String) (dialect : Dialect) (fields : List String)
  /-- A numbered placeholder that is not at the position of its number. -/
  | bindOrder (index position : Nat) (dialect : Dialect)
  deriving DecidableEq, Repr

/-- The message for a tree that cannot be rendered. -/
def RenderError.message : RenderError → String
  | missingField node field => s!"{node} is missing required field '{field}'"
  | noAlternative node dialect fields =>
    let names := ", ".intercalate fields
    s!"no {dialect.name} rendering of {node} fits its fields [{names}]"
  | bindOrder index position dialect =>
    s!"bind variable ${index} is parameter {position}; {dialect.name} binds are positional"

/-- Every cause of failure. -/
inductive Error where
  | lex (error : LexError)
  | stream (error : StreamError)
  | parse (error : ParseError)
  | grammar (error : GrammarError)
  | render (error : RenderError)
  /-- A node that has a parent was to be given another. -/
  | ownership (node parent : NodeId)
  /-- A node was to become its own ancestor. -/
  | cycle (node parent : NodeId)
  /-- An input fits none of the requested types. -/
  | noMatch (expected found : String)
  /-- A text that is not JSON. -/
  | json
  /-- The rules of a grammar call each other without end. -/
  | endless
  /-- A text is to be longer than any can be. The program breaks off. -/
  | capacity
  deriving DecidableEq, Repr

/-- The message for a failure. -/
def Error.message : Error → String
  | lex e => e.message
  | stream e => e.message
  | parse e => e.message
  | grammar e => e.message
  | render e => e.message
  | ownership node parent =>
    s!"node #{node} already belongs to #{parent}; release it before adopting it elsewhere"
  | cycle node parent => s!"node #{node} cannot be adopted by #{parent}, which it contains"
  | noMatch expected found => s!"no {expected} found {found}"
  | json => "JSON error"
  | endless => "the grammar recurses without reading input"
  | capacity => "capacity overflow"

end DualSql
