import DualSql.Grammar.Parsing
import DualSql.Grammar.Rendering
import DualSql.Grammar.Standard
import DualSql.Grammar.Structured
import DualSql.Json.Reader

/-! # Syntax trees

The library in use: parsing a text, rendering a tree, writing and reading its
structured form, and carrying it from one dialect to the other.

Main definitions: `Tree.parse`, `Tree.toSql`, `Tree.ofJson`, `Tree.toDialect`. -/

namespace DualSql

/-- A syntax tree. -/
structure Tree where
  forest : Forest
  root : NodeId

namespace Tree

/-- The type of the root. -/
def tag (t : Tree) : String :=
  t.forest.tag t.root

/-- The dialect that the tree was made for. -/
def dialect (t : Tree) : Dialect :=
  t.forest.dialect

/-- The structured form. -/
def toJson (t : Tree) : Json :=
  t.forest.toJson t.root

/-- Whether two trees have the same types, field names and contents. -/
def same (a b : Tree) : Bool :=
  a.forest.same a.root b.forest b.root

/-- The outcome of a computation that gives a node, as a tree. -/
def ofParse (outcome : Except Error NodeId × ParseState) : Except Error Tree :=
  outcome.1.map fun root => { forest := outcome.2.forest, root }

/-- Parses a whole source as a node of the first type that matches. -/
def parseSource (d : Dialect) (types : List String) (source : Source) : Except Error Tree :=
  ofParse (Parsing.parseWhole { dialect := d } types
    (Parsing.start source Standard.registry d))

/-- Parses a text that arrives in pieces, lexing it as the parse asks for
tokens. -/
def parseChunks (d : Dialect) (types : List String) (chunks : List String) :
    Except Error Tree :=
  parseSource d types (Source.ofChunks d (.ofDialect d) chunks)

/-- Parses a text as a node of the first type that matches. -/
def parseAs (d : Dialect) (types : List String) (sql : String) : Except Error Tree :=
  parseChunks d types [sql]

/-- Parses a list of statements. -/
def parse (d : Dialect) (sql : String) : Except Error Tree :=
  parseAs d [Standard.script] sql

/-- Parses a text that arrives in pieces, once all of it is lexed. -/
def parseEager (d : Dialect) (types : List String) (chunks : List String) :
    Except Error Tree :=
  match lexEvents d (.ofDialect d) chunks with
  | (_, some e) => .error (.lex e)
  | (events, none) =>
    parseSource d types { stream := .ofCells (TokenTree.toCells (TokenTree.ofEvents events)) }

/-- The layout of a tree in a dialect. -/
def layout (t : Tree) (d : Dialect) (o : FormatOptions) : Except Error Layout :=
  (Rendering.render o d t.forest t.root { registry := Standard.registry }).1

/-- The text of a tree in a dialect. -/
def toSqlWith (t : Tree) (d : Dialect) (o : FormatOptions) : Except Error String :=
  (t.layout d o).bind (Layout.print o)

/-- The text of a tree on one line, in its own dialect. -/
def toSql (t : Tree) : Except Error String :=
  t.toSqlWith t.dialect {}

/-- The failure to read a structured tree as one of the types. -/
def noStructuredMatch (types : List String) (json : Json) : Error :=
  let found := (Structured.typeName? json).getD "unknown type"
  .noMatch (" or ".intercalate types) s!"in structured tree of {found}"

/-- Reads a structured tree as a node of one of the types. -/
def ofJson (d : Dialect) (types : List String) (json : Json) : Except Error Tree :=
  match Structured.readAny { dialect := d } types json
      (Structured.start Standard.registry d) with
  | (.error e, _) => .error e
  | (.ok none, _) => .error (noStructuredMatch types json)
  | (.ok (some root), s) => .ok { forest := s.forest, root }

/-- Reads the text of a structured tree. -/
def ofJsonText (d : Dialect) (types : List String) (text : String) : Except Error Tree :=
  match Json.ofText? text with
  | none => .error .json
  | some json => ofJson d types json

/-- Rebuilds a tree under the grammar of a dialect. -/
def toDialect (t : Tree) (d : Dialect) : Except Error Tree :=
  ofJson d [t.tag] t.toJson

end Tree

end DualSql
