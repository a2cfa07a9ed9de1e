import DualSql.Grammar.Standard
import DualSql.Layout
import DualSql.Text.Numeral

/-! # Arguments of the command line

Options are written `--name value` or `--name=value`, those with a letter also
`-n value`, `-nvalue` or `-n=value`; letters without a value can be joined.
An option is given at most once. Everything after `--` is an operand.

Main definition: `Invocation.ofArguments`. -/

namespace DualSql

/-- An option of a command. -/
structure Switch where
  name : String
  letter : Option Char := none
  /-- The values that the option takes; none if it takes no value. -/
  accepts : Option (String → Bool) := none

/-- Why arguments lead to no command. -/
inductive Refusal where
  /-- The user asked for help. -/
  | help
  /-- The arguments are wrong. -/
  | usage
  deriving DecidableEq, Repr

/-- The options and operands of a command. -/
structure Given where
  options : List (String × String) := []
  operands : List String := []
  /-- The subcommand and its arguments. -/
  command : Option (String × List String) := none
  deriving DecidableEq, Repr

/-- What a command can be given. -/
structure Usage where
  switches : List Switch
  /-- Options that ask for help. -/
  helpNames : List String := ["help"]
  helpLetters : List Char := ['h']
  /-- The number of operands that are allowed. -/
  operands : Nat := 1
  subcommands : List String := []

namespace Given

/-- Adds an option that was not given before. -/
def option (g : Given) (name value : String) : Except Refusal Given :=
  if (g.options.lookup name).isSome then .error .usage
  else .ok { g with options := g.options ++ [(name, value)] }

/-- Adds an option with a value that it takes. -/
def valued (g : Given) (s : Switch) (value : String) : Except Refusal Given :=
  if s.accepts.any (· value) then g.option s.name value else .error .usage

/-- Adds an operand, which is not empty, if another one is allowed. -/
def operand (g : Given) (u : Usage) (text : String) : Except Refusal Given :=
  if g.operands.length < u.operands ∧ text ≠ "" then
    .ok { g with operands := g.operands ++ [text] }
  else .error .usage

/-- Whether an option was given. -/
def has (g : Given) (name : String) : Bool :=
  (g.options.lookup name).isSome

end Given

namespace Usage

/-- Splits a text at the first equals sign. -/
def splitValue : List Char → List Char × Option (List Char)
  | [] => ([], none)
  | '=' :: value => ([], some value)
  | c :: rest =>
    let (name, value) := splitValue rest
    (c :: name, value)

/-- Adds an option that is written out. If its value is still to come, the
option is returned. -/
def longOption (u : Usage) (g : Given) (body : List Char) :
    Except Refusal (Given × Option Switch) :=
  let (name, value) := splitValue body
  let name := String.ofList name
  if u.helpNames.contains name then .error (if value.isSome then .usage else .help)
  else
    match u.switches.find? (·.name = name), value with
    | none, _ => .error .usage
    | some s, some value =>
      if s.accepts.isSome then (g.valued s (String.ofList value)).map (·, none)
      else .error .usage
    | some s, none =>
      if s.accepts.isSome then .ok (g, some s) else (g.option s.name "").map (·, none)

/-- Adds options that are written as joined letters. If the value of the last
one is still to come, that option is returned. -/
def letters (u : Usage) (g : Given) : List Char → Except Refusal (Given × Option Switch)
  | [] => .ok (g, none)
  | c :: rest =>
    if u.helpLetters.contains c then .error .help
    else
      match u.switches.find? (·.letter = some c) with
      | none => .error .usage
      | some s =>
        if s.accepts.isNone then do
          let g ← g.option s.name ""
          letters u g rest
        else
          match rest with
          | [] => .ok (g, some s)
          | '=' :: value => (g.valued s (String.ofList value)).map (·, none)
          | value => (g.valued s (String.ofList value)).map (·, none)

/-- Whether an argument can be the value of the option before it. -/
def isValue (text : String) : Bool :=
  text.toList.head? ≠ some '-' || text = "-"

/-- Sorts arguments into options, operands and a subcommand. `awaiting` is an
option whose value comes next. -/
def sort (u : Usage) (g : Given) (awaiting : Option Switch) :
    List String → Except Refusal Given
  | [] => if awaiting.isSome then .error .usage else .ok g
  | argument :: rest =>
    match awaiting with
    | some s =>
      if isValue argument then do sort u (← g.valued s argument) none rest else .error .usage
    | none =>
      if u.subcommands.contains argument then .ok { g with command := some (argument, rest) }
      else if argument = "--" then rest.foldlM (·.operand u) g
      else
        match argument.toList with
        | '-' :: '-' :: body => do
          let (g, awaiting) ← u.longOption g body
          sort u g awaiting rest
        | '-' :: c :: cs => do
          let (g, awaiting) ← u.letters g (c :: cs)
          sort u g awaiting rest
        | _ => do sort u (← g.operand u argument) none rest

end Usage

/-- What the program is asked to do. -/
inductive Action where
  /-- Lists tokens. -/
  | tokenize (whitespace comments : Bool)
  /-- Writes the structured tree. -/
  | parse (type : String) (compact : Bool)
  /-- Writes the text in its own dialect. -/
  | format (options : FormatOptions)
  /-- Writes the text in another dialect. -/
  | convert (target : Dialect) (options : FormatOptions)
  /-- Writes the text of a structured tree. -/
  | render (type : String) (options : FormatOptions)
  deriving DecidableEq, Repr

/-- A call of the program. -/
structure Invocation where
  dialect : Dialect
  /-- The number of bytes that are read at once. -/
  chunkSize : Nat
  /-- The file that is read, if it is not the standard input. -/
  input : Option String
  action : Action
  deriving DecidableEq, Repr

namespace Invocation

/-- Whether a text names a dialect. -/
def namesDialect (text : String) : Bool :=
  (Dialect.ofName text).toOption.isSome

/-- Whether a text spells a size. -/
def spellsSize (text : String) : Bool :=
  (Text.word64? text).isSome

/-- The options for the layout of text. -/
def layoutSwitches : List Switch :=
  [{ name := "pretty" }, { name := "line-width", accepts := some spellsSize },
    { name := "lowercase" }, { name := "minimal-parens" }]

/-- The option for the type of a node. -/
def typeSwitch : Switch :=
  { name := "type", letter := some 't', accepts := some fun _ => true }

/-- The subcommands and their options. -/
def subcommands : List (String × List Switch) :=
  [("tokenize", [{ name := "whitespace" }, { name := "comments" }]),
    ("parse", [typeSwitch, { name := "compact" }]),
    ("format", layoutSwitches),
    ("convert", { name := "to", accepts := some namesDialect } :: layoutSwitches),
    ("render", typeSwitch :: layoutSwitches)]

/-- What stands before the subcommand. -/
def usage : Usage where
  switches := [
    { name := "dialect", letter := some 'd', accepts := some namesDialect },
    { name := "chunk-size", accepts := some spellsSize },
    { name := "verbose", letter := some 'v' }]
  helpNames := ["help", "version"]
  helpLetters := ['h', 'V']
  operands := 0
  subcommands := "help" :: subcommands.map (·.1)

/-- The size that an option gives. -/
def size (g : Given) (name : String) (default : Nat) : Nat :=
  ((g.options.lookup name).bind Text.word64?).getD default

/-- The dialect that an option gives. -/
def dialect? (g : Given) (name : String) : Option Dialect :=
  (g.options.lookup name).bind fun text => (Dialect.ofName text).toOption

/-- The type of node that an option gives. -/
def nodeType (g : Given) : String :=
  (g.options.lookup "type").getD Standard.script

/-- The layout that options give. -/
def layout (g : Given) : FormatOptions where
  pretty := g.has "pretty"
  lineWidth := size g "line-width" 80
  minimalParens := g.has "minimal-parens"
  keywordCase := if g.has "lowercase" then .lower else .upper

/-- The action of a subcommand with its options. -/
def action? (command : String) (g : Given) : Option Action :=
  match command with
  | "tokenize" => some (.tokenize (g.has "whitespace") (g.has "comments"))
  | "parse" => some (.parse (nodeType g) (g.has "compact"))
  | "format" => some (.format (layout g))
  | "convert" => (dialect? g "to").map (.convert · (layout g))
  | "render" => some (.render (nodeType g) (layout g))
  | _ => none

/-- The answer to a request for help on subcommands. -/
def help (topics : List String) : Refusal :=
  match topics with
  | [] => .help
  | [topic] => if usage.subcommands.contains topic then .help else .usage
  | _ => .usage

/-- The dialect that was asked for, on the command line or else by default. -/
def chosenDialect (g : Given) (default : Option String) : Except Refusal Dialect :=
  match dialect? g "dialect", default with
  | some d, _ => .ok d
  | none, some name => (Dialect.ofName name).mapError fun _ => .usage
  | none, none => .ok .postgres

/-- The call that arguments describe, where the surroundings may give the
dialect that is taken by default. -/
def ofArguments (arguments : List String) (defaultDialect : Option String) :
    Except Refusal Invocation := do
  let top ← usage.sort {} none arguments
  match top.command with
  | none => throw .usage
  | some (command, rest) =>
    match subcommands.lookup command with
    | none => throw (help rest)
    | some switches =>
      let sub ← Usage.sort { switches } {} none rest
      match action? command sub with
      | none => throw .usage
      | some action =>
        return {
          dialect := ← chosenDialect top defaultDialect
          chunkSize := size top "chunk-size" 8192
          input := sub.operands.head?
          action }

end Invocation

end DualSql
