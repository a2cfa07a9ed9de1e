import DualSql.Grammar.Items
import DualSql.Grammar.Registry
import DualSql.Json.Value
import DualSql.Vocabulary

/-! # Structured trees

A node is written as an object that names its type and holds its fields in
their order. A terminal is a plain string, or an object where it carries
quotes or a modifier. Reading such an object looks for the first shape of the
type that fits: every member has a field, and every field that must be present
is.

Main definitions: `Forest.toJson`, `Structured.readAny`, `Structured.readType`. -/

namespace DualSql

/-- The member that names the type of a node. -/
def nodeName : String := "nodeName"

/-- A terminal as a member of a structured node. -/
def Terminal.toJson (t : Terminal) : Json :=
  if !t.quoted && t.modifier.isNone then .string t.value
  else .object <|
    [("value", .string t.value)] ++
    (if t.quoted then [("quoted", .bool true)] else []) ++
    (t.modifier.map fun m => ("modifier", Json.string m)).toList

namespace Forest

/-- A field as a member of a structured node, given how to write a node. -/
def valueToJson (child : NodeId → Json) : FieldValue → Json
  | .terminal t => t.toJson
  | .node id => child id
  | .list ids => .array (ids.map child)

/-- The structured form of the tree below a node, down to a depth. -/
def toJsonTo (f : Forest) : Nat → NodeId → Json
  | 0, id => .object [(nodeName, .string (f.tag id))]
  | depth + 1, id =>
    .ofMembers ((nodeName, .string (f.tag id)) ::
      (f.fields id).map fun (name, value) => (name, valueToJson (f.toJsonTo depth) value))

/-- The structured form of the tree below a node. -/
def toJson (f : Forest) (id : NodeId) : Json :=
  f.toJsonTo f.size id

end Forest

mutual

/-- The number of levels of a value. -/
def Json.depth : Json → Nat
  | .array items => 1 + Json.itemsDepth items
  | .object members => 1 + Json.membersDepth members
  | _ => 1

/-- The number of levels below an array. -/
def Json.itemsDepth : List Json → Nat
  | [] => 0
  | item :: rest => max item.depth (Json.itemsDepth rest)

/-- The number of levels below an object. -/
def Json.membersDepth : List (String × Json) → Nat
  | [] => 0
  | (_, value) :: rest => max value.depth (Json.membersDepth rest)

end

/-- The choices that structured trees are read under. -/
structure ReadOptions where
  dialect : Dialect
  /-- Makes an object that fits no shape of its type an error. -/
  strict : Bool := false
  deriving DecidableEq, Repr

/-- What reading works on. -/
structure ReadState where
  forest : Forest
  registry : Registry

/-- A computation that reads structured trees. -/
abbrev Structured := ExceptT Error (StateM ReadState)

namespace Structured

/-- Reading into an empty forest. -/
def start (registry : Registry) (d : Dialect) : ReadState where
  forest := { dialect := d }
  registry

/-- The schema of a type. -/
def schema (tag : String) (d : Dialect) : Structured Schema := fun s =>
  let (result, registry) := s.registry.schema tag d
  (result, { s with registry })

/-- Makes a node. -/
def build (tag : String) (fields : Fields) : Structured NodeId := fun s =>
  match s.forest.build tag fields with
  | .ok (id, forest) => (.ok id, { s with forest })
  | .error e => (.error e, s)

/-- The type that an object names. -/
def typeName? (tree : Json) : Option String :=
  (tree.get? nodeName).bind Json.string?

/-- The text, quoting and modifier that a value gives a terminal. -/
def terminalParts? : Json → Option (String × Bool × Option String)
  | .string text => some (text, false, none)
  | .object members => do
    let text ← members.lookup "value" >>= Json.string?
    let quoted ← (members.lookup "quoted").elim (some false) Json.bool?
    let modifier ← (members.lookup "modifier").elim (some none) (·.string?.map some)
    if members.all fun m => ["value", "quoted", "modifier"].contains m.1 then
      some (text, quoted, modifier)
    else none
  | _ => none

/-- The kind that a text has among the kinds of a field. An operator must be
one of the dialect. -/
def inferKind? (d : Dialect) (kinds : List TokenKind) (text : String) (quoted : Bool) :
    Option TokenKind :=
  if quoted then
    if kinds.contains .identifier then some .identifier else none
  else
    let upper := Text.toUpper text
    if kinds.contains (Vocabulary.classify d upper) then some (Vocabulary.classify d upper)
    else if kinds.contains .operator then
      if (Vocabulary.operator? d upper).isSome then some .operator else none
    else kinds.head?

/-- Whether a text is one of the values of a field, if it has any. The case of
words does not count. -/
def isAccepted (kind : TokenKind) (values : List String) (text : String) : Bool :=
  values.isEmpty || values.any fun v =>
    if kind.isWord then Text.eqIgnoringAsciiCase v text else v == text

/-- The terminal that a value gives a field. -/
def readTerminal? (d : Dialect) (kinds : List TokenKind) (values : List String) (value : Json) :
    Option Terminal := do
  let (text, quoted, modifier) ← terminalParts? value
  let kind ← inferKind? d kinds text quoted
  if isAccepted kind values text then some { kind, value := text, quoted, modifier } else none

/-- Reads the items of a list, given how to read a node. -/
def readItems (child : Json → Structured (Option NodeId)) (policy : Singletons)
    (ids : List NodeId) : List Json → Structured (Option (List NodeId))
  | [] => return some ids
  | item :: rest => do
    match ← child item with
    | none => return none
    | some id =>
      if policy.repeats (← get).forest ids id then return none
      else readItems child policy (ids ++ [id]) rest

/-- Reads the value of a field, given how to read a node. -/
def readValue (d : Dialect) (child : List String → Json → Structured (Option NodeId))
    (kind : FieldKind) (value : Json) : Structured (Option FieldValue) := do
  match kind with
  | .terminal kinds values => return (readTerminal? d kinds values value).map .terminal
  | .node types => return (← child types value).map .node
  | .list types arity singletons =>
    match value.items? with
    | none => return none
    | some items =>
      if arity.admits items.length then
        return (← readItems (child types) singletons [] items).map .list
      else return none

/-- Whether every member has a field in a shape. -/
def isCovered (shape : Shape) (members : List (String × Json)) : Bool :=
  members.all fun m => m.1 == nodeName || (shape.field? m.1).isSome

/-- Whether a field applies to an object. -/
def applies (field : FieldSchema) (members : List (String × Json)) : Bool :=
  field.condition.all (·.holds fun name => (members.lookup name).isSome)

/-- Reads the fields of a shape, given how to read a node. -/
def readFields (d : Dialect) (child : List String → Json → Structured (Option NodeId))
    (members : List (String × Json)) (fields : Fields) : Shape → Structured (Option Fields)
  | [] => return some fields
  | field :: rest => do
    match members.lookup field.name with
    | none =>
      if field.optional || !applies field members then readFields d child members fields rest
      else return none
    | some value =>
      if !applies field members then return none
      else
        match ← readValue d child field.kind value with
        | none => return none
        | some v => readFields d child members (fields ++ [(field.name, v)]) rest

/-- Reads a node by the first shape that fits, and drops what was made for
those before it. -/
def readShapes (d : Dialect) (child : List String → Json → Structured (Option NodeId))
    (tag : String) (members : List (String × Json)) :
    List Shape → Structured (Option NodeId)
  | [] => return none
  | shape :: rest => do
    let mark := (← get).forest.size
    let fields ← if isCovered shape members then readFields d child members [] shape
      else pure none
    match fields with
    | some fields => return some (← build tag fields)
    | none =>
      modify fun s => { s with forest := s.forest.truncate mark }
      readShapes d child tag members rest

/-- The error that an object fits no shape of its type. -/
def misshapen (d : Dialect) (tag : String) (members : List (String × Json)) : Error :=
  .parse {
    mismatch := .shape tag ((members.map (·.1)).filter (· ≠ nodeName)) d
    site := some ⟨tag, tag, d⟩ }

/-- Reads an object as a node of a type, given how to read the nodes in it. -/
def readObject (options : ReadOptions) (child : List String → Json → Structured (Option NodeId))
    (tag : String) (members : List (String × Json)) : Structured (Option NodeId) := do
  let schema ← schema tag options.dialect
  match ← readShapes options.dialect child tag members schema.shapes with
  | some id => return some id
  | none =>
    if options.strict then throw (misshapen options.dialect tag members) else return none

/-- Reads a value as a node of one of the types, down to a depth. -/
def readAnyTo (options : ReadOptions) : Nat → List String → Json → Structured (Option NodeId)
  | 0, _, _ => return none
  | depth + 1, types, tree => do
    match tree.members?, typeName? tree with
    | some members, some tag =>
      if !types.contains tag then return none
      else if ((← get).registry.type? tag).isNone then throw (.grammar (.unknownType tag))
      else readObject options (readAnyTo options depth) tag members
    | _, _ => return none

/-- Reads a value as a node of one of the types. The type that it names must
be one of them. -/
def readAny (options : ReadOptions) (types : List String) (tree : Json) :
    Structured (Option NodeId) :=
  readAnyTo options tree.depth types tree

/-- Reads a value as a node of a type. -/
def readType (options : ReadOptions) (tag : String) (tree : Json) :
    Structured (Option NodeId) :=
  match tree.members? with
  | some members =>
    if typeName? tree = some tag then
      readObject options (readAnyTo options tree.depth) tag members
    else return none
  | none => return none

/-- The reader in words, for diagnostics. -/
def inspect (options : ReadOptions) (f : Forest) : String :=
  "JsonReader \x7b " ++ s!"dialect: {options.dialect.label}, strict: {options.strict}, " ++
    s!"nodes: {f.size}, .. " ++ "\x7d"

end Structured

end DualSql
