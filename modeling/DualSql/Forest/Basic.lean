import DualSql.Error
import DualSql.Forest.Terminal

/-! # Forests of syntax trees

The nodes of one or more trees are numbered in the order in which they are
made. A node names its children in its fields and its parent in a link; a
node that has a parent must be released before it is given another.

Main definitions: `Forest.build`, `Forest.adopt`, `Forest.pushChild`,
`Forest.release`, `Forest.removeField`, `Forest.truncate`. -/

namespace DualSql

/-- The value of a field. -/
inductive FieldValue where
  | terminal (terminal : Terminal)
  | node (id : NodeId)
  | list (ids : List NodeId)
  deriving DecidableEq, Repr

namespace FieldValue

/-- The terminal that a field holds. -/
def terminal? : FieldValue → Option Terminal
  | terminal t => some t
  | _ => none

/-- The single child that a field holds. -/
def node? : FieldValue → Option NodeId
  | node id => some id
  | _ => none

/-- All children that a field holds. -/
def children : FieldValue → List NodeId
  | terminal _ => []
  | node id => [id]
  | list ids => ids

end FieldValue

/-- The fields of a node in the order in which they were set. -/
abbrev Fields := List (String × FieldValue)

namespace Fields

/-- All children, field by field. -/
def children (fields : Fields) : List NodeId :=
  fields.flatMap fun f => f.2.children

/-- Sets a field: one that is present keeps its place, a new one comes last. -/
def set (name : String) (value : FieldValue) : Fields → Fields
  | [] => [(name, value)]
  | (n, v) :: rest => if n = name then (n, value) :: rest else (n, v) :: set name value rest

/-- Removes the first field with a name. -/
def erase (name : String) : Fields → Fields
  | [] => []
  | (n, v) :: rest => if n = name then rest else (n, v) :: erase name rest

/-- Takes a child out of every field; a field that held it alone is removed. -/
def without (child : NodeId) (fields : Fields) : Fields :=
  fields.filterMap fun (name, value) =>
    match value with
    | .terminal t => some (name, .terminal t)
    | .node id => if id = child then none else some (name, .node id)
    | .list ids => some (name, .list (ids.filter (· ≠ child)))

end Fields

/-- A node of a syntax tree. -/
structure Node where
  tag : String
  fields : Fields
  parent : Option NodeId := none
  deriving DecidableEq, Repr

/-- The nodes of one or more syntax trees. -/
structure Forest where
  dialect : Dialect
  nodes : Array Node := #[]
  deriving Repr

namespace Forest

/-- The number of nodes. -/
def size (f : Forest) : Nat :=
  f.nodes.size

/-- The node with a number. -/
def node? (f : Forest) (id : NodeId) : Option Node :=
  f.nodes[id]?

/-- The type of a node; empty for a number that is not in use. -/
def tag (f : Forest) (id : NodeId) : String :=
  (f.node? id).elim "" Node.tag

/-- The fields of a node; none for a number that is not in use. -/
def fields (f : Forest) (id : NodeId) : Fields :=
  (f.node? id).elim [] Node.fields

/-- The parent of a node. -/
def parent? (f : Forest) (id : NodeId) : Option NodeId :=
  (f.node? id).bind Node.parent

/-- The value of a field. -/
def field? (f : Forest) (id : NodeId) (name : String) : Option FieldValue :=
  (f.fields id).lookup name

/-- The terminal in a field. -/
def terminal? (f : Forest) (id : NodeId) (name : String) : Option Terminal :=
  (f.field? id name).bind FieldValue.terminal?

/-- The single child in a field. -/
def child? (f : Forest) (id : NodeId) (name : String) : Option NodeId :=
  (f.field? id name).bind FieldValue.node?

/-- The children in a field. -/
def children (f : Forest) (id : NodeId) (name : String) : List NodeId :=
  (f.field? id name).elim [] FieldValue.children

/-- The nodes without a parent, oldest first. -/
def roots (f : Forest) : List NodeId :=
  (List.range f.size).filter fun id => (f.parent? id).isNone

/-- Changes the parent link of a node. -/
def setParent (f : Forest) (id : NodeId) (parent : Option NodeId) : Forest :=
  { f with nodes := f.nodes.modify id fun n => { n with parent } }

/-- Gives several nodes the same parent link. -/
def setParents (f : Forest) (ids : List NodeId) (parent : Option NodeId) : Forest :=
  ids.foldl (fun f id => f.setParent id parent) f

/-- Changes the fields of a node. -/
def setFields (f : Forest) (id : NodeId) (change : Fields → Fields) : Forest :=
  { f with nodes := f.nodes.modify id fun n => { n with fields := change n.fields } }

/-- Fails on a node that has a parent. -/
def checkOrphan (f : Forest) (child : NodeId) : Except Error Unit :=
  match f.parent? child with
  | some parent => .error (.ownership child parent)
  | none => .ok ()

/-- Whether a node is met on the way up from another, in at most `fuel` steps. -/
def isAbove (f : Forest) (child : NodeId) : Nat → Option NodeId → Bool
  | 0, _ => false
  | _, none => false
  | fuel + 1, some id => id == child || isAbove f child fuel (f.parent? id)

/-- Fails on a child that has a parent or would become its own ancestor. -/
def checkAttachable (f : Forest) (parent child : NodeId) : Except Error Unit := do
  f.checkOrphan child
  if f.isAbove child (f.size + 1) (some parent) then .error (.cycle child parent)

/-- Appends a node and links the children in its fields to it. -/
def append (f : Forest) (tag : String) (fields : Fields) : NodeId × Forest :=
  let id := f.size
  let linked := f.setParents (Fields.children fields) (some id)
  (id, { linked with nodes := linked.nodes.push { tag, fields } })

/-- Makes a node of children that have no parent yet. -/
def build (f : Forest) (tag : String) (fields : Fields) : Except Error (NodeId × Forest) := do
  (Fields.children fields).forM f.checkOrphan
  return f.append tag fields

/-- Sets a field to a terminal. -/
def setTerminal (f : Forest) (id : NodeId) (name : String) (t : Terminal) : Forest :=
  f.setFields id (Fields.set name (.terminal t))

/-- Removes a field and releases the children in it. -/
def removeField (f : Forest) (id : NodeId) (name : String) : Option FieldValue × Forest :=
  match f.field? id name with
  | none => (none, f)
  | some value => (some value, (f.setFields id (Fields.erase name)).setParents value.children none)

/-- Makes a node the single child in a field of another. -/
def adopt (f : Forest) (parent : NodeId) (name : String) (child : NodeId) :
    Except Error Forest := do
  f.checkAttachable parent child
  let f := (f.removeField parent name).2
  return (f.setParent child (some parent)).setFields parent (Fields.set name (.node child))

/-- Appends a node to the list in a field of another; a field that holds no
list becomes one. -/
def pushChild (f : Forest) (parent : NodeId) (name : String) (child : NodeId) :
    Except Error Forest := do
  f.checkAttachable parent child
  let ids := match f.field? parent name with
    | some (.list ids) => ids ++ [child]
    | _ => [child]
  return (f.setParent child (some parent)).setFields parent (Fields.set name (.list ids))

/-- Detaches a node from its parent, which is returned. -/
def release (f : Forest) (child : NodeId) : Option NodeId × Forest :=
  match f.parent? child with
  | none => (none, f)
  | some parent =>
    (some parent, (f.setParent child none).setFields parent (Fields.without child))

/-- Drops the nodes from number `mark` on, and the links to them. -/
def truncate (f : Forest) (mark : Nat) : Forest :=
  if f.size ≤ mark then f
  else
    { f with nodes := (f.nodes.take mark).map fun n =>
        { n with parent := n.parent.filter (· < mark) } }

end Forest

end DualSql
