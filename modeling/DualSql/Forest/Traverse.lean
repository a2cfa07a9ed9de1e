import DualSql.Forest.Basic

/-! # Walking through trees

Listing, comparing and copying the tree below a node.

## Implementation notes

A path from a node downwards visits each node of a tree once, so the number
of nodes bounds the depth of every walk. -/

namespace DualSql

/-- A value whose children have numbers so much larger. -/
def FieldValue.shift (offset : Nat) : FieldValue → FieldValue
  | terminal t => terminal t
  | node id => node (id + offset)
  | list ids => list (ids.map (· + offset))

/-- A node whose children and parent have numbers so much larger. -/
def Node.shift (offset : Nat) (n : Node) : Node where
  tag := n.tag
  fields := n.fields.map fun (name, value) => (name, value.shift offset)
  parent := n.parent.map (· + offset)

namespace Forest

/-- A node and its descendants in pre-order, down to a depth. -/
def descendantsTo (f : Forest) : Nat → NodeId → List NodeId
  | 0, id => [id]
  | depth + 1, id => id :: (Fields.children (f.fields id)).flatMap (f.descendantsTo depth)

/-- A node and its descendants in pre-order. -/
def descendants (f : Forest) (id : NodeId) : List NodeId :=
  f.descendantsTo f.size id

/-- Whether two values are equal, given how to compare nodes. -/
def sameValue (sameNode : NodeId → NodeId → Bool) : FieldValue → FieldValue → Bool
  | .terminal x, .terminal y => x.sameAs y
  | .node x, .node y => sameNode x y
  | .list xs, .list ys => xs.length == ys.length && (xs.zip ys).all fun p => sameNode p.1 p.2
  | _, _ => false

/-- Whether two trees are equal down to a depth. -/
def sameTo (f : Forest) (other : Forest) : Nat → NodeId → NodeId → Bool
  | 0, _, _ => false
  | depth + 1, a, b =>
    f.tag a == other.tag b && (f.fields a).length == (other.fields b).length &&
      (f.fields a).all fun (name, value) =>
        match other.field? b name with
        | none => false
        | some theirs => sameValue (f.sameTo other depth) value theirs

/-- Whether two trees have the same types, field names and contents; places
do not count. -/
def same (f : Forest) (a : NodeId) (other : Forest) (b : NodeId) : Bool :=
  f.sameTo other (f.size + 1) a b

/-- Applies a function with state to the children in a value. -/
def mapChildren {σ : Type} (copy : NodeId → StateM σ NodeId) :
    FieldValue → StateM σ FieldValue
  | .terminal t => return .terminal t
  | .node id => return .node (← copy id)
  | .list ids => return .list (← ids.mapM copy)

/-- Copies the tree below a node, down to a depth, to the end of another forest. -/
def copyTo (f : Forest) : Nat → NodeId → StateM Forest NodeId
  | 0, id => modifyGet fun target => target.append (f.tag id) []
  | depth + 1, id => do
    let fields ← (f.fields id).mapM fun (name, value) => do
      return (name, ← mapChildren (f.copyTo depth) value)
    modifyGet fun target => target.append (f.tag id) fields

/-- Copies the tree below a node to the end of another forest. -/
def copyInto (f : Forest) (id : NodeId) (target : Forest) : NodeId × Forest :=
  f.copyTo f.size id target

/-- Copies the tree below a node to the end of its own forest. The copy is made in
a forest of its own, whose nodes are then moved behind those that there are. -/
def cloneSubtree (f : Forest) (id : NodeId) : NodeId × Forest :=
  let (root, copy) := f.copyInto id { dialect := f.dialect }
  (root + f.size, { f with nodes := f.nodes ++ copy.nodes.map (Node.shift f.size) })

end Forest

end DualSql
