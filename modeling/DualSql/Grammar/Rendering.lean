import DualSql.Forest.Basic
import DualSql.Forest.Spelling
import DualSql.Grammar.Registry
import DualSql.Layout

/-! # Rendering

The layout of a tree is read off the productions of its types: tokens with a
fixed value are written, fields are written where the production sets them,
and of alternatives the first that has a place for the present fields counts.
An expression is put into brackets wherever its operators would otherwise be
grouped differently when the text is read again.

Main definition: `Rendering.render`. -/

namespace DualSql

/-- What changes in the course of rendering. -/
structure RenderState where
  registry : Registry
  /-- The number of placeholders so far. -/
  binds : Nat := 0

/-- A computation that renders. -/
abbrev Rendering := ExceptT Error (StateM RenderState)

/-- The operators around a node. -/
structure Context where
  /-- The least precedence of an operator that needs no brackets. -/
  minimum : Nat
  /-- The precedence of the operator after the node; zero if there is none. -/
  trailing : Nat
  deriving DecidableEq, Repr

/-- The context of a node that stands alone. -/
def Context.free : Context := ⟨0, 0⟩

/-- How a node combines its operands. -/
structure Operation where
  climb : Climb
  precedence : Nat
  associativity : Associativity
  deriving Repr

/-- The node that is being rendered and what its parts need to know. -/
structure Frame where
  node : Node
  context : Context
  operation : Option Operation
  /-- Whether brackets around the part were left out, so that it stands in the
  context of the node itself. -/
  exposed : Bool := false

namespace Frame

/-- Whether the node has a field. -/
def has (frame : Frame) (name : String) : Bool :=
  (frame.node.fields.lookup name).isSome

/-- The context of the child in a field. -/
def childContext (frame : Frame) (info : RuleInfo) (name : String) : Context :=
  let inherited :=
    if frame.exposed then frame.context
    else match info.attrs.minPrecedence with
      | some minimum => ⟨minimum, frame.context.trailing⟩
      | none => .free
  match frame.operation with
  | none => inherited
  | some op =>
    let raised := min (op.precedence + 1) 255
    if name = op.climb.left then
      match op.associativity with
      | .left => ⟨op.precedence, op.precedence⟩
      | .right => ⟨raised, op.precedence⟩
    else if name = op.climb.right then
      match op.associativity with
      | .left => ⟨raised, frame.context.trailing⟩
      | .right => ⟨op.precedence, frame.context.trailing⟩
    else inherited

end Frame

namespace Production

/-- Whether an optional production has something to write. -/
def isPresent (has : String → Bool) (p : Production) : Bool :=
  p.info.fields.isEmpty || p.info.fields.any has

/-- Whether a production is passed over for a node with the given fields. -/
def isSkipped (has : String → Bool) (p : Production) : Bool :=
  !p.attrs.condition.all (·.holds has) || (p.attrs.optional && !p.isPresent has)

mutual

/-- Whether a production can be written with the given fields. -/
def fits (has : String → Bool) (p : Production) : Bool :=
  p.isSkipped has ||
    match p with
    | token info _ _ => info.attrs.name.all has
    | node info _ _ => info.attrs.name.any has
    | sequence _ parts => fitsAll has parts
    | alternatives info branches =>
      match info.attrs.name with
      | some name => has name
      | none => fitsAny has branches
    | block _ _ inner => inner.fits has

/-- Whether every production can be written. -/
def fitsAll (has : String → Bool) : List Production → Bool
  | [] => true
  | p :: rest => p.fits has && fitsAll has rest

/-- Whether some production can be written. -/
def fitsAny (has : String → Bool) : List Production → Bool
  | [] => false
  | p :: rest => p.fits has || fitsAny has rest

end

/-- How tightly a node binds that ends in an operand: one less than the least
precedence in the operand. -/
def operandBinding? : Production → Option Nat
  | sequence _ parts =>
    match parts.getLast? with
    | some (node info _ _) =>
      if info.attrs.arity.isNone then info.attrs.minPrecedence.map (· - 1) else none
    | _ => none
  | _ => none

end Production

namespace Rendering

/-- The schema of a type. -/
def schema (tag : String) (d : Dialect) : Rendering Schema := fun s =>
  let (result, registry) := s.registry.schema tag d
  (result, { s with registry })

/-- The error that no rendering fits the fields of a node. -/
def noAlternative (d : Dialect) (n : Node) : Error :=
  .render (.noAlternative n.tag d (n.fields.map (·.1)))

/-- The error that a node lacks a field. -/
def missingField (n : Node) (name : String) : Error :=
  .render (.missingField n.tag name)

/-- Writes a terminal, which counts if it is a placeholder. -/
def spell (o : FormatOptions) (d : Dialect) (t : Terminal) : Rendering String := do
  if t.kind = .bindVariable then modify fun s => { s with binds := s.binds + 1 }
  match t.spelling o.keywordCase d (← get).binds with
  | .ok text => return text
  | .error e => throw (.render e)

/-- Writes the terminal in a field. -/
def renderTerminal (o : FormatOptions) (d : Dialect) (frame : Frame) (info : RuleInfo)
    (name : String) : Rendering Layout := do
  match frame.node.fields.lookup name with
  | some (.terminal t) => return .token (← spell o d t) info.attrs.tight
  | _ => throw (missingField frame.node name)

/-- Writes the children in a field, given how to write a node. -/
def renderChildren (child : Context → NodeId → Rendering Layout) (frame : Frame)
    (info : RuleInfo) (name : String) : Rendering Layout := do
  match frame.node.fields.lookup name with
  | some (.node id) =>
    let body ← child (frame.childContext info name) id
    return if info.attrs.tight then .sequence [.tight, body] else body
  | some (.list ids) =>
    return .list info.attrs.newline info.attrs.tight info.attrs.separator
      (← ids.mapM (child .free))
  | _ => throw (missingField frame.node name)

/-- Puts marks for a line and for indentation around what a production writes. -/
def arrange (attrs : RuleAttrs) (body : Layout) : Layout :=
  let body := if attrs.indent then .nested body else body
  if attrs.newline && attrs.arity.isNone then .sequence [.line, body] else body

mutual

/-- Writes a production, given how to write a node. -/
def renderRule (o : FormatOptions) (d : Dialect) (child : Context → NodeId → Rendering Layout)
    (frame : Frame) (p : Production) : Rendering Layout := do
  if p.isSkipped frame.has then return .empty
  let body ← match p with
    | .token info kinds values =>
      match info.attrs.name, kinds, values with
      | some name, _, _ => renderTerminal o d frame info name
      | none, kind :: _, value :: _ =>
        pure (.token (fixedSpelling o.keywordCase kind value) info.attrs.tight)
      | none, _, _ => pure .empty
    | .node info _ _ =>
      match info.attrs.name with
      | some name => renderChildren child frame info name
      | none => pure .empty
    | .sequence _ parts => do pure (.sequence (← renderAll o d child frame parts))
    | .alternatives info branches =>
      match info.attrs.name with
      | some name => renderTerminal o d frame info name
      | none => renderFirst o d child frame (info.fields.filter frame.has) branches
    | .block info bracket inner =>
      if info.attrs.optionalParens && !inner.info.fields.any frame.has then pure .empty
      else if info.attrs.optionalParens && o.minimalParens then
        renderRule o d child { frame with exposed := true } inner
      else do
        let body ← renderRule o d child { frame with context := .free, exposed := false } inner
        pure (.sequence [.token bracket.opener.toString info.attrs.tight, body,
          .lexeme bracket.closer.toString])
  return arrange p.attrs body

/-- Writes productions one after the other. -/
def renderAll (o : FormatOptions) (d : Dialect) (child : Context → NodeId → Rendering Layout)
    (frame : Frame) : List Production → Rendering (List Layout)
  | [] => return []
  | p :: rest => do
    let first ← renderRule o d child frame p
    return first :: (← renderAll o d child frame rest)

/-- Writes the first production that has a place for all present fields. -/
def renderFirst (o : FormatOptions) (d : Dialect) (child : Context → NodeId → Rendering Layout)
    (frame : Frame) (present : List String) : List Production → Rendering Layout
  | [] => throw (noAlternative d frame.node)
  | p :: rest =>
    if present.all p.info.fields.contains && p.fits frame.has then
      renderRule o d child frame p
    else renderFirst o d child frame present rest

end

/-- What is known of the operator of a node, in the target dialect or else in
that of the tree. -/
def operatorInfo? (d : Dialect) (source : Dialect) (value : Option FieldValue) :
    Option OperatorInfo := do
  let symbol := Text.toUpper (← value.bind FieldValue.terminal?).value
  let info ← (Vocabulary.operator? d symbol).or (Vocabulary.operator? source symbol)
  if info.binary then some info else none

/-- How a node of a climbing type combines its operands. -/
def operation (d : Dialect) (source : Dialect) (n : Node) (climb : Climb) : Operation :=
  match operatorInfo? d source (n.fields.lookup climb.operator) with
  | some info => ⟨climb, info.precedence, info.associativity⟩
  | none => ⟨climb, Vocabulary.otherLevel, .left⟩

/-- Whether a node needs brackets in its context. -/
def needsBrackets (root : Production) (operation : Option Operation) (context : Context) :
    Bool :=
  match operation with
  | some op => op.precedence < context.minimum
  | none => root.operandBinding?.any (· < context.trailing)

/-- Writes a node, down to a depth. -/
def renderNode (o : FormatOptions) (d : Dialect) (f : Forest) :
    Nat → Context → NodeId → Rendering Layout
  | 0, _, _ => throw .endless
  | depth + 1, context, id => do
    let node : Node := { tag := f.tag id, fields := f.fields id, parent := f.parent? id }
    match (← get).registry.type? node.tag with
    | none => throw (.grammar (.unknownType node.tag))
    | some nodeType =>
      match (← schema node.tag d).root with
      | none => throw (noAlternative d node)
      | some root =>
        let operation := nodeType.climb?.map (operation d f.dialect node)
        let child := renderNode o d f depth
        if needsBrackets root operation context then
          let body ← renderRule o d child { node, context := .free, operation } root
          return .sequence [.lexeme "(", body, .lexeme ")"]
        else renderRule o d child { node, context, operation } root

/-- The layout of the tree below a node. A path downwards visits each node
once, so their number bounds the depth. -/
def render (o : FormatOptions) (d : Dialect) (f : Forest) (id : NodeId) : Rendering Layout :=
  renderNode o d f (f.size + 1) .free id

end Rendering

end DualSql
