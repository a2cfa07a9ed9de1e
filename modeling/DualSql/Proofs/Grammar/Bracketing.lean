import DualSql.Proofs.Grammar.Expression
import DualSql.Proofs.Grammar.Standard
import DualSql.Proofs.Lookup

/-! # Expressions are written with the brackets they need

The nodes of a forest can hold an expression in any order and with whatever
brackets. What is written for them is the expression with the brackets that its
context asks for; those that it has are kept or left out.

Main definition: `Forest.Holds`. Main results: `Writing.spells_holds` and
`Forest.Holds.height_le`, that the depth of rendering suffices. -/

namespace DualSql

open Fallible

variable {d : Dialect}

/-! ### Nodes that hold an expression -/

/-- A terminal that is written as its value. -/
structure Terminal.Plain (t : Terminal) : Prop where
  quoted : t.quoted = false
  modifier : t.modifier = none

/-- The operand that the name of a column is: a name in quotes, a name that needs
none, or the name of a data type. -/
inductive Terminal.Names (d : Dialect) (t : Terminal) : Atom d → Prop
  | quoted (kind : t.kind = .identifier) (mark : t.quoted = true)
      (modifier : t.modifier = none) : Names d t (.quoted t.value)
  | bare (kind : t.kind = .identifier) (plain : t.Plain) (free : needsQuotes d t.value = false) :
      Names d t (.bare t.value free)
  | typeName (kind : t.kind = .dataType) (plain : t.Plain)
      (known : Vocabulary.namesType d t.value = true) : Names d t (.typeName t.value known)

/-- A node holds an expression: its fields are those of the expression, in any
order, and its children hold the operands. -/
inductive Forest.Holds (d : Dialect) (f : Forest) : NodeId → Expression d → Prop
  | column {id : NodeId} {t : Terminal} {a : Atom d} (tag : f.tag id = "ColumnRef")
      (fields : (f.fields id).Perm [("name", .terminal t)]) (names : t.Names d a) :
      Holds d f id (.atom a)
  | number {id : NodeId} {t : Terminal} (tag : f.tag id = "NumberLiteral")
      (fields : (f.fields id).Perm [("value", .terminal t)]) (kind : t.kind = .numberLiteral)
      (plain : t.Plain) (starts : startsNumber t.value = true) :
      Holds d f id (.atom (.number t.value starts))
  | paren {id child : NodeId} {e : Expression d} (tag : f.tag id = "ParenExpr")
      (fields : (f.fields id).Perm [("expr", .node child)]) (inner : Holds d f child e) :
      Holds d f id (.paren e)
  | not {id child : NodeId} {e : Expression d} (tag : f.tag id = "NotExpr")
      (fields : (f.fields id).Perm [("operand", .node child)]) (inner : Holds d f child e) :
      Holds d f id (.not e)
  | signed {id child : NodeId} {t : Terminal} {sign : Sign} {e : Expression d}
      (tag : f.tag id = "NegateExpr")
      (fields : (f.fields id).Perm [("operator", .terminal t), ("operand", .node child)])
      (kind : t.kind = .operator) (plain : t.Plain) (symbol : t.value = sign.symbol)
      (inner : Holds d f child e) : Holds d f id (.signed sign e)
  | binary {id first second : NodeId} {t : Terminal} {op : Connective d} {l r : Expression d}
      (tag : f.tag id = "BinaryExpr")
      (fields : (f.fields id).Perm
        [("left", .node first), ("operator", .terminal t), ("right", .node second)])
      (kind : t.kind = .operator ∨ t.kind = .keyword) (plain : t.Plain)
      (symbol : t.value = op.symbol) (left : Holds d f first l) (right : Holds d f second r) :
      Holds d f id (.binary l op r)

/-- The number of nodes on the longest way down. -/
def Expression.height : Expression d → Nat
  | .atom _ => 1
  | .paren inner => inner.height + 1
  | .not operand => operand.height + 1
  | .signed _ operand => operand.height + 1
  | .binary left _ right => max left.height right.height + 1

theorem Sign.symbol_inj {sign sign' : Sign} (h : sign.symbol = sign'.symbol) : sign = sign' := by
  revert h
  cases sign <;> cases sign' <;> decide

theorem Connective.ext_symbol {op op' : Connective d} (h : op.symbol = op'.symbol) : op = op' := by
  obtain ⟨symbol, info, known, binary⟩ := op
  obtain ⟨symbol', info', known', binary'⟩ := op'
  obtain rfl : symbol = symbol' := h
  obtain rfl : info = info' := Option.some.inj (known.symm.trans known')
  rfl

theorem Terminal.Names.unique {t : Terminal} {a a' : Atom d} (h : t.Names d a)
    (h' : t.Names d a') : a = a' := by
  cases h <;> cases h' <;> first | rfl | simp_all [Terminal.Plain.quoted]

namespace Forest

variable {f : Forest} {id child : NodeId} {e e' : Expression d}

theorem Holds.lt_size (h : f.Holds d id e) : id < f.size := by
  by_contra hid
  have htag : f.tag id = "" := by
    rw [tag, node?, Array.getElem?_eq_none (Nat.le_of_not_lt hid)]
    rfl
  cases h <;> simp_all

/-- A node holds one expression. -/
theorem Holds.unique (h : f.Holds d id e) (h' : f.Holds d id e') : e = e' := by
  induction h generalizing e' with
  | column tag fields names =>
      cases h' with
      | column tag' fields' names' =>
          obtain ⟨⟩ := eq_of_perm_of_names (fields.symm.trans fields') rfl (by simp)
          rw [names.unique names']
      | _ => simp_all
  | number tag fields =>
      cases h' with
      | number tag' fields' =>
          obtain ⟨⟩ := eq_of_perm_of_names (fields.symm.trans fields') rfl (by simp)
          rfl
      | _ => simp_all
  | paren tag fields inner ih =>
      cases h' with
      | paren tag' fields' inner' =>
          obtain ⟨⟩ := eq_of_perm_of_names (fields.symm.trans fields') rfl (by simp)
          rw [ih inner']
      | _ => simp_all
  | not tag fields inner ih =>
      cases h' with
      | not tag' fields' inner' =>
          obtain ⟨⟩ := eq_of_perm_of_names (fields.symm.trans fields') rfl (by simp)
          rw [ih inner']
      | _ => simp_all
  | signed tag fields kind plain symbol inner ih =>
      cases h' with
      | signed tag' fields' kind' plain' symbol' inner' =>
          obtain ⟨⟩ := eq_of_perm_of_names (fields.symm.trans fields') rfl (by simp)
          rw [ih inner', Sign.symbol_inj (symbol.symm.trans symbol')]
      | _ => simp_all
  | binary tag fields kind plain symbol left right ihl ihr =>
      cases h' with
      | binary tag' fields' kind' plain' symbol' left' right' =>
          obtain ⟨⟩ := eq_of_perm_of_names (fields.symm.trans fields') rfl (by simp)
          rw [ihl left', ihr right', Connective.ext_symbol (symbol.symm.trans symbol')]
      | _ => simp_all

/-- A way down from a node that meets each node once and is as long as what the
node holds is high. -/
def Way (d : Dialect) (f : Forest) (e : Expression d) : Prop :=
  ∃ path : List Nat, path.length = e.height ∧ path.Nodup ∧
    ∀ n ∈ path, n < f.size ∧ ∃ below : Expression d, f.Holds d n below ∧ below.height ≤ e.height

theorem Way.nil (h : f.Holds d id e) (hheight : e.height = 1) : f.Way d e :=
  ⟨[id], hheight.symm, List.nodup_singleton id, fun n hn => by
    obtain rfl := List.mem_singleton.1 hn
    exact ⟨h.lt_size, e, h, Nat.le_refl _⟩⟩

theorem Way.cons (h : f.Holds d id e) (hway : f.Way d e') (hheight : e.height = e'.height + 1) :
    f.Way d e := by
  obtain ⟨path, hlength, hnodup, hpath⟩ := hway
  refine ⟨id :: path, by rw [List.length_cons, hlength, hheight], ?_, ?_⟩
  · rw [List.nodup_cons]
    refine ⟨fun hid => ?_, hnodup⟩
    -- A node that is met again would be higher than itself.
    obtain ⟨-, below, hbelow, hle⟩ := hpath id hid
    obtain rfl := h.unique hbelow
    omega
  · intro n hn
    rcases List.mem_cons.1 hn with rfl | hn
    · exact ⟨h.lt_size, e, h, Nat.le_refl _⟩
    · obtain ⟨hlt, below, hbelow, hle⟩ := hpath n hn
      exact ⟨hlt, below, hbelow, by omega⟩

theorem Holds.way (h : f.Holds d id e) : f.Way d e := by
  induction h with
  | column tag fields names => exact .nil (.column tag fields names) rfl
  | number tag fields kind plain starts => exact .nil (.number tag fields kind plain starts) rfl
  | paren tag fields inner ih => exact .cons (.paren tag fields inner) ih rfl
  | not tag fields inner ih => exact .cons (.not tag fields inner) ih rfl
  | signed tag fields kind plain symbol inner ih =>
      exact .cons (.signed tag fields kind plain symbol inner) ih rfl
  | @binary id first second t op l r tag fields kind plain symbol left right ihl ihr =>
      have h : f.Holds d id (.binary l op r) := .binary tag fields kind plain symbol left right
      rcases Nat.le_total l.height r.height with hle | hle
      · exact .cons h ihr (by rw [Expression.height, Nat.max_eq_right hle])
      · exact .cons h ihl (by rw [Expression.height, Nat.max_eq_left hle])

/-- An expression is no higher than there are nodes. -/
theorem Holds.height_le (h : f.Holds d id e) : e.height ≤ f.size := by
  obtain ⟨path, hlength, hnodup, hpath⟩ := h.way
  have hsub : path ⊆ List.range f.size := fun n hn => List.mem_range.2 (hpath n hn).1
  rw [← hlength, ← @List.length_range f.size]
  exact (List.subperm_of_subset hnodup hsub).length_le

end Forest

/-! ### What productions write -/

namespace Writing

open Standard Rendering

variable {o : FormatOptions} {f : Forest} {child : Context → NodeId → Rendering Layout}
  {frame : Frame} {p : Production} {info : RuleInfo} {pieces more : List Piece} {name : String}

/-- A computation writes pieces of the standard grammar. -/
abbrev Spells (d : Dialect) (m : Rendering Layout) (pieces : List Piece) : Prop :=
  Writes (outline d).toOutline Layout.lexemes m pieces

theorem spells_rule (hskip : p.isSkipped frame.has = false)
    (h : Spells d (renderBody o d child frame p) pieces) :
    Spells d (renderRule o d child frame p) pieces := by
  rw [renderRule_eq, hskip]
  exact Writes.map h _ fun body => lexemes_arrange p.attrs body

theorem spells_skipped (hskip : p.isSkipped frame.has = true) :
    Spells d (renderRule o d child frame p) [] := by
  rw [renderRule_eq, if_pos hskip]
  exact writes_nil rfl

theorem spellsAll_cons {rest : List Production}
    (h : Spells d (renderRule o d child frame p) pieces)
    (hrest : Writes (outline d).toOutline Layout.lexemesAll (renderAll o d child frame rest) more) :
    Writes (outline d).toOutline Layout.lexemesAll (renderAll o d child frame (p :: rest))
      (pieces ++ more) := by
  rw [renderAll]
  exact h.andThen hrest List.cons fun _ _ => rfl

theorem spellsAll_last (h : Spells d (renderRule o d child frame p) pieces) :
    Writes (outline d).toOutline Layout.lexemesAll (renderAll o d child frame [p]) pieces := by
  have hnil : Writes (outline d).toOutline Layout.lexemesAll (renderAll o d child frame []) [] :=
    writes_nil rfl
  rw [← List.append_nil pieces]
  exact spellsAll_cons h hnil

theorem spells_sequence {parts : List Production}
    (hopen : (Production.sequence info parts).isOpen = false)
    (h : Writes (outline d).toOutline Layout.lexemesAll (renderAll o d child frame parts) pieces) :
    Spells d (renderRule o d child frame (.sequence info parts)) pieces :=
  spells_rule (Production.isSkipped_eq_false hopen _) (h.map _ fun _ => rfl)

/-- A token without a field is written as its rule says. -/
theorem spells_fixed {kind : TokenKind} {value : String} (hcase : o.keywordCase = .upper)
    (hname : info.attrs.name = none)
    (hopen : (Production.token info [kind] [value]).isOpen = false)
    (hvalue : fixedSpelling .upper kind value = value) :
    Spells d (renderRule o d child frame (.token info [kind] [value])) [.text value] := by
  apply spells_rule (Production.isSkipped_eq_false hopen _)
  simp only [renderBody, hname, hcase, hvalue]
  exact writes_text (lexemes_token _ _)

theorem spells_terminal {kinds : List TokenKind} {values : List String} {t : Terminal}
    (hcase : o.keywordCase = .upper) (hname : info.attrs.name = some name)
    (hopen : (Production.token info kinds values).isOpen = false)
    (hfield : frame.node.fields.lookup name = some (.terminal t)) :
    Spells d (renderRule o d child frame (.token info kinds values)) [t.piece d] := by
  apply spells_rule (Production.isSkipped_eq_false hopen _)
  have hspell : Rendering.spell o d t = Rendering.spell {} d t := by
    simp only [Rendering.spell, hcase]
  simp only [renderBody, hname, renderTerminal, hfield, hspell]
  exact Writes.map (@spell_writes (outline d).toOutline t) _ fun text => lexemes_token text _

theorem spells_child {types : List String} {climb : Option Climb} {id : NodeId}
    (hname : info.attrs.name = some name)
    (hopen : (Production.node info types climb).isOpen = false)
    (hfield : frame.node.fields.lookup name = some (.node id))
    (h : Spells d (child (frame.childContext info name) id) pieces) :
    Spells d (renderRule o d child frame (.node info types climb)) pieces := by
  apply spells_rule (Production.isSkipped_eq_false hopen _)
  simp only [renderBody, hname, renderChildren, hfield]
  refine Writes.map h _ fun body => ?_
  cases info.attrs.tight <;> simp [Layout.lexemes, Layout.lexemesAll]

/-- Brackets that may be left out are written unless there are to be few. -/
theorem spells_block {inner : Production}
    (hopen : (Production.block info .paren inner).isOpen = false)
    (hparens : info.attrs.optionalParens = true) (hany : inner.info.fields.any frame.has = true)
    (hfew : o.minimalParens = true →
      Spells d (renderRule o d child { frame with exposed := true } inner) pieces)
    (hmany : o.minimalParens = false →
      Spells d (renderRule o d child { frame with context := .free, exposed := false } inner)
        more) :
    Spells d (renderRule o d child frame (.block info .paren inner))
      (if o.minimalParens then pieces else .text "(" :: (more ++ [.text ")"])) := by
  apply spells_rule (Production.isSkipped_eq_false hopen _)
  simp only [renderBody, hparens, hany, Bool.not_true, Bool.and_false, Bool.false_eq_true, if_false,
    Bool.true_and]
  cases hminimal : o.minimalParens with
  | true => exact hfew hminimal
  | false =>
      refine Writes.wrap (hmany hminimal) _ fun body => ?_
      simp only [Layout.lexemes, Layout.lexemesAll, lexemes_token]
      rfl

/-- The rule of a type of the standard grammar. -/
def HasRoot (d : Dialect) (tag : String) (root : Production) : Prop :=
  ∃ schema, ((extend {}).schema tag d).1 = .ok schema ∧ schema.root = some root

/-- A node is written by the rule of its type. -/
theorem spells_node {depth : Nat} {context : Context} {id : NodeId} {tag : String}
    {nodeType : NodeType} {root : Production} (htag : f.tag id = tag)
    (htype : (extend {}).type? tag = some nodeType) (hroot : HasRoot d tag root)
    (h : Spells d (renderShape o d (renderNode o d f depth)
      ⟨f.tag id, f.fields id, f.parent? id⟩ context
      (nodeType.climb?.map (operation d f.dialect ⟨f.tag id, f.fields id, f.parent? id⟩)) root)
      pieces) :
    Spells d (renderNode o d f (depth + 1) context id) pieces := by
  obtain ⟨schema, hschema, hroot⟩ := hroot
  subst htag
  intro s texts agrees hs
  have hagrees : (extend {}).Agrees s.registry := agrees
  have hasked : Rendering.schema (f.tag id) d s =
      (.ok schema, { s with registry := (s.registry.schema (f.tag id) d).2 }) :=
    Prod.ext ((hagrees.schemas (f.tag id) d).trans hschema) rfl
  obtain ⟨layout, s', hrun, hwritten⟩ :=
    h { s with registry := (s.registry.schema (f.tag id) d).2 } texts
      (hagrees.trans (Registry.agrees_schema ..)) hs
  refine ⟨layout, s', ?_, hwritten⟩
  simp only [renderNode, bind_eq_ok, get_eq_ok]
  refine ⟨s, s, ⟨rfl, rfl⟩, ?_⟩
  simp only [hagrees.type?, htype, bind_eq_ok]
  refine ⟨schema, _, hasked, ?_⟩
  simp only [hroot]
  exact hrun

/-- A node of a type that is matched by its own rule combines no operands. -/
theorem spells_declared {depth : Nat} {context : Context} {id : NodeId} {tag : String}
    {root : Production} (htag : f.tag id = tag) (hmem : tag ∈ operands) (hroot : HasRoot d tag root)
    (h : Spells d (renderShape o d (renderNode o d f depth)
      ⟨f.tag id, f.fields id, f.parent? id⟩ context none root) pieces) :
    Spells d (renderNode o d f (depth + 1) context id) pieces := by
  obtain ⟨rule, htype⟩ := Registry.exists_declared (isDeclared_operands tag hmem)
  exact spells_node htag htype hroot h

/-- Brackets are put around a node that needs them. -/
theorem spells_bracketed {node : Node} {context : Context} {operation : Option Operation}
    {root : Production} {needed : Bool} {body : Context → Expression d}
    (hneeded : needsBrackets root operation context = needed)
    (h : ∀ c, Spells d (renderRule o d child { node, context := c, operation } root)
      ((body c).lexemes.map .text)) :
    Spells d (renderShape o d child node context operation root)
      ((Expression.bracketed needed context body).lexemes.map .text) := by
  rw [renderShape, hneeded]
  cases needed with
  | true =>
      have heq : (Expression.bracketed true context body).lexemes.map Piece.text =
          .text "(" :: ((body .free).lexemes.map .text ++ [.text ")"]) := by
        simp [Expression.bracketed, Expression.lexemes]
      rw [heq]
      exact Writes.wrap (h .free) _ fun body => by simp [Layout.lexemes, Layout.lexemesAll]
  | false => exact h context

/-- Nothing is put around a node that needs no brackets. -/
theorem spells_bare {node : Node} {context : Context} {operation : Option Operation}
    {root : Production} (hneeded : needsBrackets root operation context = false)
    (h : Spells d (renderRule o d child { node, context, operation } root) pieces) :
    Spells d (renderShape o d child node context operation root) pieces := by
  rw [renderShape, hneeded]
  exact h

/-! ### Expressions -/

theorem hasRoot_number (d : Dialect) :
    HasRoot d "NumberLiteral"
      (.token ⟨{ name := some "value" }, "NumberLiteral", ["value"]⟩ [.numberLiteral] []) := by
  cases d <;> exact ⟨_, rfl, rfl⟩

theorem hasRoot_column (d : Dialect) :
    HasRoot d "ColumnRef"
      (.sequence ⟨{}, "ColumnRef", ["table", "name"]⟩ [
        .sequence ⟨{ optional := true }, "ColumnRef/0", ["table"]⟩ [
          .token ⟨{ name := some "table" }, "ColumnRef/0/0", ["table"]⟩ [.identifier] [],
          .token ⟨{}, "ColumnRef/0/1", []⟩ [.punctuation] ["."]],
        .token ⟨{ name := some "name" }, "ColumnRef/1", ["name"]⟩ [.identifier, .dataType] []]) := by
  cases d <;> exact ⟨_, rfl, rfl⟩

theorem hasRoot_paren (d : Dialect) :
    HasRoot d "ParenExpr"
      (.block ⟨{ optionalParens := true }, "ParenExpr", ["expr"]⟩ .paren
        (.node ⟨{ name := some "expr" }, "ParenExpr/0", ["expr"]⟩ operands (some binary))) := by
  cases d <;> exact ⟨_, rfl, rfl⟩

theorem hasRoot_not (d : Dialect) :
    HasRoot d "NotExpr"
      (.sequence ⟨{}, "NotExpr", ["operand"]⟩ [
        .token ⟨{}, "NotExpr/0", []⟩ [.keyword] ["NOT"],
        .node ⟨{ name := some "operand", minPrecedence := some Vocabulary.isLevel }, "NotExpr/1",
          ["operand"]⟩ operands (some binary)]) := by
  cases d <;> exact ⟨_, rfl, rfl⟩

theorem hasRoot_negate (d : Dialect) :
    HasRoot d "NegateExpr"
      (.sequence ⟨{}, "NegateExpr", ["operator", "operand"]⟩ [
        .token ⟨{ name := some "operator" }, "NegateExpr/0", ["operator"]⟩ [.operator]
          ["-", "+", "~", "!"],
        .node ⟨{ name := some "operand", tight := true, minPrecedence := some Vocabulary.unaryLevel },
          "NegateExpr/1", ["operand"]⟩ operands (some binary)]) := by
  cases d <;> exact ⟨_, rfl, rfl⟩

theorem hasRoot_binary (d : Dialect) :
    HasRoot d "BinaryExpr"
      (.sequence ⟨{}, "BinaryExpr", ["left", "operator", "right"]⟩ [
        .node ⟨{ name := some "left" }, "BinaryExpr/0", ["left"]⟩ operands (some binary),
        .token ⟨{ name := some "operator" }, "BinaryExpr/1", ["operator"]⟩ [.operator, .keyword] [],
        .node ⟨{ name := some "right" }, "BinaryExpr/2", ["right"]⟩ operands (some binary)]) := by
  cases d <;> exact ⟨_, rfl, rfl⟩

theorem piece_fixed {t : Terminal}
    (hkind : t.kind = .operator ∨ t.kind = .keyword ∨ t.kind = .dataType)
    (hupper : Text.toUpper t.value = t.value) : t.piece d = .text t.value := by
  obtain ⟨kind, value, quoted, modifier, position⟩ := t
  have hspelling : fixedSpelling .upper kind value = value := by
    rcases hkind with rfl | rfl | rfl
    · simp only [fixedSpelling, KeywordCase.apply]
      split
      · exact hupper
      · rfl
    · exact hupper
    · exact hupper
  rcases hkind with rfl | rfl | rfl
  all_goals simp [Terminal.piece, Terminal.spelling, hspelling]

theorem piece_names {t : Terminal} {a : Atom d} (h : t.Names d a) :
    t.piece d = .text a.lexeme := by
  cases h with
  | quoted kind mark modifier => simp [Terminal.piece, Terminal.spelling, kind, mark, Atom.lexeme]
  | bare kind plain free =>
      simp [Terminal.piece, Terminal.spelling, kind, plain.quoted, free, Atom.lexeme]
  | typeName kind plain known =>
      exact piece_fixed (.inr (.inr kind)) (Vocabulary.spelling_of_namesType known).2

theorem piece_number {t : Terminal} (hkind : t.kind = .numberLiteral) :
    t.piece d = .text t.value := by
  simp [Terminal.piece, Terminal.spelling, hkind, fixedSpelling]

theorem exists_depth (e : Expression d) {depth : Nat} (h : e.height ≤ depth) :
    ∃ n, depth = n + 1 := by
  have hpos : 0 < e.height := by
    cases e <;> simp [Expression.height]
  exact ⟨depth - 1, by omega⟩

/-- The operation of a node is that of its operator. -/
theorem operation_of_symbol {node : Node} {t : Terminal} {op : Connective d} {source : Dialect}
    (hfield : node.fields.lookup "operator" = some (.terminal t)) (hsymbol : t.value = op.symbol) :
    operation d source node binary = ⟨binary, op.info.precedence, op.info.associativity⟩ := by
  have hinfo : operatorInfo? d source (node.fields.lookup binary.operator) = some op.info := by
    simp [binary, hfield, operatorInfo?, FieldValue.terminal?, hsymbol,
      Vocabulary.toUpper_of_operator op.known, op.known, op.binary]
  rw [operation, hinfo]

theorem childContext_left (node : Node) (context : Context) (info : OperatorInfo)
    (rule : RuleInfo) :
    Frame.childContext
      { node, context, operation := some ⟨binary, info.precedence, info.associativity⟩ } rule
      "left" = ⟨info.leftMinimum, info.precedence⟩ :=
  FaithfulOutline.childContext_left (g := outline .postgres) info rule [] context

theorem childContext_right (node : Node) (context : Context) (info : OperatorInfo)
    (rule : RuleInfo) :
    Frame.childContext
      { node, context, operation := some ⟨binary, info.precedence, info.associativity⟩ } rule
      "right" = ⟨Parsing.nextMinimum info, context.trailing⟩ :=
  FaithfulOutline.childContext_right (g := outline .postgres) info rule [] context

/-- An expression is written with the brackets that its context asks for. -/
theorem spells_holds {id : NodeId} {e : Expression d} (h : f.Holds d id e)
    (hcase : o.keywordCase = .upper) {depth : Nat} (hdepth : e.height ≤ depth) (context : Context) :
    Spells d (renderNode o d f depth context id)
      ((e.written o.minimalParens context).lexemes.map .text) := by
  induction h generalizing depth context with
  | @column id t a tag fields names =>
      obtain ⟨depth, rfl⟩ := exists_depth _ hdepth
      refine spells_declared tag (by decide) (hasRoot_column d) (spells_bare rfl ?_)
      have hfields : f.fields id = [("name", .terminal t)] := List.perm_singleton.1 fields
      change Spells d _ ([] ++ [.text a.lexeme])
      refine spells_sequence rfl (spellsAll_cons (spells_skipped ?_) (spellsAll_last ?_))
      · simp [Production.isSkipped, Production.attrs, Production.info, Production.isPresent,
          Frame.has, hfields, List.lookup_cons]
      · rw [← piece_names names]
        exact spells_terminal hcase rfl rfl (by rw [hfields]; rfl)
  | @number id t tag fields kind plain starts =>
      obtain ⟨depth, rfl⟩ := exists_depth _ hdepth
      refine spells_declared tag (by decide) (hasRoot_number d) (spells_bare rfl ?_)
      change Spells d _ [.text t.value]
      rw [← piece_number kind]
      exact spells_terminal hcase rfl rfl (lookup_of_perm fields (by simp) (by simp))
  | @paren id child e tag fields inner ih =>
      obtain ⟨depth, rfl⟩ := exists_depth _ hdepth
      have hfield : (f.fields id).lookup "expr" = some (.node child) :=
        lookup_of_perm fields (by simp) (by simp)
      have hpieces : ((Expression.paren e).written o.minimalParens context).lexemes.map Piece.text =
          if o.minimalParens then (e.written o.minimalParens context).lexemes.map .text
          else .text "(" :: ((e.written o.minimalParens .free).lexemes.map .text ++ [.text ")"]) := by
        rw [Expression.written]
        split
        · rfl
        · simp [Expression.lexemes]
      rw [hpieces]
      refine spells_declared tag (by decide) (hasRoot_paren d) (spells_bare rfl ?_)
      refine spells_block rfl rfl ?_ ?_ ?_
      · simp [Frame.has, Production.info, hfield]
      · exact fun _ => spells_child rfl rfl hfield (ih (Nat.le_of_succ_le_succ hdepth) context)
      · exact fun _ => spells_child rfl rfl hfield (ih (Nat.le_of_succ_le_succ hdepth) .free)
  | @not id child e tag fields inner ih =>
      obtain ⟨depth, rfl⟩ := exists_depth _ hdepth
      have hfield : (f.fields id).lookup "operand" = some (.node child) :=
        lookup_of_perm fields (by simp) (by simp)
      refine spells_declared tag (by decide) (hasRoot_not d) (spells_bracketed rfl fun c => ?_)
      exact spells_sequence rfl (spellsAll_cons (spells_fixed hcase rfl rfl (by decide))
        (spellsAll_last (spells_child rfl rfl hfield (ih (Nat.le_of_succ_le_succ hdepth) _))))
  | @signed id child t sign e tag fields kind plain symbol inner ih =>
      obtain ⟨depth, rfl⟩ := exists_depth _ hdepth
      have hfield : (f.fields id).lookup "operand" = some (.node child) :=
        lookup_of_perm fields (by simp) (by simp)
      have hsign : (f.fields id).lookup "operator" = some (.terminal t) :=
        lookup_of_perm fields (by simp) (by simp)
      have hpiece : t.piece d = .text sign.symbol := by
        rw [← symbol]
        apply piece_fixed (.inl kind)
        rw [symbol]
        cases sign <;> decide
      refine spells_declared tag (by decide) (hasRoot_negate d) (spells_bracketed rfl fun c => ?_)
      change Spells d _ ([.text sign.symbol] ++ _)
      rw [← hpiece]
      exact spells_sequence rfl (spellsAll_cons (spells_terminal hcase rfl rfl hsign)
        (spellsAll_last (spells_child rfl rfl hfield (ih (Nat.le_of_succ_le_succ hdepth) _))))
  | @binary id first second t op l r tag fields kind plain symbol left right ihl ihr =>
      obtain ⟨depth, rfl⟩ := exists_depth _ hdepth
      have hfirst : (f.fields id).lookup "left" = some (.node first) :=
        lookup_of_perm fields (by simp) (by simp)
      have hoperator : (f.fields id).lookup "operator" = some (.terminal t) :=
        lookup_of_perm fields (by simp) (by simp)
      have hsecond : (f.fields id).lookup "right" = some (.node second) :=
        lookup_of_perm fields (by simp) (by simp)
      have hpiece : t.piece d = .text op.symbol := by
        rw [← symbol]
        apply piece_fixed (kind.imp_right .inl)
        rw [symbol, Vocabulary.toUpper_of_operator op.known]
      have hheight : l.height ≤ depth ∧ r.height ≤ depth := by
        simp only [Expression.height] at hdepth
        omega
      have hoperation : operation d f.dialect ⟨f.tag id, f.fields id, f.parent? id⟩ binary =
          ⟨binary, op.info.precedence, op.info.associativity⟩ :=
        operation_of_symbol hoperator symbol
      refine spells_node tag rfl (hasRoot_binary d) ?_
      simp only [NodeType.climb?, Option.map_some, hoperation]
      refine spells_bracketed rfl fun c => ?_
      have hpieces : (Expression.binary
            (l.written o.minimalParens ⟨op.info.leftMinimum, op.info.precedence⟩) op
            (r.written o.minimalParens ⟨Parsing.nextMinimum op.info, c.trailing⟩)).lexemes.map
              Piece.text =
          (l.written o.minimalParens ⟨op.info.leftMinimum, op.info.precedence⟩).lexemes.map .text ++
            ([t.piece d] ++ (r.written o.minimalParens
              ⟨Parsing.nextMinimum op.info, c.trailing⟩).lexemes.map .text) := by
        simp [Expression.lexemes, hpiece]
      rw [hpieces]
      refine spells_sequence rfl (spellsAll_cons (spells_child rfl rfl hfirst ?_)
        (spellsAll_cons (spells_terminal hcase rfl rfl hoperator)
          (spellsAll_last (spells_child rfl rfl hsecond ?_))))
      · rw [childContext_left]
        exact ihl hheight.1 _
      · rw [childContext_right]
        exact ihr hheight.2 _

end Writing

end DualSql
