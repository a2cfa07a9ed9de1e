import DualSql.Proofs.Grammar.Accepted
import DualSql.Proofs.Grammar.Bracketing
import DualSql.Proofs.Grammar.Climbing
import DualSql.Proofs.Grammar.Totality
import DualSql.Proofs.Stream.PlainCursor
import DualSql.Tree

/-! # Brackets keep the grouping

What is written for an expression is read as the same tree, nodes for brackets
aside: neither brackets that are left out nor brackets that are put in change
what belongs together.

Main definitions: `Content.Agrees`, that two trees read the same, and
`Standard.readExpression?`. Main result: `Tree.regrouped_of_holds`. -/

namespace DualSql

variable {d : Dialect}

/-! ### Trees without nodes for brackets -/

namespace Content

theorem unwrappedFields_eq (fields : List (String × Content)) :
    unwrappedFields fields = fields.map fun f => (f.1, f.2.unwrapped) := by
  induction fields with
  | nil => rfl
  | cons f rest ih => rw [unwrappedFields, ih, List.map_cons]

theorem unwrapped_node {tag : String} (h : tag ≠ "ParenExpr") (fields : List (String × Content)) :
    (node tag fields).unwrapped = node tag (fields.map fun f => (f.1, f.2.unwrapped)) := by
  rw [unwrapped, beq_false_of_ne h, unwrappedFields_eq]

/-- Each of two contents reads the same as the other. -/
structure Agrees (x y : Content) : Prop where
  same : x.same y = true
  symm : y.same x = true

theorem Agrees.swap {x y : Content} (h : x.Agrees y) : y.Agrees x :=
  ⟨h.symm, h.same⟩

theorem agrees_terminal {t u : Terminal} (hvalue : t.value = u.value)
    (hquoted : t.quoted = u.quoted) (hmodifier : t.modifier = u.modifier) :
    (terminal t).Agrees (terminal u) :=
  ⟨by simp [same, Terminal.sameAs, hvalue, hquoted, hmodifier],
    by simp [same, Terminal.sameAs, hvalue, hquoted, hmodifier]⟩

/-- Fields of the same names that agree. -/
abbrev FieldsAgree : List (String × Content) → List (String × Content) → Prop :=
  List.Forall₂ fun f g => f.1 = g.1 ∧ f.2.Agrees g.2

variable {fields others : List (String × Content)}

theorem FieldsAgree.names (h : FieldsAgree fields others) :
    fields.map Prod.fst = others.map Prod.fst := by
  induction h with
  | nil => rfl
  | cons hfield _ ih => rw [List.map_cons, List.map_cons, hfield.1, ih]

theorem FieldsAgree.swap (h : FieldsAgree fields others) : FieldsAgree others fields :=
  (h.imp fun _ _ hfield => ⟨hfield.1.symm, hfield.2.swap⟩).flip

theorem FieldsAgree.exists_mem (h : FieldsAgree fields others) :
    ∀ f ∈ fields, ∃ g ∈ others, f.1 = g.1 ∧ f.2.Agrees g.2 := by
  induction h with
  | nil => exact nofun
  | cons hfield _ ih =>
      refine List.forall_mem_cons.2 ⟨⟨_, List.mem_cons_self, hfield⟩, fun f hf => ?_⟩
      obtain ⟨g, hg, hagrees⟩ := ih f hf
      exact ⟨g, List.mem_cons_of_mem _ hg, hagrees⟩

/-- Nodes agree whose fields do, in whatever order the first has them. -/
theorem FieldsAgree.node {tag : String} {ordered : List (String × Content)}
    (h : FieldsAgree ordered others) (hperm : fields.Perm ordered)
    (hnames : (ordered.map Prod.fst).Nodup) : (node tag fields).Agrees (node tag others) := by
  have hlength : fields.length = others.length := hperm.length_eq.trans h.length_eq
  constructor
  · rw [same, beq_self_eq_true, hlength, beq_self_eq_true, Bool.and_self, Bool.true_and,
      sameFields_iff]
    intro f hf
    obtain ⟨g, hg, hname, hagrees⟩ := h.exists_mem f (hperm.mem_iff.1 hf)
    exact ⟨g.2, hname ▸ lookup_of_mem (h.names ▸ hnames) hg, hagrees.same⟩
  · rw [same, beq_self_eq_true, hlength, beq_self_eq_true, Bool.and_self, Bool.true_and,
      sameFields_iff]
    intro g hg
    obtain ⟨f, hf, hname, hagrees⟩ := h.swap.exists_mem g hg
    exact ⟨f.2, hname ▸ lookup_of_perm hperm hnames hf, hagrees.same⟩

end Content

/-! ### What nodes hold -/

theorem Atom.unwrapped_content (a : Atom d) : a.content.unwrapped = a.content := by
  cases a <;> exact Content.unwrapped_node (by decide) _

/-- Of what is read nothing but the nodes for brackets comes from brackets. -/
theorem Expression.unwrapped_content (e : Expression d) :
    e.content.unwrapped = e.unwrapped.content := by
  induction e with
  | atom a => exact a.unwrapped_content
  | paren inner ih => exact ih
  | not operand ih =>
      rw [content, Content.unwrapped_node (by decide), unwrapped, content, ← ih]
      rfl
  | signed sign operand ih =>
      rw [content, Content.unwrapped_node (by decide), unwrapped, content, ← ih]
      rfl
  | binary left op right ihl ihr =>
      change _ = Outline.joined Standard.binary left.unwrapped.content op.token
        right.unwrapped.content
      rw [← ihl, ← ihr]
      exact Content.unwrapped_node (by decide) _

theorem Terminal.Names.agrees {t : Terminal} {a : Atom d} (h : t.Names d a) :
    (Content.terminal t).Agrees (.terminal (.ofToken a.token)) := by
  cases h with
  | quoted kind mark modifier =>
      rw [Atom.token, Atom.lexeme, Token.ofLexeme_quoteIdentifier]
      exact Content.agrees_terminal rfl mark modifier
  | bare kind plain free =>
      rw [Atom.token, Atom.lexeme, Token.ofLexeme_bare free]
      exact Content.agrees_terminal rfl plain.quoted plain.modifier
  | typeName kind plain known =>
      rw [Atom.token, Atom.lexeme, Token.ofLexeme_typeName known]
      exact Content.agrees_terminal rfl plain.quoted plain.modifier

namespace Forest

variable {f : Forest} {id : NodeId}

/-- A node agrees with another when the fields that were listed for it do, with
their trees. -/
theorem agrees_node {tag : String} {listed : Fields} {others : List (String × Content)}
    (htag : f.tag id = tag) (hne : tag ≠ "ParenExpr") (hfields : (f.fields id).Perm listed)
    (hnames : (listed.map Prod.fst).Nodup) {depth : Nat}
    (h : Content.FieldsAgree
      ((listed.contents (f.contentTo depth)).map fun g => (g.1, g.2.unwrapped)) others) :
    (f.contentTo (depth + 1) id).unwrapped.Agrees (.node tag others) := by
  rw [contentTo, htag, Content.unwrapped_node hne]
  refine h.node ((hfields.map _).map _) ?_
  simpa only [Fields.contents, List.map_map, Function.comp_def] using hnames

/-- Apart from brackets, the tree of a node is the one that is read for what it holds. -/
theorem Holds.agrees {e : Expression d} (h : f.Holds d id e) {depth : Nat}
    (hdepth : e.height ≤ depth) :
    (f.contentTo depth id).unwrapped.Agrees e.unwrapped.content := by
  induction h generalizing depth with
  | @column id t a tag fields names =>
      obtain ⟨depth, rfl⟩ := Writing.exists_depth _ hdepth
      have hcontent : a.content = .node "ColumnRef" [("name", .terminal (.ofToken a.token))] := by
        cases names <;> rfl
      rw [Expression.unwrapped, Expression.content, hcontent]
      exact agrees_node tag (by decide) fields (by simp) (.cons ⟨rfl, names.agrees⟩ .nil)
  | @number id t tag fields kind plain starts =>
      obtain ⟨depth, rfl⟩ := Writing.exists_depth _ hdepth
      have hvalue : (Content.terminal t).Agrees
          (.terminal (.ofToken (Atom.token (.number t.value starts : Atom d)))) := by
        rw [Atom.token, Atom.lexeme, Token.ofLexeme_number starts]
        exact Content.agrees_terminal rfl plain.quoted plain.modifier
      exact agrees_node tag (by decide) fields (by simp) (.cons ⟨rfl, hvalue⟩ .nil)
  | @paren id child e tag fields inner ih =>
      obtain ⟨depth, rfl⟩ := Writing.exists_depth _ hdepth
      have htree :
          (f.contentTo (depth + 1) id).unwrapped = (f.contentTo depth child).unwrapped := by
        rw [contentTo, tag, List.perm_singleton.1 fields]
        rfl
      rw [htree]
      exact ih (Nat.le_of_succ_le_succ hdepth)
  | @not id child e tag fields inner ih =>
      obtain ⟨depth, rfl⟩ := Writing.exists_depth _ hdepth
      have hoperand := ih (Nat.le_of_succ_le_succ hdepth)
      exact agrees_node tag (by decide) fields (by simp) (.cons ⟨rfl, hoperand⟩ .nil)
  | @signed id child t sign e tag fields kind plain symbol inner ih =>
      obtain ⟨depth, rfl⟩ := Writing.exists_depth _ hdepth
      have hsign : (Content.terminal t).Agrees (.terminal (.ofToken (sign.token d))) := by
        have htoken : (Terminal.ofToken (sign.token d)).value = sign.symbol ∧
            (Terminal.ofToken (sign.token d)).quoted = false ∧
            (Terminal.ofToken (sign.token d)).modifier = none := by
          cases d <;> cases sign <;> exact ⟨rfl, rfl, rfl⟩
        exact Content.agrees_terminal (symbol.trans htoken.1.symm)
          (plain.quoted.trans htoken.2.1.symm) (plain.modifier.trans htoken.2.2.symm)
      have hoperand := ih (Nat.le_of_succ_le_succ hdepth)
      exact agrees_node tag (by decide) fields (by simp)
        (.cons ⟨rfl, hsign⟩ (.cons ⟨rfl, hoperand⟩ .nil))
  | @binary id first second t op l r tag fields kind plain symbol left right ihl ihr =>
      obtain ⟨depth, rfl⟩ := Writing.exists_depth _ hdepth
      have hheight : l.height ≤ depth ∧ r.height ≤ depth := by
        simp only [Expression.height] at hdepth
        omega
      have hoperator : (Content.terminal t).Agrees (.terminal (.ofToken op.token)) := by
        rw [op.token_eq]
        refine Content.agrees_terminal symbol ?_ plain.modifier
        rw [plain.quoted]
        simp [Terminal.ofToken, Token.isQuoted]
      exact agrees_node tag (by decide) fields (by simp) (.cons ⟨rfl, ihl hheight.1⟩
        (.cons ⟨rfl, hoperator⟩ (.cons ⟨rfl, ihr hheight.2⟩ .nil)))

end Forest

/-! ### The bound on the depth of a parse -/

theorem TokenTree.toCells_append (a b : List TokenTree) :
    toCells (a ++ b) = toCells a ++ toCells b := by
  induction a with
  | nil => rfl
  | cons tree rest ih => rw [List.cons_append, toCells, toCells, ih, List.cons_append]

/-- A token that is content counts. -/
theorem Cell.weight_leaf {t : Token} (h : t.kind.isTrivia = false) : (Cell.leaf t).weight = 1 := by
  rw [Cell.weight, h]
  rfl

theorem Atom.isTrivia_token (a : Atom d) : a.token.kind.isTrivia = false := by
  rcases a.token_kind with hkind | hkind | hkind <;> rw [hkind] <;> rfl

theorem Connective.isTrivia_token (op : Connective d) : op.token.kind.isTrivia = false := by
  rcases op.token_kind with hkind | hkind <;> rw [hkind] <;> rfl

/-- Every token counts. -/
theorem Expression.weight_trees (e : Expression d) :
    ((TokenTree.toCells e.trees).map Cell.weight).sum = e.size := by
  induction e with
  | atom a =>
      simp [trees, size, TokenTree.toCells, TokenTree.toCell, Cell.weight_leaf a.isTrivia_token]
  | paren inner ih =>
      simp only [trees, size, TokenTree.toCells, TokenTree.toCell, List.map_cons, List.sum_cons,
        Cell.weight_block, ih]
      rfl
  | not operand ih =>
      have hnot : (Token.ofLexeme d "NOT").kind.isTrivia = false := by cases d <;> rfl
      simp only [trees, size, TokenTree.toCells, TokenTree.toCell, List.map_cons, List.sum_cons,
        Cell.weight_leaf hnot, ih]
  | signed sign operand ih =>
      have hsign : (sign.token d).kind.isTrivia = false := by cases d <;> cases sign <;> rfl
      simp only [trees, size, TokenTree.toCells, TokenTree.toCell, List.map_cons, List.sum_cons,
        Cell.weight_leaf hsign, ih]
  | binary left op right ihl ihr =>
      simp only [trees, size, TokenTree.toCells_append, TokenTree.toCells, TokenTree.toCell,
        List.map_append, List.map_cons, List.sum_append, List.sum_cons,
        Cell.weight_leaf op.isTrivia_token, ihl, ihr]

/-- The parser of the standard grammar can go 64 deep for each token that it is given. -/
theorem Parsing.weight_lt_bound (d : Dialect) (trees : List TokenTree) :
    64 * ((TokenTree.toCells trees).map Cell.weight).sum <
      bound (start { stream := .ofCells (TokenTree.toCells trees) } Standard.registry d) := by
  have hsize : 4 ≤ Standard.registry.size := by
    rw [Registry.size, (Standard.agrees_registry d).types]
    change 4 ≤ (Standard.extend {}).size
    decide +kernel
  rw [bound, start, Source.weight_ofCells]
  generalize ((TokenTree.toCells trees).map Cell.weight).sum = weight
  calc
    64 * weight < (weight + 2) * 64 := by omega
    _ ≤ (weight + 2) * (8 * Standard.registry.size + 32) := Nat.mul_le_mul_left _ (by omega)

/-- The parser of the standard grammar goes deep enough for every expression. -/
theorem Expression.size_lt_bound (e : Expression d) :
    64 * e.size < Parsing.bound (Parsing.start { stream := .ofCells (TokenTree.toCells e.trees) }
      Standard.registry d) := by
  rw [← e.weight_trees]
  exact Parsing.weight_lt_bound d e.trees

/-! ### Writing and reading -/

/-- Text is spelled as it is. -/
theorem Piece.spell_texts (binds : Nat) (texts : List String) :
    spell d binds (texts.map .text) = .ok texts := by
  induction texts with
  | nil => rfl
  | cons text rest ih =>
      rw [List.map_cons, spell, ih]
      rfl

/-- What the outline finds by climbing, the parser makes, and stops in the same place. -/
theorem Parsing.climbing_of_found {fuel minimum : Nat} {s : ParseState} {x : Content}
    {rest : List TokenTree} (good : s.Good (Standard.outline d).toOutline 0) (hfree : s.Free 0)
    (hfound : (Standard.outline d).climbing fuel Standard.operands Standard.binary minimum
      s.source.upcoming = .found x rest) :
    ∃ root s', parseClimbing { dialect := d } fuel Standard.operands Standard.binary minimum s =
        (.ok (some root), s') ∧
      s'.Good (Standard.outline d).toOutline 0 ∧ s'.Free 0 ∧
      s'.forest.content root = x ∧ s'.source.upcoming = rest := by
  -- The outline has an answer, so the parser has one, and then they agree.
  obtain ⟨r, s', hrun, hfree'⟩ :=
    (succeeds (Standard.outline d).toOutline fuel).climbing good hfree (hfound.trans_ne nofun)
  obtain ⟨step, answer⟩ := (refines (Standard.outline d).toOutline fuel).climbing good hrun
  rw [hfound] at answer
  cases r with
  | none => cases answer.1
  | some root =>
      obtain ⟨-, -, hanswer⟩ := answer
      obtain ⟨hcontent, hrest⟩ := Attempt.found.inj hanswer
      exact ⟨root, s', hrun, step.good, hfree', hcontent.symm, hrest.symm⟩

/-- An expression with all the brackets that it needs is what the parser makes of
its tokens. -/
theorem Expression.parseClimbing_trees (e : Expression d) (hgrouped : e.Grouped .free) {fuel : Nat}
    (hfuel : 64 * e.size < fuel) {s : ParseState} (good : s.Good (Standard.outline d).toOutline 0)
    (hfree : s.Free 0) (hupcoming : s.source.upcoming = e.trees) :
    ∃ root s', Parsing.parseClimbing { dialect := d } fuel Standard.operands Standard.binary 0 s =
        (.ok (some root), s') ∧
      (Source.isExhausted s'.source).1 = .ok true ∧ s'.forest.content root = e.content := by
  have hfound : (Standard.outline d).climbing fuel Standard.operands Standard.binary 0
      s.source.upcoming = .found e.content [] := by
    rw [hupcoming]
    exact e.climbing_alone hgrouped hfuel
  obtain ⟨root, s', hrun, good', hfree', hcontent, hrest⟩ :=
    Parsing.climbing_of_found good hfree hfound
  obtain ⟨b, source, hexhausted, -⟩ := Source.runs_isExhausted hfree'
  obtain ⟨-, -, hb⟩ := Source.isExhausted_ok good'.ready hexhausted
  refine ⟨root, s', hrun, ?_, hcontent⟩
  rw [hexhausted, hb, hrest]
  rfl

/-- The tree that lexemes, taken as tokens, are read as, if they are read to their
end as an expression. -/
def Standard.readExpression? (d : Dialect) (lexemes : List String) : Option Content :=
  let trees := TokenTree.ofLexemes d lexemes
  let s := Parsing.start { stream := .ofCells (TokenTree.toCells trees) } registry d
  match Parsing.parseClimbing { dialect := d } (Parsing.bound s) operands binary 0 s with
  | (.ok (some root), s') =>
    match (Source.isExhausted s'.source).1 with
    | .ok true => some (s'.forest.content root)
    | _ => none
  | _ => none

/-- An expression with all the brackets that it needs is read from its lexemes. -/
theorem Expression.readExpression_lexemes (e : Expression d) (hgrouped : e.Grouped .free) :
    Standard.readExpression? d e.lexemes = some e.content := by
  obtain ⟨root, s', hrun, hexhausted, hcontent⟩ := e.parseClimbing_trees hgrouped e.size_lt_bound
    (Parsing.good_start d (Source.ready_ofCells e.trees) (Standard.agrees_registry d))
    (Source.free_ofTrees e.trees) (Source.fresh_ofTrees e.trees).2
  simp only [Standard.readExpression?, e.ofLexemes_lexemes, hrun, hexhausted, hcontent]

namespace Tree

variable {t : Tree} {e : Expression d}

/-- An expression is written with the brackets that it needs. -/
theorem layout_of_holds (h : t.forest.Holds d t.root e) (minimal : Bool) :
    ∃ layout, t.layout d { minimalParens := minimal } = .ok layout ∧
      layout.lexemes = (e.written minimal .free).lexemes := by
  have hdepth : e.height ≤ t.forest.size + 1 := Nat.le_succ_of_le h.height_le
  obtain ⟨layout, s', hrun, hlexemes, -⟩ :=
    Writing.spells_holds (o := { minimalParens := minimal }) h rfl hdepth .free
      { registry := Standard.registry } _ (Standard.agrees_registry d) (Piece.spell_texts 0 _)
  exact ⟨layout, congrArg Prod.fst hrun, hlexemes⟩

/-- What is written for an expression is read as the same tree, nodes for brackets
aside. -/
theorem regrouped_of_holds (h : t.forest.Holds d t.root e) (minimal : Bool) :
    ∃ layout u, t.layout d { minimalParens := minimal } = .ok layout ∧
      Standard.readExpression? d layout.lexemes = some u ∧
      (t.forest.contentTo t.forest.size t.root).unwrapped.Agrees u.unwrapped := by
  obtain ⟨layout, hlayout, hlexemes⟩ := layout_of_holds h minimal
  refine ⟨layout, (e.written minimal .free).content, hlayout, ?_, ?_⟩
  · rw [hlexemes]
    exact (e.written minimal .free).readExpression_lexemes (e.grouped_written minimal .free)
  · rw [Expression.unwrapped_content, e.unwrapped_written]
    exact h.agrees h.height_le

/-- A negation in brackets as a factor of a term of a sum, with nodes and fields
in no particular order. -/
def negatedFactor : Tree where
  forest :=
    { dialect := .postgres
      nodes := #[
        ⟨"NotExpr", [("operand", .node 5)], some 4⟩,
        ⟨"NumberLiteral", [("value", .terminal ⟨.numberLiteral, "1", false, none, ⟨0, 0⟩⟩)], some 3⟩,
        ⟨"BinaryExpr", [("right", .node 4), ("left", .node 6),
          ("operator", .terminal ⟨.operator, "*", false, none, ⟨0, 0⟩⟩)], some 3⟩,
        ⟨"BinaryExpr", [("left", .node 2),
          ("operator", .terminal ⟨.operator, "+", false, none, ⟨0, 0⟩⟩), ("right", .node 1)], none⟩,
        ⟨"ParenExpr", [("expr", .node 0)], some 2⟩,
        ⟨"ColumnRef", [("name", .terminal ⟨.identifier, "a", false, none, ⟨0, 0⟩⟩)], some 0⟩,
        ⟨"ColumnRef", [("name", .terminal ⟨.identifier, "order", true, none, ⟨0, 0⟩⟩)], some 2⟩] }
  root := 3

/-- The brackets around the negation are left out and put in again. -/
theorem negatedFactor_regrouped :
    ∃ e : Expression .mysql, negatedFactor.forest.Holds .mysql negatedFactor.root e ∧
      ∃ layout u, negatedFactor.layout .mysql { minimalParens := true } = .ok layout ∧
        layout.lexemes = ["`order`", "*", "(", "NOT", "a", ")", "+", "1"] ∧
        Standard.readExpression? .mysql layout.lexemes = some u ∧
        (negatedFactor.forest.contentTo 7 3).unwrapped.Agrees u.unwrapped := by
  have hplain {kind : TokenKind} {value : String} :
      Terminal.Plain ⟨kind, value, false, none, ⟨0, 0⟩⟩ := ⟨rfl, rfl⟩
  have hfactor : negatedFactor.forest.Holds .mysql 6 (.atom (.quoted "order")) :=
    .column rfl (.refl _) (.quoted rfl rfl rfl)
  have hname : negatedFactor.forest.Holds .mysql 5 (.atom (.bare "a" (by decide))) :=
    .column rfl (.refl _) (.bare rfl hplain (by decide))
  have hnot : negatedFactor.forest.Holds .mysql 0 (.not (.atom (.bare "a" (by decide)))) :=
    .not rfl (.refl _) hname
  have hparen : negatedFactor.forest.Holds .mysql 4
      (.paren (.not (.atom (.bare "a" (by decide))))) :=
    .paren rfl (.refl _) hnot
  have hproduct : negatedFactor.forest.Holds .mysql 2 (.binary (.atom (.quoted "order"))
      ⟨"*", _, rfl, rfl⟩ (.paren (.not (.atom (.bare "a" (by decide)))))) :=
    .binary rfl (by decide) (.inl rfl) hplain rfl hfactor hparen
  have hone : negatedFactor.forest.Holds .mysql 1 (.atom (.number "1" (by decide))) :=
    .number rfl (.refl _) rfl hplain (by decide)
  have hsum : negatedFactor.forest.Holds .mysql 3 (.binary (.binary (.atom (.quoted "order"))
      ⟨"*", _, rfl, rfl⟩ (.paren (.not (.atom (.bare "a" (by decide)))))) ⟨"+", _, rfl, rfl⟩
        (.atom (.number "1" (by decide)))) :=
    .binary rfl (.refl _) (.inl rfl) hplain rfl hproduct hone
  obtain ⟨layout, u, hlayout, hread⟩ := regrouped_of_holds hsum true
  obtain ⟨layout', hlayout', hlexemes⟩ := layout_of_holds hsum true
  obtain rfl : layout = layout' := Except.ok.inj (hlayout.symm.trans hlayout')
  refine ⟨_, hsum, layout, u, hlayout, ?_, hread⟩
  rw [hlexemes]
  decide

/-- A tree of one node with one terminal. -/
def lone (tag name : String) (t : Terminal) : Tree where
  forest := { dialect := .postgres, nodes := #[⟨tag, [(name, .terminal t)], none⟩] }
  root := 0

/-- A tree of a sign before a name. -/
def opposite (sign : Terminal) : Tree where
  forest :=
    { dialect := .postgres
      nodes := #[
        ⟨"ColumnRef", [("name", .terminal { kind := .identifier, value := "a" })], some 1⟩,
        ⟨"NegateExpr", [("operator", .terminal sign), ("operand", .node 0)], none⟩] }
  root := 1

/-- Whether what is written for a tree is read as the same tree, nodes for brackets
aside. -/
def regroups (t : Tree) (d : Dialect) : Bool :=
  ((t.layout d {}).toOption.bind fun layout => Standard.readExpression? d layout.lexemes).any
    fun u => (t.forest.contentTo t.forest.size t.root).unwrapped.same u.unwrapped

/-- A name that needs quotes is written with them, the name of a data type in upper
case, a text of a number that does not begin like one is read as a name, and neither
modifiers nor quotes of operators are written. -/
theorem loose_operands_change :
    (lone "ColumnRef" "name" { kind := .identifier, value := "order" }).regroups .postgres = false ∧
      (lone "ColumnRef" "name" { kind := .dataType, value := "int" }).regroups .postgres = false ∧
      (lone "NumberLiteral" "value" { kind := .numberLiteral, value := "x" }).regroups .postgres =
        false ∧
      (lone "ColumnRef" "name" { kind := .identifier, value := "a", modifier := some "N" }).regroups
        .postgres = false ∧
      (opposite { kind := .operator, value := "-", quoted := true }).regroups .postgres = false := by
  unfold regroups layout Standard.readExpression?
  rw [Standard.registry_eq]
  decide +kernel

end Tree

end DualSql
