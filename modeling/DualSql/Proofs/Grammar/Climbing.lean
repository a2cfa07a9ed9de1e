import DualSql.Proofs.Grammar.Expression
import DualSql.Proofs.Grammar.Standard

/-! # Expressions are read as they are grouped

An expression that has all the brackets it needs is read as itself: climbing
takes up each operand where it begins and lets it go where an operator comes
that binds less tightly. What carries the argument is how a context limits the
operators behind an operand: none of them could be taken into it.

Main definitions: `Expression.content`, the tree that is read, `Follows`, what can
come behind an operand, and `Context.Guards`. Main result:
`Expression.climbing_trees`.

## Implementation notes

Which operand a token begins is found out by running the outline on that token,
with whatever comes behind it. -/

namespace DualSql

open Standard Outline

variable {d : Dialect}

/-! ### Contexts -/

/-- What comes behind an operand: nothing, or an operator of some precedence. -/
inductive Follows (d : Dialect) : Nat → List TokenTree → Prop
  | nothing (trailing : Nat) : Follows d trailing []
  | operator (op : Connective d) (more : List TokenTree) :
      Follows d op.info.precedence (.leaf op.token :: more)

/-- No operator of the context leaves room for the one behind it. -/
def Context.Guards (d : Dialect) (context : Context) : Prop :=
  ∀ op : Connective d, context.minimum ≤ op.info.precedence →
    context.trailing < Parsing.nextMinimum op.info

theorem Connective.le_nextMinimum (op : Connective d) :
    op.info.precedence ≤ Parsing.nextMinimum op.info := by
  have hbound := (Vocabulary.precedence_bounds op.known).2
  unfold Parsing.nextMinimum
  split <;> omega

theorem guards_free (d : Dialect) : Context.free.Guards d := by
  intro op _
  have hpositive := (Vocabulary.precedence_bounds op.known).1
  exact Nat.lt_of_lt_of_le hpositive op.le_nextMinimum

/-- Behind the operand of a symbol stands nothing that binds more tightly. -/
theorem guards_operand {minimum trailing : Nat} (h : trailing < minimum) :
    Context.Guards d ⟨minimum, trailing⟩ := by
  intro op hmin
  exact Nat.lt_of_lt_of_le h (Nat.le_trans hmin op.le_nextMinimum)

theorem guards_left (op : Connective d) :
    Context.Guards d ⟨op.info.leftMinimum, op.info.precedence⟩ := by
  intro op' hmin
  have hbound := (Vocabulary.precedence_bounds op.known).2
  have hbound' := (Vocabulary.precedence_bounds op'.known).2
  -- Operators of one level group alike, so one that groups to the left raises the minimum.
  have hassoc := Vocabulary.associativity_eq op.known op'.known
  simp only [OperatorInfo.leftMinimum, Parsing.nextMinimum] at hmin ⊢
  cases ha : op.info.associativity <;> cases ha' : op'.info.associativity <;>
    simp only [ha, ha', reduceCtorEq, imp_false] at hmin hassoc ⊢ <;> omega

theorem Context.Guards.right {context : Context} (h : context.Guards d) {op : Connective d}
    (hmin : context.minimum ≤ op.info.precedence) :
    Context.Guards d ⟨Parsing.nextMinimum op.info, context.trailing⟩ :=
  guards_operand (h op hmin)

/-! ### The operators behind an operand -/

theorem Connective.token_eq (op : Connective d) :
    op.token =
      { kind := if Vocabulary.isKeyword d op.symbol then .keyword else .operator
        value := op.symbol
        operator := some op.info } :=
  Token.ofLexeme_operator op.known

theorem Connective.token_kind (op : Connective d) :
    op.token.kind = .operator ∨ op.token.kind = .keyword := by
  rw [op.token_eq]
  cases Vocabulary.isKeyword d op.symbol
  · exact .inl rfl
  · exact .inr rfl

theorem operator_leaf (op : Connective d) (minimum : Nat) (more : List TokenTree) :
    operator minimum (.leaf op.token :: more) =
      if minimum ≤ op.info.precedence then some (op.token, op.info, more) else none := by
  have hsignificant : TokenTree.significant (.leaf op.token :: more) = .leaf op.token :: more := by
    rcases op.token_kind with hkind | hkind <;>
      simp [TokenTree.significant, TokenTree.isTrivia, TokenTree.token, hkind, TokenKind.isTrivia]
  have hinfo : op.token.operator = some op.info := by rw [op.token_eq]
  simp [operator, hsignificant, TokenTree.token, hinfo, op.binary]

/-- An operand is let go where the operator behind it binds less tightly. -/
theorem extending_stop {fuel minimum trailing : Nat} {x : Content} {rest : List TokenTree}
    (h : Follows d trailing rest) (hlt : trailing < minimum) :
    (outline d).extending (fuel + 1) operands binary minimum x rest = .found x rest := by
  have hnone : operator minimum rest = none := by
    cases h with
    | nothing => rfl
    | operator op more => rw [operator_leaf, if_neg (Nat.not_le.2 hlt)]
  rw [extending, hnone]

theorem extending_join {fuel minimum : Nat} {op : Connective d} {x y : Content}
    {trees rest : List TokenTree} (hmin : minimum ≤ op.info.precedence)
    (h : (outline d).climbing fuel operands binary (Parsing.nextMinimum op.info) trees =
      .found y rest) :
    (outline d).extending (fuel + 1) operands binary minimum x (.leaf op.token :: trees) =
      (outline d).extending fuel operands binary minimum (joined binary x op.token y) rest := by
  rw [extending, operator_leaf, if_pos hmin]
  simp only [h]

theorem climbing_operand {fuel minimum : Nat} {x : Content} {trees rest : List TokenTree}
    (h : (outline d).any fuel operands trees = .found x rest) :
    (outline d).climbing (fuel + 1) operands binary minimum trees =
      (outline d).extending fuel operands binary minimum x rest := by
  rw [climbing, h]
  rfl

/-! ### Operands -/

section operands

variable {fuel trailing : Nat} {x : Content} {trees rest : List TokenTree} {t : Token}

theorem any_number (ht : t.kind = .numberLiteral) :
    (outline d).any (fuel + 20) operands (.leaf t :: rest) =
      .found (.node "NumberLiteral" [("value", .terminal (.ofToken t))]) rest := by
  obtain ⟨kind, value, position, spaceBefore, delimiter, modifier, operator⟩ := t
  subst ht
  cases d <;> rfl

/-- A name that neither a bracket nor a point follows is that of a column. -/
theorem any_name (ht : t.kind = .identifier ∨ t.kind = .dataType) (h : Follows d trailing rest) :
    (outline d).any (fuel + 30) operands (.leaf t :: rest) =
      .found (.node "ColumnRef" [("name", .terminal (.ofToken t))]) rest := by
  obtain ⟨kind, value, position, spaceBefore, delimiter, modifier, operator⟩ := t
  cases h with
  | nothing =>
      rcases ht with rfl | rfl
      all_goals cases d <;> rfl
  | operator op more =>
      have hkind := op.token_kind
      generalize op.token = u at hkind
      obtain ⟨kind, value, position, spaceBefore, delimiter, modifier, operator⟩ := u
      rcases ht with rfl | rfl
      all_goals
        rcases hkind with rfl | rfl
        all_goals cases d <;> rfl

theorem node_not :
    (outline d).node (fuel + 8) "NotExpr" (.leaf (.ofLexeme d "NOT") :: trees) =
      ((((((outline d).climbing fuel operands binary Vocabulary.isLevel trees).map fun x =>
        [("operand", x)]).orElse .mismatch).andThen .found).orElse .mismatch).map
        (.node "NotExpr") := by
  cases d <;> rfl

theorem any_not
    (h : (outline d).climbing fuel operands binary Vocabulary.isLevel trees = .found x rest) :
    (outline d).any (fuel + 9) operands (.leaf (.ofLexeme d "NOT") :: trees) =
      .found (.node "NotExpr" [("operand", x)]) rest := by
  rw [operands, any, node_not, h]
  rfl

theorem node_negate :
    (outline d).node (fuel + 8) "NegateExpr" trees =
      ((((token [.operator] ["-", "+", "~", "!"] (some "operator") [] trees).orElse
        .mismatch).andThen fun fields trees =>
          ((((outline d).climbing fuel operands binary Vocabulary.unaryLevel trees).map fun x =>
            fields ++ [("operand", x)]).orElse .mismatch).andThen .found).orElse .mismatch).map
        (.node "NegateExpr") := by
  cases d <;> rfl

theorem token_sign (sign : Sign) :
    token [.operator] ["-", "+", "~", "!"] (some "operator") [] (.leaf (sign.token d) :: trees) =
      .found [("operator", .terminal (.ofToken (sign.token d)))] trees := by
  cases d <;> cases sign <;> rfl

theorem any_negate {sign : Sign}
    (h : (outline d).climbing fuel operands binary Vocabulary.unaryLevel trees = .found x rest) :
    (outline d).any (fuel + 10) operands (.leaf (sign.token d) :: trees) =
      .found (.node "NegateExpr"
        [("operator", .terminal (.ofToken (sign.token d))), ("operand", x)]) rest := by
  have hkind : (sign.token d).kind = .operator := by
    cases d <;> cases sign <;> rfl
  have hnot : (outline d).node (fuel + 9) "NotExpr" (.leaf (sign.token d) :: trees) =
      .mismatch := by
    generalize sign.token d = t at hkind
    obtain ⟨kind, value, position, spaceBefore, delimiter, modifier, operator⟩ := t
    subst hkind
    cases d <;> rfl
  rw [operands, any, hnot, Attempt.orElse, any, node_negate, token_sign]
  simp only [Attempt.orElse, Attempt.andThen, h, Attempt.map]
  rfl

/-- A statement begins with its keyword. -/
theorem node_select (d : Dialect) (fuel : Nat) :
    ∃ more : Parts → List TokenTree → Attempt Parts, ∀ trees,
      (outline d).node (fuel + 5) "SelectStmt" trees =
        ((((token [.keyword] ["SELECT"] none [] trees).orElse .mismatch).andThen more).orElse
          .mismatch).map (.node "SelectStmt") := by
  cases d <;> exact ⟨_, fun _ => rfl⟩

theorem node_subquery (ht : t.kind = .parenBlock) :
    (outline d).node (fuel + 8) "Subquery" (.block t trees :: rest) =
      ((closed rest ((((outline d).any (fuel + 1) ["SelectStmt"] trees).map fun x =>
        [("query", x)]).orElse .mismatch)).orElse .mismatch).map (.node "Subquery") := by
  obtain ⟨kind, value, position, spaceBefore, delimiter, modifier, operator⟩ := t
  subst ht
  cases d <;> rfl

theorem node_paren (ht : t.kind = .parenBlock) :
    (outline d).node (fuel + 7) "ParenExpr" (.block t trees :: rest) =
      ((closed rest ((((outline d).climbing fuel operands binary 0 trees).map fun x =>
        [("expr", x)]).orElse .mismatch)).orElse .mismatch).map (.node "ParenExpr") := by
  obtain ⟨kind, value, position, spaceBefore, delimiter, modifier, operator⟩ := t
  subst ht
  cases d <;> rfl

/-- Whether a tree begins no statement. -/
def TokenTree.opensOperand (tree : TokenTree) : Bool :=
  !tree.isTrivia && !Parsing.fits [.keyword] ["SELECT"] tree.token

/-- Brackets around what begins no statement are those of an expression. -/
theorem any_paren {first : TokenTree} (ht : t.kind = .parenBlock)
    (hfirst : first.opensOperand = true)
    (h : (outline d).climbing (fuel + 6) operands binary 0 (first :: trees) = .found x []) :
    (outline d).any (fuel + 20) operands (.block t (first :: trees) :: rest) =
      .found (.node "ParenExpr" [("expr", x)]) rest := by
  have hothers : (outline d).any (fuel + 20) operands (.block t (first :: trees) :: rest) =
      ((outline d).node (fuel + 14) "Subquery" (.block t (first :: trees) :: rest)).orElse
        (((outline d).node (fuel + 13) "ParenExpr" (.block t (first :: trees) :: rest)).orElse
          ((outline d).any (fuel + 13) (operands.drop 7) (.block t (first :: trees) :: rest))) := by
    obtain ⟨kind, value, position, spaceBefore, delimiter, modifier, operator⟩ := t
    subst ht
    cases d <;> rfl
  simp only [TokenTree.opensOperand, Bool.and_eq_true, Bool.not_eq_true'] at hfirst
  obtain ⟨htrivia, hfits⟩ := hfirst
  have hselect : (outline d).any (fuel + 7) ["SelectStmt"] (first :: trees) = .mismatch := by
    obtain ⟨more, hmore⟩ := node_select d (fuel + 1)
    rw [any, hmore, token, TokenTree.significant, List.dropWhile_cons_of_neg (by simp [htrivia])]
    simp only [hfits, Bool.false_eq_true, if_false]
    rfl
  rw [hothers, node_subquery ht, hselect, node_paren ht, h]
  rfl

end operands

/-! ### Expressions -/

/-- The tree that an operand is read as. -/
def Atom.content (a : Atom d) : Content :=
  match a with
  | .number .. => .node "NumberLiteral" [("value", .terminal (.ofToken a.token))]
  | _ => .node "ColumnRef" [("name", .terminal (.ofToken a.token))]

theorem Atom.token_kind (a : Atom d) :
    a.token.kind = .identifier ∨ a.token.kind = .dataType ∨ a.token.kind = .numberLiteral := by
  cases a with
  | quoted name =>
      rw [token, lexeme, Token.ofLexeme_quoteIdentifier]
      exact .inl rfl
  | bare name plain =>
      rw [token, lexeme, Token.ofLexeme_bare plain]
      exact .inl rfl
  | typeName name known =>
      rw [token, lexeme, Token.ofLexeme_typeName known]
      exact .inr (.inl rfl)
  | number digits starts =>
      rw [token, lexeme, Token.ofLexeme_number starts]
      exact .inr (.inr rfl)

theorem Atom.any_token (a : Atom d) {fuel trailing : Nat} {rest : List TokenTree}
    (h : Follows d trailing rest) :
    (outline d).any (fuel + 30) operands (.leaf a.token :: rest) = .found a.content rest := by
  cases a with
  | quoted name =>
      apply any_name _ h
      rw [token, lexeme, Token.ofLexeme_quoteIdentifier]
      exact .inl rfl
  | bare name plain =>
      apply any_name _ h
      rw [token, lexeme, Token.ofLexeme_bare plain]
      exact .inl rfl
  | typeName name known =>
      apply any_name _ h
      rw [token, lexeme, Token.ofLexeme_typeName known]
      exact .inr rfl
  | number digits starts =>
      apply any_number
      rw [token, lexeme, Token.ofLexeme_number starts]

namespace Expression

/-- The tree that an expression is read as. -/
def content : Expression d → Content
  | atom a => a.content
  | paren inner => .node "ParenExpr" [("expr", inner.content)]
  | not operand => .node "NotExpr" [("operand", operand.content)]
  | signed sign operand =>
    .node "NegateExpr"
      [("operator", .terminal (.ofToken (sign.token d))), ("operand", operand.content)]
  | binary left op right => joined Standard.binary left.content op.token right.content

/-- The number of tokens of an expression. -/
def size : Expression d → Nat
  | atom _ => 1
  | paren inner => 1 + inner.size
  | not operand => 1 + operand.size
  | signed _ operand => 1 + operand.size
  | binary left _ right => left.size + (1 + right.size)

theorem exists_trees (e : Expression d) :
    ∃ first more, e.trees = first :: more ∧ first.opensOperand = true := by
  induction e with
  | atom a =>
      refine ⟨_, _, rfl, ?_⟩
      rcases a.token_kind with hkind | hkind | hkind <;>
        simp [TokenTree.opensOperand, TokenTree.isTrivia, TokenTree.token, Parsing.fits, hkind,
          TokenKind.isTrivia]
  | paren inner ih => exact ⟨_, _, rfl, rfl⟩
  | not operand ih =>
      refine ⟨_, _, rfl, ?_⟩
      cases d <;> decide
  | signed sign operand ih =>
      refine ⟨_, _, rfl, ?_⟩
      cases d <;> cases sign <;> decide
  | binary left op right ihl ihr =>
      obtain ⟨first, more, heq, hopens⟩ := ihl
      exact ⟨first, _, by rw [trees, heq, List.cons_append], hopens⟩

/-- An expression with all the brackets that it needs is read as itself, and
then extended by what comes behind it. Each token takes a bounded amount of
fuel. -/
theorem climbing_trees (e : Expression d) {context : Context} {minimum fuel : Nat}
    {rest : List TokenTree} (hgrouped : e.Grouped context) (hguards : context.Guards d)
    (hmin : minimum ≤ context.minimum) (hrest : Follows d context.trailing rest)
    (hfuel : 64 * e.size < fuel) :
    ∃ left, fuel ≤ left + 64 * e.size ∧
      (outline d).climbing fuel operands Standard.binary minimum (e.trees ++ rest) =
        (outline d).extending left operands Standard.binary minimum e.content rest := by
  induction e generalizing context minimum fuel rest with
  | atom a =>
      obtain ⟨k, rfl⟩ : ∃ k, fuel = k + 31 := ⟨fuel - 31, by simp only [size] at hfuel; omega⟩
      exact ⟨k + 30, by simp only [size]; omega, climbing_operand (a.any_token hrest)⟩
  | paren inner ih =>
      simp only [size] at hfuel ⊢
      obtain ⟨k, rfl⟩ : ∃ k, fuel = k + 21 := ⟨fuel - 21, by omega⟩
      obtain ⟨left, hleft, heq⟩ := ih hgrouped (guards_free d) (Nat.le_refl 0) (.nothing 0)
        (show 64 * inner.size < k + 6 by omega)
      obtain ⟨left, rfl⟩ : ∃ n, left = n + 1 := ⟨left - 1, by omega⟩
      obtain ⟨first, more, htrees, hopens⟩ := inner.exists_trees
      have hfound : (outline d).climbing (k + 6) operands Standard.binary 0 (first :: more) =
          .found inner.content [] := by
        rw [← htrees, ← List.append_nil inner.trees]
        exact heq.trans (by rw [extending]; rfl)
      refine ⟨k + 20, by omega, climbing_operand ?_⟩
      rw [trees, htrees]
      exact any_paren rfl hopens hfound
  | not operand ih =>
      simp only [size] at hfuel ⊢
      obtain ⟨k, rfl⟩ : ∃ k, fuel = k + 10 := ⟨fuel - 10, by omega⟩
      have hlt : context.trailing < Vocabulary.isLevel := Nat.lt_succ_of_le hgrouped.1
      obtain ⟨left, hleft, heq⟩ := ih hgrouped.2 (guards_operand hlt) (Nat.le_refl _) hrest
        (show 64 * operand.size < k by omega)
      obtain ⟨left, rfl⟩ : ∃ n, left = n + 1 := ⟨left - 1, by omega⟩
      exact ⟨k + 9, by omega, climbing_operand (any_not (heq.trans (extending_stop hrest hlt)))⟩
  | signed sign operand ih =>
      simp only [size] at hfuel ⊢
      obtain ⟨k, rfl⟩ : ∃ k, fuel = k + 11 := ⟨fuel - 11, by omega⟩
      have hlt : context.trailing < Vocabulary.unaryLevel := Nat.lt_succ_of_le hgrouped.1
      obtain ⟨left, hleft, heq⟩ := ih hgrouped.2 (guards_operand hlt) (Nat.le_refl _) hrest
        (show 64 * operand.size < k by omega)
      obtain ⟨left, rfl⟩ : ∃ n, left = n + 1 := ⟨left - 1, by omega⟩
      exact ⟨k + 10, by omega,
        climbing_operand (any_negate (heq.trans (extending_stop hrest hlt)))⟩
  | binary l op r ihl ihr =>
      obtain ⟨hprec, hl, hr⟩ := hgrouped
      simp only [size] at hfuel ⊢
      have hlow : minimum ≤ op.info.leftMinimum := by
        refine Nat.le_trans hmin (Nat.le_trans hprec ?_)
        have hbound := (Vocabulary.precedence_bounds op.known).2
        unfold OperatorInfo.leftMinimum
        split <;> omega
      obtain ⟨left, hleft, heq⟩ := ihl hl (guards_left op) hlow
        (.operator op (r.trees ++ rest)) (show 64 * l.size < fuel by omega)
      obtain ⟨left, rfl⟩ : ∃ n, left = n + 1 := ⟨left - 1, by omega⟩
      obtain ⟨right, hright, heq'⟩ := ihr hr (hguards.right hprec) (Nat.le_refl _) hrest
        (show 64 * r.size < left by omega)
      obtain ⟨right, rfl⟩ : ∃ n, right = n + 1 := ⟨right - 1, by omega⟩
      refine ⟨left, by omega, ?_⟩
      rw [trees, List.append_assoc, List.cons_append, heq]
      exact extending_join (Nat.le_trans hmin hprec)
        (heq'.trans (extending_stop hrest (hguards op hprec)))

/-- An expression that stands alone is read as itself, and nothing is left. -/
theorem climbing_alone (e : Expression d) (hgrouped : e.Grouped .free) {fuel : Nat}
    (hfuel : 64 * e.size < fuel) :
    (outline d).climbing fuel operands Standard.binary 0 e.trees = .found e.content [] := by
  obtain ⟨left, hleft, heq⟩ :=
    e.climbing_trees hgrouped (guards_free d) (Nat.le_refl 0) (.nothing 0) hfuel
  obtain ⟨left, rfl⟩ : ∃ n, left = n + 1 := ⟨left - 1, by omega⟩
  rw [List.append_nil] at heq
  rw [heq, extending]
  rfl

end Expression

end DualSql
