import DualSql.Proofs.Grammar.Regrouping

/-! # Climbing builds the precedence tree

A chain of operands with operators between them can be grouped in many ways. One of
them follows the operators: what stands to the left and to the right of an operator
binds as tightly as its level and its associativity ask. Climbing down to a least
precedence groups the chain in this way, as far as the first operator below it.

Main definitions: `Chain`, `Grouping` and `Grouping.Ordered`. Main results:
`Grouping.Ordered.unique` and `Chain.parseClimbing_ordered`. -/

namespace DualSql

open Standard Outline

variable {d : Dialect}

/-! ### Chains and their groupings -/

/-- A number, as a token. -/
structure Chain.Operand where
  token : Token
  number : token.kind = .numberLiteral

/-- A token that a dialect knows as an operator between two operands. -/
structure Chain.Operator (d : Dialect) where
  token : Token
  info : OperatorInfo
  kind : token.kind = .operator ∨ token.kind = .keyword
  known : Vocabulary.operator? d token.value = some info
  carried : token.operator = some info
  binary : info.binary = true

/-- Operands with operators between them. -/
@[ext]
structure Chain (d : Dialect) where
  first : Chain.Operand
  more : List (Chain.Operator d × Chain.Operand)

/-- A way in which the operands of a chain belong together. -/
inductive Grouping (d : Dialect) where
  | operand (o : Chain.Operand)
  | join (left : Grouping d) (op : Chain.Operator d) (right : Grouping d)

namespace Chain

/-- The trees of operators, each with the operand behind it. -/
def treesBehind : List (Operator d × Operand) → List TokenTree
  | [] => []
  | (op, o) :: more => .leaf op.token :: .leaf o.token :: treesBehind more

/-- The trees of the tokens of a chain. -/
def trees (c : Chain d) : List TokenTree :=
  .leaf c.first.token :: treesBehind c.more

/-- The operator can be that of a left operand of another one. -/
def Operator.FitsLeft (inner outer : Operator d) : Prop :=
  match outer.info.associativity with
  | .left => outer.info.precedence ≤ inner.info.precedence
  | .right => outer.info.precedence < inner.info.precedence

/-- The operator can be that of a right operand of another one. -/
def Operator.FitsRight (inner outer : Operator d) : Prop :=
  match outer.info.associativity with
  | .left => outer.info.precedence < inner.info.precedence
  | .right => outer.info.precedence ≤ inner.info.precedence

end Chain

namespace Grouping

/-- The chain from left to right. -/
def chain : Grouping d → Chain d
  | operand o => ⟨o, []⟩
  | join left op right => ⟨left.chain.first, left.chain.more ++ (op, right.chain.first) :: right.chain.more⟩

/-- The operator that joins the whole. -/
def operator? : Grouping d → Option (Chain.Operator d)
  | operand _ => none
  | join _ op _ => some op

/-- Operators are joined as their levels and associativities ask. -/
def Ordered : Grouping d → Prop
  | operand _ => True
  | join left op right =>
    (∀ inner ∈ left.operator?, inner.FitsLeft op) ∧ (∀ inner ∈ right.operator?, inner.FitsRight op) ∧
      left.Ordered ∧ right.Ordered

/-- The tree that a grouping is parsed as. -/
def content : Grouping d → Content
  | operand o => .node "NumberLiteral" [("value", .terminal (.ofToken o.token))]
  | join left op right => joined binary left.content op.token right.content

end Grouping

/-! ### Only one grouping is ordered -/

namespace Chain.Operator

variable {inner inner' outer : Operator d}

theorem FitsLeft.mono (h : inner.FitsLeft outer)
    (hle : inner.info.precedence ≤ inner'.info.precedence) : inner'.FitsLeft outer := by
  unfold FitsLeft at h ⊢
  cases hassoc : outer.info.associativity with
  | left =>
      rw [hassoc] at h
      exact Nat.le_trans h hle
  | right =>
      rw [hassoc] at h
      exact Nat.lt_of_lt_of_le h hle

theorem FitsRight.mono (h : inner.FitsRight outer)
    (hle : inner.info.precedence ≤ inner'.info.precedence) : inner'.FitsRight outer := by
  unfold FitsRight at h ⊢
  cases hassoc : outer.info.associativity with
  | left =>
      rw [hassoc] at h
      exact Nat.lt_of_lt_of_le h hle
  | right =>
      rw [hassoc] at h
      exact Nat.le_trans h hle

theorem FitsLeft.le (h : inner.FitsLeft outer) : outer.info.precedence ≤ inner.info.precedence := by
  unfold FitsLeft at h
  split at h
  · exact h
  · exact Nat.le_of_lt h

theorem FitsRight.le (h : inner.FitsRight outer) :
    outer.info.precedence ≤ inner.info.precedence := by
  unfold FitsRight at h
  split at h
  · exact Nat.le_of_lt h
  · exact h

/-- Of two operators one joins the other in only one of the two places. -/
theorem FitsRight.not_fitsLeft (h : inner.FitsRight outer) : ¬ outer.FitsLeft inner := by
  intro h'
  have heq : inner.info.precedence = outer.info.precedence := Nat.le_antisymm h'.le h.le
  have hassoc := Vocabulary.associativity_eq inner.known outer.known heq
  unfold FitsRight at h
  unfold FitsLeft at h'
  rw [hassoc, heq] at h'
  cases ha : outer.info.associativity with
  | left =>
      rw [ha, heq] at h
      exact Nat.lt_irrefl _ h
  | right =>
      rw [ha] at h'
      exact Nat.lt_irrefl _ h'

end Chain.Operator

namespace Grouping

/-- No operator of an ordered grouping binds less tightly than the one that joins
the whole. -/
theorem Ordered.le {t : Grouping d} (h : t.Ordered) {op : Chain.Operator d}
    (hop : op ∈ t.operator?) :
    ∀ p ∈ t.chain.more, op.info.precedence ≤ p.1.info.precedence := by
  induction t generalizing op with
  | operand o => cases hop
  | join left root right ihl ihr =>
      obtain ⟨hleft, hright, hl, hr⟩ := h
      obtain rfl : root = op := Option.some.inj hop
      intro p hp
      rcases List.mem_append.1 hp with hp | hp
      · cases left with
        | operand o => cases hp
        | join l inner r => exact Nat.le_trans (hleft inner rfl).le (ihl hl rfl p hp)
      · rcases List.mem_cons.1 hp with rfl | hp
        · exact Nat.le_refl _
        · cases right with
          | operand o => cases hp
          | join l inner r => exact Nat.le_trans (hright inner rfl).le (ihr hr rfl p hp)

theorem exists_of_operator {t : Grouping d} {op : Chain.Operator d} (h : op ∈ t.operator?) :
    ∃ p ∈ t.chain.more, p.1 = op := by
  cases t with
  | operand o => cases h
  | join left root right =>
      obtain rfl := Option.some.inj h
      exact ⟨_, List.mem_append_right _ List.mem_cons_self, rfl⟩

variable {left right left' right' : Grouping d} {op op' : Chain.Operator d}

theorem Ordered.fitsLeft (h : (join left op right).Ordered) :
    ∀ p ∈ left.chain.more, p.1.FitsLeft op := by
  intro p hp
  cases left with
  | operand o => cases hp
  | join l inner r => exact (h.1 inner rfl).mono (h.2.2.1.le rfl p hp)

theorem Ordered.fitsRight (h : (join left op right).Ordered) :
    ∀ p ∈ right.chain.more, p.1.FitsRight op := by
  intro p hp
  cases right with
  | operand o => cases hp
  | join l inner r => exact (h.2.1 inner rfl).mono (h.2.2.2.le rfl p hp)

/-- In two ordered groupings of a chain the operator that joins the whole of the one
does not stand before that of the other. -/
theorem Ordered.length_le (h : (join left op right).Ordered) (h' : (join left' op' right').Ordered)
    (hchain : (join left op right).chain.more = (join left' op' right').chain.more) :
    left'.chain.more.length ≤ left.chain.more.length := by
  by_contra hlt
  rcases List.append_eq_append_iff.1 hchain with ⟨between, hleft', hbehind⟩ | ⟨between, hleft, -⟩
  · cases between with
    | nil =>
        rw [List.append_nil] at hleft'
        exact hlt (Nat.le_of_eq (congrArg List.length hleft'))
    | cons p between =>
        obtain ⟨rfl, hright⟩ := List.cons_eq_cons.1 hbehind
        have hinner : op.FitsLeft op' := by
          refine h'.fitsLeft (op, right.chain.first) ?_
          rw [hleft']
          exact List.mem_append_right _ List.mem_cons_self
        have houter : op'.FitsRight op := by
          refine h.fitsRight (op', right'.chain.first) ?_
          rw [hright]
          exact List.mem_append_right _ List.mem_cons_self
        exact houter.not_fitsLeft hinner
  · rw [hleft, List.length_append] at hlt
    omega

/-- A chain has at most one ordered grouping. -/
theorem Ordered.unique {t t' : Grouping d} (h : t.Ordered) (h' : t'.Ordered)
    (hchain : t.chain = t'.chain) : t = t' := by
  induction t generalizing t' with
  | operand o =>
      obtain ⟨hfirst, hmore⟩ := Chain.mk.inj hchain
      cases t' with
      | operand o' => exact congrArg operand hfirst
      | join left op right =>
          exact absurd hmore.symm (List.append_ne_nil_of_right_ne_nil _ (List.cons_ne_nil _ _))
  | join left op right ihl ihr =>
      cases t' with
      | operand o' =>
          exact absurd (Chain.mk.inj hchain).2
            (List.append_ne_nil_of_right_ne_nil _ (List.cons_ne_nil _ _))
      | join left' op' right' =>
          obtain ⟨hfirst, hmore⟩ := Chain.mk.inj hchain
          have hlength : left.chain.more.length = left'.chain.more.length :=
            Nat.le_antisymm (h'.length_le h hmore.symm) (h.length_le h' hmore)
          obtain ⟨hleft, hbehind⟩ := List.append_inj hmore hlength
          obtain ⟨hpair, hright⟩ := List.cons_eq_cons.1 hbehind
          obtain ⟨rfl, hfirst'⟩ := Prod.mk.inj hpair
          obtain rfl := ihl h.2.2.1 h'.2.2.1 (Chain.ext hfirst hleft)
          obtain rfl := ihr h.2.2.2 h'.2.2.2 (Chain.ext hfirst' hright)
          rfl

end Grouping

/-! ### What climbing builds -/

namespace Chain

/-- Whether an operator is taken down to a least precedence. -/
def takes (minimum : Nat) (p : Operator d × Operand) : Bool :=
  minimum ≤ p.1.info.precedence

theorem isTrivia_operator (op : Operator d) : op.token.kind.isTrivia = false := by
  rcases op.kind with h | h <;> rw [h] <;> rfl

theorem isTrivia_operand (o : Operand) : o.token.kind.isTrivia = false := by
  rw [o.number]
  rfl

theorem operator_cons (minimum : Nat) (p : Operator d × Operand) (rest : List TokenTree) :
    operator minimum (.leaf p.1.token :: rest) =
      if takes minimum p then some (p.1.token, p.1.info, rest) else none := by
  have hsignificant : TokenTree.significant (.leaf p.1.token :: rest) =
      .leaf p.1.token :: rest := by
    simp [TokenTree.significant, TokenTree.isTrivia, TokenTree.token, isTrivia_operator p.1]
  simp [operator, hsignificant, TokenTree.token, p.1.carried, p.1.binary, takes]

/-- An operator behind what joined at another one and stopped there has what was
joined as its left operand. -/
theorem Operator.fitsLeft_of_lt {inner outer : Operator d}
    (h : outer.info.precedence < Parsing.nextMinimum inner.info) : inner.FitsLeft outer := by
  have hbound := (Vocabulary.precedence_bounds inner.known).2
  have hassoc := Vocabulary.associativity_eq inner.known outer.known
  unfold FitsLeft
  simp only [Parsing.nextMinimum] at h
  cases ha : inner.info.associativity <;> cases ha' : outer.info.associativity <;>
    simp only [ha, ha', reduceCtorEq, imp_false] at h hassoc ⊢ <;> omega

theorem Operator.fitsRight_of_le {inner outer : Operator d}
    (h : Parsing.nextMinimum outer.info ≤ inner.info.precedence) : inner.FitsRight outer := by
  have hbound := (Vocabulary.precedence_bounds outer.known).2
  unfold FitsRight
  simp only [Parsing.nextMinimum] at h
  cases ha : outer.info.associativity <;> simp only [ha] at h ⊢ <;> omega

theorem Operator.le_nextMinimum (op : Operator d) :
    op.info.precedence ≤ Parsing.nextMinimum op.info := by
  have hbound := (Vocabulary.precedence_bounds op.known).2
  unfold Parsing.nextMinimum
  split <;> omega

/-- What is taken down to a higher precedence and then down to a lower one is what is
taken down to the lower one. -/
theorem takeWhile_takes {least minimum : Nat} (hle : least ≤ minimum)
    (more : List (Operator d × Operand)) :
    more.takeWhile (takes least) =
        more.takeWhile (takes minimum) ++ (more.dropWhile (takes minimum)).takeWhile (takes least) ∧
      more.dropWhile (takes least) = (more.dropWhile (takes minimum)).dropWhile (takes least) := by
  induction more with
  | nil => exact ⟨rfl, rfl⟩
  | cons p more ih =>
      cases htakes : takes minimum p with
      | false => simp [htakes]
      | true =>
          have hleast : takes least p = true := by
            simp only [takes, decide_eq_true_eq] at htakes ⊢
            omega
          simp [htakes, hleast, ih]

theorem climbing_first {minimum fuel : Nat} (o : Operand) (rest : List TokenTree) :
    (outline d).climbing (fuel + 21) operands binary minimum (.leaf o.token :: rest) =
      (outline d).extending (fuel + 20) operands binary minimum
        (Grouping.operand (d := d) o).content rest :=
  climbing_operand (any_number o.number)

/-- Climbing extends an ordered grouping by the operators down to the least precedence,
and keeps it ordered, if the first of them could not be taken into it. -/
theorem extending_ordered (minimum : Nat) (left : Grouping d) {fuel : Nat}
    {more : List (Operator d × Operand)} (hleft : left.Ordered)
    (hstops : ∀ op ∈ left.operator?, ∀ p ∈ more.head?,
      p.1.info.precedence < Parsing.nextMinimum op.info)
    (hfuel : 2 * more.length + 21 ≤ fuel) :
    ∃ t : Grouping d, t.Ordered ∧
      t.chain = ⟨left.chain.first, left.chain.more ++ more.takeWhile (takes minimum)⟩ ∧
      (outline d).extending fuel operands binary minimum left.content (treesBehind more) =
        .found t.content (treesBehind (more.dropWhile (takes minimum))) := by
  -- The induction is on the operators that are left, for every grouping before them.
  induction hn : more.length using Nat.strong_induction_on generalizing minimum fuel left more with
  | _ n ih =>
  subst hn
  obtain ⟨fuel, rfl⟩ : ∃ k, fuel = k + 1 := ⟨fuel - 1, by omega⟩
  cases more with
  | nil =>
      refine ⟨left, hleft, by simp, ?_⟩
      rw [extending]
      rfl
  | cons p more =>
      obtain ⟨op, o⟩ := p
      rw [treesBehind, extending, operator_cons minimum (op, o)]
      cases htakes : takes minimum (op, o) with
      | false => exact ⟨left, hleft, by simp [htakes], by simp [htakes, treesBehind]⟩
      | true =>
          simp only [List.length_cons] at hfuel ih
          obtain ⟨fuel, rfl⟩ : ∃ k, fuel = k + 21 := ⟨fuel - 21, by omega⟩
          have hmin : minimum ≤ Parsing.nextMinimum op.info :=
            Nat.le_trans (of_decide_eq_true htakes) op.le_nextMinimum
          -- The right operand takes what binds more tightly than the operator.
          have hnone : ∀ inner ∈ (Grouping.operand (d := d) o).operator?, ∀ p ∈ more.head?,
              p.1.info.precedence < Parsing.nextMinimum inner.info := by
            intro inner hinner
            cases hinner
          have hroom : 2 * more.length + 21 ≤ fuel + 20 := by omega
          obtain ⟨right, hright, hchain, hfound⟩ := ih more.length (Nat.lt_succ_self _)
            (Parsing.nextMinimum op.info) (.operand o) trivial hnone hroom rfl
          rw [← climbing_first] at hfound
          have htaken : right.chain.more = more.takeWhile (takes (Parsing.nextMinimum op.info)) := by
            rw [hchain]
            rfl
          have hordered : (Grouping.join left op right).Ordered := by
            refine ⟨fun inner hinner => ?_, fun inner hinner => ?_, hleft, hright⟩
            · exact Operator.fitsLeft_of_lt (hstops inner hinner (op, o) rfl)
            · obtain ⟨p, hp, rfl⟩ := Grouping.exists_of_operator hinner
              rw [htaken] at hp
              exact Operator.fitsRight_of_le (of_decide_eq_true (List.mem_takeWhile_imp (p := takes _) hp))
          have hbelow : ∀ root ∈ (Grouping.join left op right).operator?,
              ∀ p ∈ (more.dropWhile (takes (Parsing.nextMinimum op.info))).head?,
                p.1.info.precedence < Parsing.nextMinimum root.info := by
            intro root hroot p hp
            obtain rfl := Option.some.inj hroot
            have hnot := List.head?_dropWhile_not (takes (Parsing.nextMinimum op.info)) more
            rw [hp] at hnot
            simpa [takes] using hnot
          obtain ⟨hsplit, hrest⟩ := takeWhile_takes hmin more
          have hshorter := (List.dropWhile_suffix (l := more)
            (takes (Parsing.nextMinimum op.info))).length_le
          have hroom' : 2 * (more.dropWhile (takes (Parsing.nextMinimum op.info))).length + 21 ≤
              fuel + 21 := by
            omega
          obtain ⟨t, ht, htchain, htfound⟩ := ih _ (Nat.lt_succ_of_le hshorter) minimum
            (.join left op right) hordered hbelow hroom' rfl
          refine ⟨t, ht, ?_, ?_⟩
          · rw [htchain, List.takeWhile_cons_of_pos htakes, hsplit]
            simp [Grouping.chain, hchain]
          · rw [List.dropWhile_cons_of_pos htakes, hrest, ← htfound]
            simp only [if_true, hfound]
            rfl

/-- What climbing finds in a chain is an ordered grouping of the part that it takes. -/
theorem climbing_ordered (c : Chain d) (minimum : Nat) {fuel : Nat} (hfuel : 2 * c.more.length + 22 ≤ fuel) :
    ∃ t : Grouping d, t.Ordered ∧ t.chain = ⟨c.first, c.more.takeWhile (takes minimum)⟩ ∧
      (outline d).climbing fuel operands binary minimum c.trees =
        .found t.content (treesBehind (c.more.dropWhile (takes minimum))) := by
  obtain ⟨fuel, rfl⟩ : ∃ k, fuel = k + 21 := ⟨fuel - 21, by omega⟩
  have hnone : ∀ inner ∈ (Grouping.operand (d := d) c.first).operator?, ∀ p ∈ c.more.head?,
      p.1.info.precedence < Parsing.nextMinimum inner.info := by
    intro inner hinner
    cases hinner
  have hroom : 2 * c.more.length + 21 ≤ fuel + 20 := by omega
  obtain ⟨t, ht, hchain, hfound⟩ :=
    extending_ordered minimum (.operand c.first) trivial hnone hroom
  exact ⟨t, ht, hchain, (climbing_first c.first _).trans hfound⟩

/-- Each token of a chain counts. -/
theorem weight_trees (c : Chain d) :
    ((TokenTree.toCells c.trees).map Cell.weight).sum = 2 * c.more.length + 1 := by
  have hbehind (more : List (Operator d × Operand)) :
      ((TokenTree.toCells (treesBehind more)).map Cell.weight).sum = 2 * more.length := by
    induction more with
    | nil => rfl
    | cons p more ih =>
        obtain ⟨op, o⟩ := p
        simp only [treesBehind, TokenTree.toCells, TokenTree.toCell, List.map_cons, List.sum_cons,
          Cell.weight_leaf (isTrivia_operator op), Cell.weight_leaf (isTrivia_operand o), ih,
          List.length_cons]
        omega
  simp only [trees, TokenTree.toCells, TokenTree.toCell, List.map_cons, List.sum_cons,
    Cell.weight_leaf (isTrivia_operand c.first), hbehind]
  omega

/-- Climbing over a chain takes it up to the first operator below the least precedence,
all of it if there is none. What it builds of this part is an ordered grouping, and the
only one. -/
theorem parseClimbing_ordered (c : Chain d) (minimum : Nat) :
    let s := Parsing.start { stream := .ofCells (TokenTree.toCells c.trees) } Standard.registry d
    let taken : Chain d := ⟨c.first, c.more.takeWhile (takes minimum)⟩
    ∃ root s' t, Parsing.parseClimbing { dialect := d } (Parsing.bound s) Standard.operands
        Standard.binary minimum s = (.ok (some root), s') ∧
      s'.source.upcoming = treesBehind (c.more.dropWhile (takes minimum)) ∧
      s'.forest.content root = t.content ∧ t.chain = taken ∧ t.Ordered ∧
      ∀ t' : Grouping d, t'.chain = taken → t'.Ordered → t' = t := by
  intro s taken
  have hbound : 64 * (2 * c.more.length + 1) < Parsing.bound s := by
    rw [← c.weight_trees]
    exact Parsing.weight_lt_bound d c.trees
  have hroom : 2 * c.more.length + 22 ≤ Parsing.bound s := by omega
  obtain ⟨t, hordered, hchain, hfound⟩ := c.climbing_ordered minimum hroom
  have hupcoming : s.source.upcoming = c.trees := (Source.fresh_ofTrees c.trees).2
  rw [← hupcoming] at hfound
  obtain ⟨root, s', hrun, -, -, hcontent, hrest⟩ := Parsing.climbing_of_found
    (Parsing.good_start d (Source.ready_ofCells c.trees) (Standard.agrees_registry d))
    (Source.free_ofTrees c.trees) hfound
  refine ⟨root, s', t, hrun, hrest, hcontent, hchain, hordered, ?_⟩
  intro t' hchain' hordered'
  exact hordered'.unique hordered (hchain'.trans hchain.symm)

end Chain

end DualSql
