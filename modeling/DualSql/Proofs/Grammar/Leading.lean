import DualSql.Proofs.Grammar.Cache
import DualSql.Proofs.Grammar.Outline
import DualSql.Proofs.Lookup

/-! # What comes before the first token

A production that need not match can match without a token, and so can what is
made of such productions. Whatever else matches takes a token, if the rules of
all types do. And before it takes one it can go through other productions and
types only as far as a depth that can be computed.

Main definitions: `Production.passes`, `Production.depth` and
`Outline.Layered`. Main result: `Outline.takes`, what is left of the trees. -/

namespace DualSql

namespace TokenTree

mutual

/-- The number of tokens in a tree, trivia apart. -/
def weight : TokenTree → Nat
  | leaf t => if t.kind.isTrivia then 0 else 1
  | block t contents => if t.kind.isTrivia then 0 else 1 + weightAll contents

/-- The number of tokens in several trees, trivia apart. -/
def weightAll : List TokenTree → Nat
  | [] => 0
  | tree :: rest => tree.weight + weightAll rest

end

theorem weightAll_append (a b : List TokenTree) :
    weightAll (a ++ b) = weightAll a + weightAll b := by
  induction a with
  | nil => simp [weightAll]
  | cons tree rest ih => simp [weightAll, ih, Nat.add_assoc]

theorem weight_eq_zero {tree : TokenTree} (h : tree.isTrivia = true) : tree.weight = 0 := by
  cases tree <;> simp_all [weight, isTrivia, token]

theorem weight_pos {tree : TokenTree} (h : tree.isTrivia = false) : 0 < tree.weight := by
  cases tree with
  | leaf t => simp_all [weight, isTrivia, token]
  | block t contents =>
      have hkind : t.kind.isTrivia = false := h
      rw [weight, hkind]
      exact Nat.lt_of_lt_of_le Nat.one_pos (Nat.le_add_right 1 _)

/-- Trees that have tokens in them are not all trivia. -/
theorem exists_significant {trees : List TokenTree} (h : 0 < weightAll trees) :
    ∃ tree ∈ trees, tree.isTrivia = false := by
  induction trees with
  | nil => cases h
  | cons tree rest ih =>
      cases htrivia : tree.isTrivia with
      | false => exact ⟨tree, List.mem_cons_self, htrivia⟩
      | true =>
          rw [weightAll, weight_eq_zero htrivia, Nat.zero_add] at h
          obtain ⟨other, hother, hsignificant⟩ := ih h
          exact ⟨other, List.mem_cons_of_mem _ hother, hsignificant⟩

theorem significant_suffix (trees : List TokenTree) : significant trees <:+ trees :=
  List.dropWhile_suffix _

/-- Some trees are the last of others, and have fewer tokens in them where one
has to be taken. -/
structure Beyond (trees rest : List TokenTree) (taken : Prop) : Prop where
  suffix : rest <:+ trees
  fewer : taken → weightAll rest < weightAll trees

namespace Beyond

variable {a b c : List TokenTree} {p q : Prop}

theorem refl (trees : List TokenTree) : Beyond trees trees False :=
  ⟨List.suffix_refl trees, nofun⟩

theorem mono (h : Beyond a b p) (hqp : q → p) : Beyond a b q :=
  ⟨h.suffix, h.fewer ∘ hqp⟩

theorem le (h : Beyond a b p) : weightAll b ≤ weightAll a := by
  obtain ⟨taken, rfl⟩ := h.suffix
  rw [weightAll_append]
  exact Nat.le_add_left _ _

theorem trans (h : Beyond a b p) (h' : Beyond b c q) : Beyond a c (p ∨ q) := by
  refine ⟨h'.suffix.trans h.suffix, ?_⟩
  rintro (hp | hq)
  · exact Nat.lt_of_le_of_lt h'.le (h.fewer hp)
  · exact Nat.lt_of_lt_of_le (h'.fewer hq) h.le

theorem taken (h : Beyond a b p) (hp : p) : Beyond a b True :=
  h.mono fun _ => hp

end Beyond

theorem beyond_significant (trees : List TokenTree) : Beyond trees (significant trees) False :=
  ⟨significant_suffix trees, nofun⟩

/-- Behind the first token that is not trivia there are fewer. -/
theorem beyond_cons {trees rest : List TokenTree} {tree : TokenTree}
    (h : significant trees = tree :: rest) : Beyond trees rest True := by
  have hsuffix := h ▸ significant_suffix trees
  refine ⟨(List.suffix_cons tree rest).trans hsuffix, fun _ => ?_⟩
  have hpos : tree.isTrivia = false := by
    have hhead := List.head?_dropWhile_not isTrivia trees
    rw [show trees.dropWhile isTrivia = tree :: rest from h] at hhead
    simpa using hhead
  have hle := (beyond_significant trees).le
  rw [h, weightAll] at hle
  have := weight_pos hpos
  omega

end TokenTree

/-! ### Productions that can match without a token -/

/-- Whether a rule can be left out. -/
def RuleAttrs.lenient (a : RuleAttrs) : Bool :=
  a.optional || a.condition.isSome

/-- Whether a list with some arity can be empty. -/
def RuleAttrs.allowsNone (a : RuleAttrs) : Bool :=
  a.arity.any (·.least == 0)

namespace Production

mutual

/-- Whether a production can match without a token, if no node can. -/
def passes : Production → Bool
  | token info _ _ => info.attrs.lenient
  | node info _ _ => info.attrs.lenient || info.attrs.allowsNone
  | sequence info parts => info.attrs.lenient || passesAll parts
  | alternatives info branches =>
    info.attrs.lenient || !info.attrs.name.isSome && passesAny branches
  | block info _ _ => info.attrs.lenient

/-- Whether all of several productions can match without a token. -/
def passesAll : List Production → Bool
  | [] => true
  | p :: rest => p.passes && passesAll rest

/-- Whether one of several productions can match without a token. -/
def passesAny : List Production → Bool
  | [] => false
  | p :: rest => p.passes || passesAny rest

end

/-- Whether a production can match without a token although it is not left out. -/
def bodyPasses : Production → Bool
  | token .. | block .. => false
  | node info _ _ => info.attrs.allowsNone
  | sequence _ parts => passesAll parts
  | alternatives info branches => !info.attrs.name.isSome && passesAny branches

theorem passes_eq (p : Production) : p.passes = (p.attrs.lenient || p.bodyPasses) := by
  cases p <;> simp [passes, bodyPasses, attrs, info]

end Production

/-! ### What is left of the trees -/

namespace Outline

open TokenTree

variable {o : Outline} {trees rest : List TokenTree} {fields fields' : Parts}

theorem beyond_of_token {kinds : List TokenKind} {values : List String} {name : Option String}
    (h : token kinds values name fields trees = .found fields' rest) : Beyond trees rest True := by
  unfold token at h
  split at h
  · cases h
  next tree rest' hsig =>
    split at h
    · cases h
      exact beyond_cons hsig
    · cases h

theorem beyond_of_tokens {name : Option String} {branches : List Production}
    (h : tokens name fields trees branches = .found fields' rest) : Beyond trees rest True := by
  induction branches with
  | nil => cases h
  | cons p branches ih =>
      rw [tokens] at h
      split at h
      · exact ih h
      · rcases Attempt.orElse_eq_found h with h | ⟨-, h⟩
        · exact beyond_of_token h
        · exact ih h

theorem beyond_of_separate {separator : Option String} {items : List Content} {b : Bool}
    (h : separate separator items trees = (b, rest)) : Beyond trees rest False := by
  unfold separate at h
  split at h
  · cases h
    exact .refl trees
  · split at h
    · cases h
      exact .refl trees
    · have hsignificant := beyond_significant trees
      split at h
      next hsig =>
        cases h
        exact hsig ▸ hsignificant
      next tree rest' hsig =>
        split at h
        · cases h
          exact (beyond_cons hsig).mono nofun
        · cases h
          exact hsig ▸ hsignificant

theorem beyond_of_operator {minimum : Nat} {t : Token} {info : OperatorInfo}
    (h : operator minimum trees = some (t, info, rest)) : Beyond trees rest True := by
  unfold operator at h
  split at h
  · cases h
  next tree rest' hsig =>
    split at h
    · split at h
      · cases h
        exact beyond_cons hsig
      · cases h
    · cases h

/-- No type has a rule that can match without a token. -/
def Grounded (o : Outline) : Prop :=
  ∀ tag sch root, (o.registry.schema tag o.options.dialect).1 = .ok sch → sch.root = some root →
    root.passes = false

/-- What the functions of the outline leave of the trees, at some fuel. -/
structure Takes (o : Outline) (fuel : Nat) : Prop where
  node {tag : String} {trees : List TokenTree} {x : Content} {rest : List TokenTree} :
    o.node fuel tag trees = .found x rest → Beyond trees rest True
  any {types : List String} {trees : List TokenTree} {x : Content} {rest : List TokenTree} :
    o.any fuel types trees = .found x rest → Beyond trees rest True
  type {tag : String} {trees : List TokenTree} {x : Content} {rest : List TokenTree} :
    o.type fuel tag trees = .found x rest → Beyond trees rest True
  climbing {operands : List String} {climb : Climb} {minimum : Nat} {trees : List TokenTree}
      {x : Content} {rest : List TokenTree} :
    o.climbing fuel operands climb minimum trees = .found x rest → Beyond trees rest True
  extending {operands : List String} {climb : Climb} {minimum : Nat} {left : Content}
      {trees : List TokenTree} {x : Content} {rest : List TokenTree} :
    o.extending fuel operands climb minimum left trees = .found x rest → Beyond trees rest False
  rule {p : Production} {fields fields' : Parts} {trees rest : List TokenTree} :
    o.rule fuel p fields trees = .found fields' rest → Beyond trees rest (p.passes = false)
  all {parts : List Production} {fields fields' : Parts} {trees rest : List TokenTree} :
    o.all fuel parts fields trees = .found fields' rest →
    Beyond trees rest (Production.passesAll parts = false)
  first {branches : List Production} {fields fields' : Parts} {trees rest : List TokenTree} :
    o.first fuel branches fields trees = .found fields' rest →
    Beyond trees rest (Production.passesAny branches = false)
  block {bracket : Bracket} {inner : Production} {fields fields' : Parts}
      {trees rest : List TokenTree} :
    o.block fuel bracket inner fields trees = .found fields' rest → Beyond trees rest True
  field {info : RuleInfo} {types : List String} {climb : Option Climb} {fields fields' : Parts}
      {trees rest : List TokenTree} :
    o.field fuel info types climb fields trees = .found fields' rest →
    Beyond trees rest (info.attrs.allowsNone = false)
  operand {info : RuleInfo} {types : List String} {climb : Option Climb} {trees : List TokenTree}
      {x : Content} {rest : List TokenTree} :
    o.operand fuel info types climb trees = .found x rest → Beyond trees rest True
  items {info : RuleInfo} {types : List String} {climb : Option Climb} {arity : Arity}
      {sofar : List Content} {trees : List TokenTree} {xs : List Content}
      {rest : List TokenTree} :
    o.items fuel info types climb arity sofar trees = .found xs rest →
    Beyond trees rest (sofar.length < xs.length)

theorem takes_zero (o : Outline) : Takes o 0 := by
  constructor
  all_goals
    intros
    rename_i h
    simp [node, any, type, climbing, extending, rule, all, first, block, field, operand,
      items] at h

section succ

variable {fuel : Nat} (ih : Takes o fuel)
include ih

theorem beyond_of_climbing {operands : List String} {climb : Climb} {minimum : Nat} {x : Content}
    (h : o.climbing (fuel + 1) operands climb minimum trees = .found x rest) :
    Beyond trees rest True := by
  rw [climbing] at h
  obtain ⟨left, rest', hleft, h⟩ := Attempt.andThen_eq_found h
  exact ((ih.any hleft).trans (ih.extending h)).mono .inl

theorem beyond_of_node {tag : String} {x : Content}
    (h : o.node (fuel + 1) tag trees = .found x rest) : Beyond trees rest True := by
  rw [node] at h
  split at h
  · cases h
  · exact ih.type h
  · obtain ⟨x', rest', hclimb, h⟩ := Attempt.andThen_eq_found h
    split at h
    · cases h
      exact ih.climbing hclimb
    · cases h

theorem beyond_of_any {types : List String} {x : Content}
    (h : o.any (fuel + 1) types trees = .found x rest) : Beyond trees rest True := by
  cases types with
  | nil => cases h
  | cons tag types =>
      rw [any] at h
      rcases Attempt.orElse_eq_found h with h | ⟨-, h⟩
      · exact ih.node h
      · exact ih.any h

theorem beyond_of_type (grounded : o.Grounded) {tag : String} {x : Content}
    (h : o.type (fuel + 1) tag trees = .found x rest) : Beyond trees rest True := by
  rw [type] at h
  split at h
  · cases h
  next sch hschema =>
    split at h
    · cases h
    next root hroot =>
      obtain ⟨fields, hrule, -⟩ := Attempt.map_eq_found h
      exact (ih.rule hrule).taken (grounded tag sch root hschema hroot)

theorem beyond_of_extending {operands : List String} {climb : Climb} {minimum : Nat}
    {left x : Content}
    (h : o.extending (fuel + 1) operands climb minimum left trees = .found x rest) :
    Beyond trees rest False := by
  rw [extending] at h
  split at h
  · cases h
    exact .refl trees
  next t info behind hoperator =>
    split at h
    · cases h
    · cases h
      exact .refl trees
    next right rest' hright =>
      have hmore := (ih.climbing hright).trans (ih.extending h)
      exact ((beyond_of_operator hoperator).trans hmore).mono False.elim

theorem beyond_of_all {parts : List Production}
    (h : o.all (fuel + 1) parts fields trees = .found fields' rest) :
    Beyond trees rest (Production.passesAll parts = false) := by
  cases parts with
  | nil =>
      cases h
      exact (Beyond.refl trees).mono nofun
  | cons p parts =>
      rw [all] at h
      obtain ⟨fields₁, rest₁, hrule, h⟩ := Attempt.andThen_eq_found h
      refine ((ih.rule hrule).trans (ih.all h)).mono fun hpasses => ?_
      exact Bool.and_eq_false_iff.1 hpasses

theorem beyond_of_first {branches : List Production}
    (h : o.first (fuel + 1) branches fields trees = .found fields' rest) :
    Beyond trees rest (Production.passesAny branches = false) := by
  cases branches with
  | nil => cases h
  | cons p branches =>
      rw [first] at h
      rcases Attempt.orElse_eq_found h with h | ⟨-, h⟩
      · exact (ih.rule h).mono fun hpasses => (Bool.or_eq_false_iff.1 hpasses).1
      · exact (ih.first h).mono fun hpasses => (Bool.or_eq_false_iff.1 hpasses).2

omit ih in
theorem beyond_of_block {bracket : Bracket} {inner : Production}
    (h : o.block (fuel + 1) bracket inner fields trees = .found fields' rest) :
    Beyond trees rest True := by
  rw [block] at h
  split at h
  next t contents rest' hsig =>
    split at h
    · cases h
    · obtain ⟨value, left, -, h⟩ := Attempt.andThen_eq_found h
      split at h
      · cases h
        exact beyond_cons hsig
      · cases h
  · cases h

theorem beyond_of_operand {info : RuleInfo} {types : List String} {climb : Option Climb}
    {x : Content} (h : o.operand (fuel + 1) info types climb trees = .found x rest) :
    Beyond trees rest True := by
  cases climb with
  | some climb => exact ih.climbing h
  | none => exact ih.any h

theorem beyond_of_items {info : RuleInfo} {types : List String} {climb : Option Climb}
    {arity : Arity} {sofar xs : List Content}
    (h : o.items (fuel + 1) info types climb arity sofar trees = .found xs rest) :
    Beyond trees rest (sofar.length < xs.length) := by
  have hsame : Beyond trees trees (sofar.length < sofar.length) :=
    (Beyond.refl trees).mono (Nat.lt_irrefl _)
  rw [items] at h
  split at h
  · cases h
    exact hsame
  · split at h
    next hsep =>
      cases h
      exact (beyond_of_separate hsep).mono (Nat.lt_irrefl _)
    next behind hsep =>
      split at h
      · cases h
      · cases h
        exact hsame
      next x rest' hoperand =>
        split at h
        · cases h
          exact hsame
        · have hitem := (beyond_of_separate hsep).trans (ih.operand hoperand)
          exact (hitem.trans (ih.items h)).mono fun _ => .inl (.inr trivial)

theorem beyond_of_field {info : RuleInfo} {types : List String} {climb : Option Climb}
    (h : o.field (fuel + 1) info types climb fields trees = .found fields' rest) :
    Beyond trees rest (info.attrs.allowsNone = false) := by
  rw [field] at h
  split at h
  · cases h
  · split at h
    · obtain ⟨x, hoperand, -⟩ := Attempt.map_eq_found h
      exact (ih.operand hoperand).mono fun _ => trivial
    next arity harity =>
      obtain ⟨xs, rest', hitems, h⟩ := Attempt.andThen_eq_found h
      split at h
      · cases h
      next hmany =>
        cases h
        refine (ih.items hitems).mono fun hnone => ?_
        have hleast : arity.least ≠ 0 := by simpa [RuleAttrs.allowsNone, harity] using hnone
        simp only [List.length_nil]
        omega

theorem beyond_of_body {p : Production} (h : o.body fuel p fields trees = .found fields' rest) :
    Beyond trees rest (p.bodyPasses = false) := by
  cases p with
  | token info kinds values => exact (beyond_of_token h).mono fun _ => trivial
  | node info types climb => exact ih.field h
  | sequence info parts => exact ih.all h
  | alternatives info branches =>
      rw [body] at h
      split at h
      · exact (beyond_of_tokens h).mono fun _ => trivial
      next hname =>
        exact (ih.first h).mono fun hpasses => by simpa [Production.bodyPasses, hname] using hpasses
  | block info bracket inner => exact (ih.block h).mono fun _ => trivial

theorem beyond_of_rule {p : Production}
    (h : o.rule (fuel + 1) p fields trees = .found fields' rest) :
    Beyond trees rest (p.passes = false) := by
  rw [rule_succ] at h
  rw [Production.passes_eq]
  by_cases happlies : applies p fields = true
  · rw [happlies] at h
    rcases Attempt.orElse_eq_found h with h | ⟨-, h⟩
    · refine (beyond_of_body ih h).mono fun hpasses => ?_
      exact (Bool.or_eq_false_iff.1 hpasses).2
    · split at h
      next hoptional =>
        cases h
        refine (Beyond.refl trees).mono fun hpasses => ?_
        simp [RuleAttrs.lenient, hoptional] at hpasses
      · split at h <;> cases h
  · have happlies : applies p fields = false := by simpa using happlies
    rw [happlies] at h
    cases h
    refine (Beyond.refl trees).mono fun hpasses => ?_
    cases hcondition : p.attrs.condition with
    | none => simp [applies, hcondition] at happlies
    | some condition => simp [RuleAttrs.lenient, hcondition] at hpasses

end succ

/-- Whatever is found for a node took a token, and what a production matches took
one unless it can match without. -/
theorem takes (grounded : o.Grounded) (fuel : Nat) : Takes o fuel := by
  induction fuel with
  | zero => exact takes_zero o
  | succ fuel ih =>
      exact {
        node := beyond_of_node ih
        any := beyond_of_any ih
        type := beyond_of_type ih grounded
        climbing := beyond_of_climbing ih
        extending := beyond_of_extending ih
        rule := beyond_of_rule ih
        all := beyond_of_all ih
        first := beyond_of_first ih
        block := beyond_of_block
        field := beyond_of_field ih
        operand := beyond_of_operand ih
        items := beyond_of_items ih }

end Outline

/-! ### The depth before the first token -/

/-- How deep the calls for a node of one of several types can nest before a token
is consumed, if that of each type is bounded by a level. -/
def depthOfTypes (level : String → Nat) : List String → Nat
  | [] => 0
  | tag :: rest => 1 + max (1 + level tag) (depthOfTypes level rest)

namespace Production

variable (level : String → Nat)

mutual

/-- How deep the calls for a production can nest before a token is consumed, or,
looking ahead, how deep they can nest from any one token to the next. -/
def depth (ahead : Bool) : Production → Nat
  | token .. => 0
  | node _ types _ => 5 + depthOfTypes level types
  | sequence _ parts => 1 + depthAll ahead parts
  | alternatives _ branches => 1 + depthAny ahead branches
  | block _ _ inner => 2 + if ahead then inner.depth ahead else 0

/-- The depth of productions one after the other. -/
def depthAll (ahead : Bool) : List Production → Nat
  | [] => 0
  | p :: rest => 1 + max (p.depth ahead) (if ahead || p.passes then depthAll ahead rest else 0)

/-- The depth of productions of which one is chosen. -/
def depthAny (ahead : Bool) : List Production → Nat
  | [] => 0
  | p :: rest => 1 + max (p.depth ahead) (depthAny ahead rest)

end

variable {level}

mutual

theorem depth_le : (p : Production) → p.depth level false ≤ p.depth level true
  | token .. => Nat.le_refl _
  | node .. => Nat.le_refl _
  | sequence _ parts => by
      have := depthAll_le parts
      simp only [depth]
      omega
  | alternatives _ branches => by
      have := depthAny_le branches
      simp only [depth]
      omega
  | block _ _ inner => by simp [depth]

theorem depthAll_le : (parts : List Production) →
    depthAll level false parts ≤ depthAll level true parts
  | [] => Nat.le_refl _
  | p :: rest => by
      have := depth_le p
      have := depthAll_le rest
      simp only [depthAll, Bool.false_or, Bool.true_or, if_true]
      split <;> omega

theorem depthAny_le : (branches : List Production) →
    depthAny level false branches ≤ depthAny level true branches
  | [] => Nat.le_refl _
  | p :: rest => by
      have := depth_le p
      have := depthAny_le rest
      simp only [depthAny]
      omega

end

end Production

/-- No type leads back to itself before a token is consumed: every type has a
level below which the types lie that its nodes can begin with. -/
structure Outline.Layered (o : Outline) (level : String → Nat) (top : Nat) : Prop where
  grounded : o.Grounded
  level_lt (tag : String) : level tag < top
  roots {tag : String} {sch : Schema} {root : Production} :
    (o.registry.schema tag o.options.dialect).1 = .ok sch → sch.root = some root →
    root.depth level false < level tag ∧ root.depth level true ≤ top
  operands {tag : String} {operands : List String} {climb : Climb} {rule : Rule} :
    o.registry.type? tag = some (.climbing operands climb rule) →
    depthOfTypes level operands < level tag

/-- Whether the rule of a type takes a token and keeps to the levels. -/
def Production.isLayered (level : String → Nat) (top : Nat) (tag : String) (root : Production) :
    Bool :=
  !root.passes && root.depth level false < level tag && root.depth level true ≤ top

namespace Registry

/-- Whether the types of a registry keep to their levels in a dialect. -/
def isLayered (r : Registry) (level : String → Nat) (top : Nat) (d : Dialect) : Bool :=
  r.types.all fun entry =>
    (match (r.schema entry.1 d).1 with
      | .ok sch => sch.root.all (Production.isLayered level top entry.1)
      | .error _ => true) &&
    match entry.2 with
    | .declared _ => true
    | .climbing operands _ _ => depthOfTypes level operands < level entry.1

theorem layered_of_isLayered {o : Outline} {level : String → Nat} {top : Nat}
    (h : o.registry.isLayered level top o.options.dialect = true)
    (level_lt : ∀ tag, level tag < top) : o.Layered level top := by
  have hroots {tag : String} {sch : Schema} {root : Production}
      (hschema : (o.registry.schema tag o.options.dialect).1 = .ok sch)
      (hroot : sch.root = some root) : root.isLayered level top tag = true := by
    obtain ⟨nodeType, htype⟩ := exists_type_of_schema hschema
    have hentry := (Bool.and_eq_true_iff.1 (List.all_eq_true.1 h _ (mem_of_lookup htype))).1
    simpa [hschema, hroot] using hentry
  refine ⟨fun tag sch root hschema hroot => ?_, level_lt, fun hschema hroot => ?_, fun htype => ?_⟩
  · have hroot := hroots hschema hroot
    simp only [Production.isLayered, Bool.and_eq_true, Bool.not_eq_true'] at hroot
    exact hroot.1.1
  · have hroot := hroots hschema hroot
    simp only [Production.isLayered, Bool.and_eq_true, decide_eq_true_eq] at hroot
    exact ⟨hroot.1.2, hroot.2⟩
  · have hentry := (Bool.and_eq_true_iff.1 (List.all_eq_true.1 h _ (mem_of_lookup htype))).2
    simpa using hentry

end Registry

end DualSql
