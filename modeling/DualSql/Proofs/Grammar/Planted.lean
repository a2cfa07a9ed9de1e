import Mathlib.Data.List.Nodup
import DualSql.Grammar.Standard
import DualSql.Proofs.Forest.Planting
import DualSql.Proofs.Grammar.Refinement

/-! # A parse leaves exactly its tree

Nodes are made by every attempt, also by those that are given up. What is left
of a parse that succeeds is one tree behind the nodes that were there before:
its nodes are the descendants of the root, and each of them is linked to the one
node that holds it.

Main definitions: `PlantsTrees`, what is to be shown of the functions of the
parser at some fuel, and `Forest.GrownBy`. Main results: `plantsTrees` and
`grown_of_found`.

## Implementation notes

The stream plays no part here, so nothing is asked of it. -/

namespace DualSql

namespace Forest

/-- What a list of fields adds to a forest: the trees in them, or some nodes
that are given up. -/
def PlantsFields (f f' : Forest) (fields : Fields) : Option Fields → Prop
  | none => Grows f.size f f'
  | some fields' => ∃ more, fields' = fields ++ more ∧ Plants f f' more.children

/-- What a node adds to a forest: its tree, or nothing. -/
def PlantsNode (f f' : Forest) : Option NodeId → Prop
  | none => f' = f
  | some id => Plants f f' [id]

variable {f f' f'' : Forest}

theorem PlantsNode.grows {r : Option NodeId} (h : f.PlantsNode f' r) : Grows f.size f f' := by
  cases r with
  | none =>
      obtain rfl : f' = f := h
      exact .refl _ f'
  | some id => exact Plants.grows h

theorem PlantsFields.grows {fields : Fields} {r : Option Fields} (h : f.PlantsFields f' fields r) :
    Grows f.size f f' := by
  cases r with
  | none => exact h
  | some fields' =>
      obtain ⟨_, -, h⟩ := h
      exact h.grows

theorem plantsFields_same (f : Forest) (fields : Fields) :
    f.PlantsFields f fields (some fields) :=
  ⟨[], by simp, .refl f⟩

/-- A failed attempt after some trees leaves nodes behind, which are given up. -/
theorem Plants.grows_trans {ids : List NodeId} (h : f.Plants f' ids)
    (h' : Grows f'.size f' f'') : Grows f.size f f'' :=
  h.grows.trans (h'.mono h.grows.size)

end Forest

namespace Parsing

open Fallible Forest

variable {s s' : ParseState} {options : ParseOptions}

/-! ### The primitives of the parser -/

theorem forest_read {α : Type} {action : Reading α} {r : Except Error α}
    (h : read action s = (r, s')) : s'.forest = s.forest := by
  obtain ⟨-, rfl⟩ := Prod.mk.inj h
  rfl

theorem forest_inside {α : Type} {contents : Stream} {action : Parsing α} {r : Except Error α}
    (h : inside contents action s = (r, s')) :
    ∃ t, action (inBlock s contents) = (r, t) ∧ s'.forest = t.forest := by
  obtain ⟨rfl, rfl⟩ := Prod.mk.inj h
  exact ⟨_, rfl, rfl⟩

theorem forest_schema {tag : String} {d : Dialect} {r : Except Error Schema}
    (h : schema tag d s = (r, s')) : s'.forest = s.forest := by
  obtain ⟨-, rfl⟩ := Prod.mk.inj h
  rfl

theorem forest_backtrack {start : Nat} {f : Forest} (hf : f.Linked)
    (hg : Grows f.size f s.forest) (h : backtrack start f.size s = (.ok (), s')) :
    s'.forest = f := by
  simp only [backtrack, bind_eq_ok, modify_eq_ok] at h
  obtain ⟨⟨⟩, t, hread, rfl⟩ := h
  have hforest := forest_read hread
  simp only [hforest]
  exact truncate_of_grows hf hg

theorem plants_build {tag : String} {fields : Fields} {id : NodeId} {f : Forest}
    (hp : f.Plants s.forest fields.children) (h : build tag fields s = (.ok id, s')) :
    f.Plants s'.forest [id] := by
  unfold build at h
  cases hbuild : s.forest.build tag fields with
  | error e =>
      rw [hbuild] at h
      cases h
  | ok p =>
      obtain ⟨id', forest⟩ := p
      rw [hbuild] at h
      cases h
      obtain ⟨rfl, rfl⟩ := Forest.build_ok hbuild
      exact hp.append

theorem plants_matchToken {kinds : List TokenKind} {values : List String} {name : Option String}
    {fields : Fields} {r : Option Fields}
    (h : matchToken kinds values name fields s = (.ok r, s')) :
    s'.forest = s.forest ∧ s.forest.PlantsFields s'.forest fields r := by
  simp only [matchToken, bind_eq_ok] at h
  obtain ⟨⟨⟩, s₁, hskip, t, s₂, hpeek, h⟩ := h
  have hforest : s₂.forest = s.forest := (forest_read hpeek).trans (forest_read hskip)
  have hnone : s.forest.PlantsFields s₂.forest fields none := by
    rw [hforest]
    exact Grows.refl _ _
  cases t with
  | none =>
      obtain ⟨rfl, rfl⟩ := pure_eq_ok.1 h
      exact ⟨hforest, hnone⟩
  | some t =>
      dsimp only at h
      split at h
      · simp only [bind_eq_ok, pure_eq_ok] at h
        obtain ⟨_, s₃, hnext, rfl, rfl⟩ := h
        have hforest₃ : s₃.forest = s.forest := (forest_read hnext).trans hforest
        refine ⟨hforest₃, _, rfl, ?_⟩
        rw [hforest₃]
        cases name <;> exact .refl _
      · obtain ⟨rfl, rfl⟩ := pure_eq_ok.1 h
        exact ⟨hforest, hnone⟩

theorem plants_matchTokens {name : Option String} {fields : Fields} {branches : List Production}
    {r : Option Fields} (h : matchTokens name fields branches s = (.ok r, s')) :
    s.forest.PlantsFields s'.forest fields r := by
  induction branches generalizing s with
  | nil =>
      obtain ⟨rfl, rfl⟩ := pure_eq_ok.1 h
      exact Grows.refl _ _
  | cons p rest ih =>
      rw [matchTokens] at h
      cases hp : p.token? with
      | none =>
          simp only [hp] at h
          exact ih h
      | some kv =>
          obtain ⟨kinds, values⟩ := kv
          simp only [hp, bind_eq_ok] at h
          obtain ⟨r₁, s₁, hfirst, h⟩ := h
          obtain ⟨hforest, hplants⟩ := plants_matchToken hfirst
          cases r₁ with
          | some fields' =>
              obtain ⟨rfl, rfl⟩ := pure_eq_ok.1 h
              exact hplants
          | none =>
              rw [← hforest]
              exact ih h

theorem forest_separate {separator : Option String} {items : List NodeId} {b : Bool}
    (h : separate separator items s = (.ok b, s')) : s'.forest = s.forest := by
  cases separator with
  | none =>
      obtain ⟨-, rfl⟩ := pure_eq_ok.1 h
      rfl
  | some symbol =>
      rw [separate] at h
      split at h
      · obtain ⟨-, rfl⟩ := pure_eq_ok.1 h
        rfl
      · simp only [eatSeparator, bind_eq_ok] at h
        obtain ⟨⟨⟩, s₁, hskip, t, s₂, hpeek, h⟩ := h
        have hforest : s₂.forest = s.forest := (forest_read hpeek).trans (forest_read hskip)
        split at h
        · simp only [bind_eq_ok, pure_eq_ok] at h
          obtain ⟨_, s₃, hnext, -, rfl⟩ := h
          exact (forest_read hnext).trans hforest
        · obtain ⟨-, rfl⟩ := pure_eq_ok.1 h
          exact hforest

theorem forest_climbingOperator {minimum : Nat} {r : Option (Token × OperatorInfo)}
    (h : climbingOperator minimum s = (.ok r, s')) : s'.forest = s.forest := by
  simp only [climbingOperator, bind_eq_ok] at h
  obtain ⟨t, s₁, hpeek, h⟩ := h
  have hforest := forest_read hpeek
  cases t with
  | none =>
      obtain ⟨-, rfl⟩ := pure_eq_ok.1 h
      exact hforest
  | some t =>
      cases hinfo : t.operator with
      | none =>
          simp only [hinfo, pure_eq_ok] at h
          rw [← h.2]
          exact hforest
      | some info =>
          simp only [hinfo] at h
          split at h
          · obtain ⟨-, rfl⟩ := pure_eq_ok.1 h
            exact hforest
          · obtain ⟨-, rfl⟩ := pure_eq_ok.1 h
            exact hforest

/-! ### The functions of the parser -/

/-- What is to be shown of the functions of the parser at some fuel. -/
structure PlantsTrees (options : ParseOptions) (fuel : Nat) : Prop where
  node {s s' : ParseState} {tag : String} {r : Option NodeId} :
    s.forest.Linked → parseNode options fuel tag s = (.ok r, s') →
    s.forest.PlantsNode s'.forest r
  any {s s' : ParseState} {types : List String} {r : Option NodeId} :
    s.forest.Linked → parseAny options fuel types s = (.ok r, s') →
    s.forest.PlantsNode s'.forest r
  type {s s' : ParseState} {tag : String} {r : Option NodeId} :
    s.forest.Linked → parseType options fuel tag s = (.ok r, s') →
    s.forest.PlantsNode s'.forest r
  climbing {s s' : ParseState} {operands : List String} {climb : Climb} {minimum : Nat}
      {r : Option NodeId} :
    s.forest.Linked → parseClimbing options fuel operands climb minimum s = (.ok r, s') →
    s.forest.PlantsNode s'.forest r
  extending {f : Forest} {s s' : ParseState} {operands : List String} {climb : Climb}
      {minimum : Nat} {left id : NodeId} :
    f.Linked → f.Plants s.forest [left] →
    climbFrom options fuel operands climb minimum left s = (.ok id, s') →
    f.Plants s'.forest [id]
  rule {s s' : ParseState} {tag : String} {p : Production} {fields : Fields}
      {r : Option Fields} :
    s.forest.Linked → matchRule options fuel tag p fields s = (.ok r, s') →
    s.forest.PlantsFields s'.forest fields r ∧ (r = none → s'.forest = s.forest)
  all {s s' : ParseState} {tag : String} {ps : List Production} {fields : Fields}
      {r : Option Fields} :
    s.forest.Linked → matchAll options fuel tag ps fields s = (.ok r, s') →
    s.forest.PlantsFields s'.forest fields r
  first {s s' : ParseState} {tag : String} {branches : List Production} {fields : Fields}
      {r : Option Fields} :
    s.forest.Linked → matchFirst options fuel tag branches fields s = (.ok r, s') →
    s.forest.PlantsFields s'.forest fields r
  block {s s' : ParseState} {tag : String} {bracket : Bracket} {inner : Production}
      {fields : Fields} {r : Option Fields} :
    s.forest.Linked → matchBlock options fuel tag bracket inner fields s = (.ok r, s') →
    s.forest.PlantsFields s'.forest fields r
  field {s s' : ParseState} {info : RuleInfo} {types : List String} {climb : Option Climb}
      {fields : Fields} {r : Option Fields} :
    s.forest.Linked → matchNode options fuel info types climb fields s = (.ok r, s') →
    s.forest.PlantsFields s'.forest fields r
  operand {s s' : ParseState} {info : RuleInfo} {types : List String} {climb : Option Climb}
      {r : Option NodeId} :
    s.forest.Linked → matchOperand options fuel info types climb s = (.ok r, s') →
    s.forest.PlantsNode s'.forest r
  items {s s' : ParseState} {info : RuleInfo} {types : List String} {climb : Option Climb}
      {arity : Arity} {sofar ids : List NodeId} :
    s.forest.Linked → matchItems options fuel info types climb arity sofar s = (.ok ids, s') →
    ∃ more, ids = sofar ++ more ∧ s.forest.Plants s'.forest more

theorem plantsTrees_zero (options : ParseOptions) : PlantsTrees options 0 := by
  constructor
  all_goals
    intros
    rename_i h
    simp [parseNode, parseAny, parseType, parseClimbing, climbFrom, matchRule, matchAll, matchFirst,
      matchBlock, matchNode, matchOperand, matchItems, throw_eq_ok] at h

section succ

variable {fuel : Nat} (ih : PlantsTrees options fuel)
include ih

theorem plants_node {tag : String} {r : Option NodeId} (hl : s.forest.Linked)
    (h : parseNode options (fuel + 1) tag s = (.ok r, s')) : s.forest.PlantsNode s'.forest r := by
  simp only [parseNode, bind_eq_ok, get_eq_ok] at h
  obtain ⟨a, t, ⟨rfl, rfl⟩, h⟩ := h
  cases ht : s.registry.type? tag with
  | none => simp only [ht, throw_eq_ok] at h
  | some nodeType =>
      cases nodeType with
      | declared ruleOf =>
          simp only [ht] at h
          exact ih.type hl h
      | climbing operands climb ruleOf =>
          simp only [ht, bind_eq_ok, mark_eq_ok] at h
          obtain ⟨start, s₁, hsave, mark, s₂, ⟨rfl, rfl⟩, r₁, s₃, hclimb, h⟩ := h
          have hforest := forest_read hsave
          rw [hforest] at h
          have hplants := ih.climbing (by rw [hforest]; exact hl) hclimb
          rw [hforest] at hplants
          have hundone {s₄ : ParseState} (hb : backtrack start s.forest.size s₃ = (.ok (), s₄)) :
              s₄.forest = s.forest := forest_backtrack hl hplants.grows hb
          cases r₁ with
          | none =>
              simp only [bind_eq_ok, pure_eq_ok] at h
              obtain ⟨⟨⟩, s₄, hb, rfl, rfl⟩ := h
              exact hundone hb
          | some id =>
              simp only [bind_eq_ok, get_eq_ok] at h
              obtain ⟨a, t, ⟨rfl, rfl⟩, h⟩ := h
              split at h
              · obtain ⟨rfl, rfl⟩ := pure_eq_ok.1 h
                exact hplants
              · simp only [bind_eq_ok, pure_eq_ok] at h
                obtain ⟨⟨⟩, s₄, hb, rfl, rfl⟩ := h
                exact hundone hb

theorem plants_any {types : List String} {r : Option NodeId} (hl : s.forest.Linked)
    (h : parseAny options (fuel + 1) types s = (.ok r, s')) : s.forest.PlantsNode s'.forest r := by
  cases types with
  | nil =>
      simp only [parseAny, pure_eq_ok] at h
      obtain ⟨rfl, rfl⟩ := h
      rfl
  | cons tag rest =>
      simp only [parseAny, bind_eq_ok] at h
      obtain ⟨r₁, s₁, hnode, h⟩ := h
      have hplants := ih.node hl hnode
      cases r₁ with
      | some id =>
          obtain ⟨rfl, rfl⟩ := pure_eq_ok.1 h
          exact hplants
      | none =>
          have hforest : s₁.forest = s.forest := hplants
          have hrest := ih.any (by rw [hforest]; exact hl) h
          rwa [hforest] at hrest

theorem plants_type {tag : String} {r : Option NodeId} (hl : s.forest.Linked)
    (h : parseType options (fuel + 1) tag s = (.ok r, s')) : s.forest.PlantsNode s'.forest r := by
  simp only [parseType, bind_eq_ok] at h
  obtain ⟨sch, s₁, hschema, h⟩ := h
  have hforest₁ := forest_schema hschema
  cases hroot : sch.root with
  | none =>
      simp only [hroot, pure_eq_ok] at h
      obtain ⟨rfl, rfl⟩ := h
      exact hforest₁
  | some root =>
      simp only [hroot, bind_eq_ok, mark_eq_ok] at h
      obtain ⟨start, s₂, hsave, mark, s₃, ⟨rfl, rfl⟩, r₁, s₄, hrule, h⟩ := h
      have hforest₂ := (forest_read hsave).trans hforest₁
      obtain ⟨hplants, -⟩ := ih.rule (by rw [hforest₂]; exact hl) hrule
      rw [hforest₂] at hplants h
      cases r₁ with
      | some fields =>
          simp only [bind_eq_ok, pure_eq_ok] at h
          obtain ⟨id, s₅, hbuild, rfl, rfl⟩ := h
          obtain ⟨more, rfl, hplants⟩ := hplants
          exact plants_build hplants hbuild
      | none =>
          simp only [bind_eq_ok, pure_eq_ok] at h
          obtain ⟨⟨⟩, s₅, hb, rfl, rfl⟩ := h
          exact forest_backtrack hl hplants.grows hb

theorem plants_climbing {operands : List String} {climb : Climb} {minimum : Nat}
    {r : Option NodeId} (hl : s.forest.Linked)
    (h : parseClimbing options (fuel + 1) operands climb minimum s = (.ok r, s')) :
    s.forest.PlantsNode s'.forest r := by
  simp only [parseClimbing, bind_eq_ok] at h
  obtain ⟨r₁, s₁, hany, h⟩ := h
  have hplants := ih.any hl hany
  cases r₁ with
  | none =>
      obtain ⟨rfl, rfl⟩ := pure_eq_ok.1 h
      exact hplants
  | some left =>
      simp only [bind_eq_ok, pure_eq_ok] at h
      obtain ⟨id, s₂, hfrom, rfl, rfl⟩ := h
      exact ih.extending hl hplants hfrom

theorem plants_extending {f : Forest} {operands : List String} {climb : Climb} {minimum : Nat}
    {left id : NodeId} (hl : f.Linked) (hleft : f.Plants s.forest [left])
    (h : climbFrom options (fuel + 1) operands climb minimum left s = (.ok id, s')) :
    f.Plants s'.forest [id] := by
  simp only [climbFrom, bind_eq_ok] at h
  obtain ⟨r₁, s₁, hoperator, h⟩ := h
  have hforest₁ := forest_climbingOperator hoperator
  cases r₁ with
  | none =>
      obtain ⟨rfl, rfl⟩ := pure_eq_ok.1 h
      rwa [hforest₁]
  | some next =>
      obtain ⟨operator, info⟩ := next
      simp only [bind_eq_ok, mark_eq_ok] at h
      obtain ⟨start, s₂, hsave, mark, s₃, ⟨rfl, rfl⟩, ⟨⟩, s₄, hskip, _, s₅, hnext, r₂, s₆, hclimb,
        h⟩ := h
      have hforest₂ : s₂.forest = s.forest := (forest_read hsave).trans hforest₁
      have hforest₅ : s₅.forest = s.forest :=
        (forest_read hnext).trans ((forest_read hskip).trans hforest₂)
      have hlinked : s.forest.Linked := hleft.linked hl
      have hright := ih.climbing (by rw [hforest₅]; exact hlinked) hclimb
      rw [hforest₅] at hright
      rw [hforest₂] at h
      cases r₂ with
      | none =>
          simp only [bind_eq_ok, pure_eq_ok] at h
          obtain ⟨⟨⟩, s₇, hb, rfl, rfl⟩ := h
          rwa [forest_backtrack hlinked hright.grows hb]
      | some right =>
          simp only [bind_eq_ok] at h
          obtain ⟨whole, s₇, hbuild, h⟩ := h
          exact ih.extending hl (plants_build (hleft.trans hright) hbuild) h

theorem plants_operand {info : RuleInfo} {types : List String} {climb : Option Climb}
    {r : Option NodeId} (hl : s.forest.Linked)
    (h : matchOperand options (fuel + 1) info types climb s = (.ok r, s')) :
    s.forest.PlantsNode s'.forest r := by
  cases climb with
  | some climb => exact ih.climbing hl h
  | none => exact ih.any hl h

theorem plants_all {tag : String} {ps : List Production} {fields : Fields} {r : Option Fields}
    (hl : s.forest.Linked) (h : matchAll options (fuel + 1) tag ps fields s = (.ok r, s')) :
    s.forest.PlantsFields s'.forest fields r := by
  cases ps with
  | nil =>
      simp only [matchAll, pure_eq_ok] at h
      obtain ⟨rfl, rfl⟩ := h
      exact plantsFields_same _ _
  | cons p rest =>
      simp only [matchAll, bind_eq_ok] at h
      obtain ⟨r₁, s₁, hrule, h⟩ := h
      obtain ⟨hplants, -⟩ := ih.rule hl hrule
      cases r₁ with
      | none =>
          obtain ⟨rfl, rfl⟩ := pure_eq_ok.1 h
          exact hplants
      | some fields₁ =>
          obtain ⟨more, rfl, hplants⟩ := hplants
          have hrest := ih.all (hplants.linked hl) h
          cases r with
          | none => exact hplants.grows_trans hrest
          | some fields₂ =>
              obtain ⟨more₂, rfl, hplants₂⟩ := hrest
              refine ⟨more ++ more₂, by simp, ?_⟩
              rw [Fields.children_append]
              exact hplants.trans hplants₂

theorem plants_first {tag : String} {branches : List Production} {fields : Fields}
    {r : Option Fields} (hl : s.forest.Linked)
    (h : matchFirst options (fuel + 1) tag branches fields s = (.ok r, s')) :
    s.forest.PlantsFields s'.forest fields r := by
  cases branches with
  | nil =>
      simp only [matchFirst, pure_eq_ok] at h
      obtain ⟨rfl, rfl⟩ := h
      exact Grows.refl _ _
  | cons p rest =>
      simp only [matchFirst, bind_eq_ok] at h
      obtain ⟨r₁, s₁, hrule, h⟩ := h
      obtain ⟨hplants, hsame⟩ := ih.rule hl hrule
      cases r₁ with
      | some fields₁ =>
          obtain ⟨rfl, rfl⟩ := pure_eq_ok.1 h
          exact hplants
      | none =>
          have hforest := hsame rfl
          have hrest := ih.first (by rw [hforest]; exact hl) h
          rwa [hforest] at hrest

theorem plants_field {info : RuleInfo} {types : List String} {climb : Option Climb}
    {fields : Fields} {r : Option Fields} (hl : s.forest.Linked)
    (h : matchNode options (fuel + 1) info types climb fields s = (.ok r, s')) :
    s.forest.PlantsFields s'.forest fields r := by
  cases hname : info.attrs.name with
  | none =>
      simp only [matchNode, hname, pure_eq_ok] at h
      obtain ⟨rfl, rfl⟩ := h
      exact Grows.refl _ _
  | some name =>
      cases harity : info.attrs.arity with
      | none =>
          simp only [matchNode, hname, harity, bind_eq_ok] at h
          obtain ⟨r₁, s₁, hoperand, h⟩ := h
          have hplants := ih.operand hl hoperand
          cases r₁ with
          | none =>
              obtain ⟨rfl, rfl⟩ := pure_eq_ok.1 h
              exact hplants.grows
          | some id =>
              obtain ⟨rfl, rfl⟩ := pure_eq_ok.1 h
              exact ⟨_, rfl, hplants⟩
      | some arity =>
          simp only [matchNode, hname, harity, bind_eq_ok] at h
          obtain ⟨ids, s₁, hitems, h⟩ := h
          obtain ⟨more, rfl, hplants⟩ := ih.items hl hitems
          split at h
          · obtain ⟨rfl, rfl⟩ := pure_eq_ok.1 h
            exact hplants.grows
          · obtain ⟨rfl, rfl⟩ := pure_eq_ok.1 h
            refine ⟨_, rfl, ?_⟩
            simpa [Fields.children, FieldValue.children] using hplants

theorem plants_items {info : RuleInfo} {types : List String} {climb : Option Climb} {arity : Arity}
    {sofar ids : List NodeId} (hl : s.forest.Linked)
    (h : matchItems options (fuel + 1) info types climb arity sofar s = (.ok ids, s')) :
    ∃ more, ids = sofar ++ more ∧ s.forest.Plants s'.forest more := by
  have hstop {s' : ParseState} (hforest : s'.forest = s.forest) :
      ∃ more, sofar = sofar ++ more ∧ s.forest.Plants s'.forest more :=
    ⟨[], by simp, by rw [hforest]; exact .refl _⟩
  rw [matchItems] at h
  split at h
  · obtain ⟨rfl, rfl⟩ := pure_eq_ok.1 h
    exact hstop rfl
  · simp only [bind_eq_ok, mark_eq_ok] at h
    obtain ⟨start, s₁, hsave, mark, s₂, ⟨rfl, rfl⟩, b, s₃, hsep, h⟩ := h
    have hforest₁ := forest_read hsave
    have hforest₃ : s₃.forest = s.forest := (forest_separate hsep).trans hforest₁
    rw [hforest₁] at h
    cases b with
    | false =>
        obtain ⟨rfl, rfl⟩ := pure_eq_ok.1 h
        exact hstop hforest₃
    | true =>
        simp only [Bool.not_true, Bool.false_eq_true, if_false, bind_eq_ok] at h
        obtain ⟨r₁, s₄, hoperand, h⟩ := h
        have hplants := ih.operand (by rw [hforest₃]; exact hl) hoperand
        rw [hforest₃] at hplants
        cases r₁ with
        | none =>
            simp only [bind_eq_ok, pure_eq_ok] at h
            obtain ⟨⟨⟩, s₅, hb, rfl, rfl⟩ := h
            exact hstop (forest_backtrack hl hplants.grows hb)
        | some id =>
            simp only [bind_eq_ok, get_eq_ok] at h
            obtain ⟨a, t, ⟨rfl, rfl⟩, h⟩ := h
            split at h
            · simp only [bind_eq_ok, pure_eq_ok] at h
              obtain ⟨⟨⟩, s₅, hb, rfl, rfl⟩ := h
              exact hstop (forest_backtrack hl hplants.grows hb)
            · obtain ⟨more, rfl, hmore⟩ := ih.items (Plants.linked hplants hl) h
              exact ⟨id :: more, by simp, Plants.trans hplants hmore⟩

theorem plants_contents {tag : String} {inner : Production} {fields : Fields} {r : Option Fields}
    (hl : s.forest.Linked)
    (h : matchContents options fuel tag inner fields s = (.ok r, s')) :
    s.forest.PlantsFields s'.forest fields r := by
  simp only [matchContents, bind_eq_ok] at h
  obtain ⟨start, s₁, hsave, r₁, s₂, hrule, h⟩ := h
  have hforest₁ := forest_read hsave
  obtain ⟨hplants, -⟩ := ih.rule (by rw [hforest₁]; exact hl) hrule
  rw [hforest₁] at hplants
  cases r₁ with
  | none =>
      simp only [bind_eq_ok, pure_eq_ok] at h
      obtain ⟨⟨⟩, s₃, hrestore, rfl, rfl⟩ := h
      rwa [forest_read hrestore]
  | some fields₁ =>
      simp only [bind_eq_ok] at h
      obtain ⟨⟨⟩, s₃, hskip, b, s₄, hex, h⟩ := h
      have hforest₄ : s₄.forest = s₂.forest := (forest_read hex).trans (forest_read hskip)
      cases b with
      | true =>
          obtain ⟨rfl, rfl⟩ := pure_eq_ok.1 h
          rwa [hforest₄]
      | false =>
          simp only [Bool.false_eq_true, if_false, bind_eq_ok, pure_eq_ok] at h
          obtain ⟨⟨⟩, s₅, hrestore, rfl, rfl⟩ := h
          rw [forest_read hrestore, hforest₄]
          exact hplants.grows

theorem plants_block {tag : String} {bracket : Bracket} {inner : Production} {fields : Fields}
    {r : Option Fields} (hl : s.forest.Linked)
    (h : matchBlock options (fuel + 1) tag bracket inner fields s = (.ok r, s')) :
    s.forest.PlantsFields s'.forest fields r := by
  simp only [matchBlock_succ, bind_eq_ok] at h
  obtain ⟨⟨⟩, s₁, hskip, t, s₂, hpeek, h⟩ := h
  have hforest₂ : s₂.forest = s.forest := (forest_read hpeek).trans (forest_read hskip)
  have hnone {t : ParseState} (hforest : t.forest = s.forest) :
      s.forest.PlantsFields t.forest fields none := by
    rw [hforest]
    exact Grows.refl _ _
  cases t with
  | none =>
      obtain ⟨rfl, rfl⟩ := pure_eq_ok.1 h
      exact hnone hforest₂
  | some t =>
      dsimp only at h
      split at h
      · obtain ⟨rfl, rfl⟩ := pure_eq_ok.1 h
        exact hnone hforest₂
      · simp only [bind_eq_ok] at h
        obtain ⟨cell, s₃, hnext, h⟩ := h
        have hforest₃ : s₃.forest = s.forest := (forest_read hnext).trans hforest₂
        cases hcell : cell.bind Cell.contents? with
        | none =>
            simp only [hcell, pure_eq_ok] at h
            obtain ⟨rfl, rfl⟩ := h
            exact hnone hforest₃
        | some contents =>
            simp only [hcell] at h
            obtain ⟨u, hcontents, hforest⟩ := forest_inside h
            have hlinked : (inBlock s₃ contents).forest.Linked := by
              change s₃.forest.Linked
              rw [hforest₃]
              exact hl
            have hplants := plants_contents ih hlinked hcontents
            rw [hforest, ← hforest₃]
            exact hplants

theorem plants_body {tag : String} {p : Production} {fields : Fields} {r : Option Fields}
    (hl : s.forest.Linked) (h : matchBody options fuel tag p fields s = (.ok r, s')) :
    s.forest.PlantsFields s'.forest fields r := by
  cases p with
  | token info kinds values => exact (plants_matchToken h).2
  | node info types climb => exact ih.field hl h
  | sequence info ps => exact ih.all hl h
  | alternatives info branches =>
      simp only [matchBody] at h
      split at h
      · exact plants_matchTokens h
      · exact ih.first hl h
  | block info bracket inner => exact ih.block hl h

theorem plants_rule {tag : String} {p : Production} {fields : Fields} {r : Option Fields}
    (hl : s.forest.Linked) (h : matchRule options (fuel + 1) tag p fields s = (.ok r, s')) :
    s.forest.PlantsFields s'.forest fields r ∧ (r = none → s'.forest = s.forest) := by
  rw [matchRule_succ] at h
  split at h
  · obtain ⟨rfl, rfl⟩ := pure_eq_ok.1 h
    exact ⟨plantsFields_same _ _, by simp⟩
  · simp only [bind_eq_ok, mark_eq_ok] at h
    obtain ⟨start, s₁, hsave, mark, s₂, ⟨rfl, rfl⟩, matched, s₃, hbody, h⟩ := h
    have hforest₁ := forest_read hsave
    have hplants := plants_body ih (by rw [hforest₁]; exact hl) hbody
    rw [hforest₁] at hplants h
    cases matched with
    | some fields' =>
        obtain ⟨rfl, rfl⟩ := pure_eq_ok.1 h
        exact ⟨hplants, by simp⟩
    | none =>
        dsimp only at h
        split at h
        · exact absurd h assertionFailure_ne_ok
        · simp only [bind_eq_ok, pure_eq_ok] at h
          obtain ⟨⟨⟩, s₄, hb, rfl, rfl⟩ := h
          have hforest := forest_backtrack hl hplants.grows hb
          refine ⟨?_, fun _ => hforest⟩
          rw [hforest]
          split
          · exact plantsFields_same _ _
          · exact Grows.refl _ _

end succ

/-- Every answer of the parser is a tree behind the nodes that were there. -/
theorem plantsTrees (options : ParseOptions) (fuel : Nat) : PlantsTrees options fuel := by
  induction fuel with
  | zero => exact plantsTrees_zero options
  | succ fuel ih =>
      exact {
        node := plants_node ih
        any := plants_any ih
        type := plants_type ih
        climbing := plants_climbing ih
        extending := plants_extending ih
        rule := plants_rule ih
        all := plants_all ih
        first := plants_first ih
        block := plants_block ih
        field := plants_field ih
        operand := plants_operand ih
        items := plants_items ih }

end Parsing

namespace Forest

/-- All links of a forest, up and down, name nodes that it has. -/
structure Closed (f : Forest) : Prop where
  linked : f.Linked
  children : ∀ p : Nat, ∀ child ∈ (f.fields p).children, child < f.size

/-- The second forest is the first one with a tree added to it. Its nodes are
listed once each, and one of them that is not the root is held by one node, to
which it is linked. -/
structure GrownBy (f f' : Forest) (root : NodeId) : Prop where
  dialect : f'.dialect = f.dialect
  kept : ∃ added, f'.nodes = f.nodes ++ added
  covers : ∀ n : Nat, n ∈ f'.descendants root ↔ f.size ≤ n ∧ n < f'.size
  once : (f'.descendants root).Nodup
  loose : f'.parent? root = none
  held : ∀ n ∈ f'.descendants root, n ≠ root → ∃ p ∈ f'.descendants root,
    f'.parent? n = some p ∧ ∀ q, n ∈ (f'.fields q).children ↔ q = p
  descends : ∀ p ∈ f'.descendants root, ∀ child ∈ (f'.fields p).children, child < p
  closed : f'.Closed

variable {f f' : Forest}

theorem closed_empty (d : Dialect) : Closed { dialect := d } where
  linked id parent h := by cases h
  children p child h := by cases h

/-- A forest of which a longer one has every node is its beginning. -/
theorem Grows.nodes (h : Grows f.size f f') : ∃ added, f'.nodes = f.nodes ++ added := by
  have hsize : f.nodes.size ≤ f'.nodes.size := h.size
  refine ⟨f'.nodes.extract f.nodes.size f'.nodes.size, Array.ext_getElem? fun id => ?_⟩
  rw [Array.getElem?_append]
  split
  next hid => exact h.same id hid
  next hid =>
    rw [Array.getElem?_extract, Nat.add_sub_of_le (Nat.le_of_not_lt hid)]
    split
    · rfl
    · exact Array.getElem?_eq_none (by omega)

namespace Plants

variable {root : NodeId}

theorem mem_descendants (h : f.Plants f' [root]) {n : Nat} :
    n ∈ f'.descendants root ↔ f.size ≤ n ∧ n < f'.size := by
  simpa using h.mem_iff (n := n)

theorem closed {ids : List NodeId} (h : f.Plants f' ids) (hf : f.Closed) : f'.Closed where
  linked := h.linked hf.linked
  children p child hchild := by
    by_cases hp : p < f.size
    · rw [(h.grows.shape p hp).2] at hchild
      exact Nat.lt_of_lt_of_le (hf.children p child hchild) h.grows.size
    · have hlt : p < f'.size := by
        by_contra hge
        rw [fields_of_size_le (Nat.le_of_not_lt hge)] at hchild
        cases hchild
      exact Nat.lt_trans (h.descends p (Nat.le_of_not_lt hp) child hchild).2 hlt

/-- A node that was added has the node that holds it for its parent, and nobody
else holds it: an older node can only hold nodes that were there. -/
theorem held (h : f.Plants f' [root]) (hf : f.Closed) {n : Nat} (hn : f.size ≤ n)
    (hlt : n < f'.size) (hroot : n ≠ root) : ∃ p ∈ f'.descendants root,
      f'.parent? n = some p ∧ ∀ q, n ∈ (f'.fields q).children ↔ q = p := by
  rcases h.root_or_child hn hlt with hmem | ⟨p, hpl, hp, hchild⟩
  · exact absurd (List.mem_singleton.1 hmem) hroot
  · have hparent := h.links p hpl n hchild
    refine ⟨p, h.mem_descendants.2 ⟨hpl, hp⟩, hparent, fun q => ⟨fun hq => ?_, ?_⟩⟩
    · by_cases hold : q < f.size
      · rw [(h.grows.shape q hold).2] at hq
        exact absurd (hf.children q n hq) (Nat.not_lt.2 hn)
      · have hlink := h.links q (Nat.le_of_not_lt hold) n hq
        rw [hparent] at hlink
        exact (Option.some.inj hlink).symm
    · rintro rfl
      exact hchild

theorem grownBy (h : f.Plants f' [root]) (hf : f.Closed) : GrownBy f f' root where
  dialect := h.grows.dialect
  kept := h.grows.nodes
  covers n := h.mem_descendants
  once := by
    have hcovers := h.covers
    rw [List.flatMap_singleton] at hcovers
    exact hcovers.nodup_iff.2 (List.nodup_range' ..)
  loose := h.loose root (List.mem_singleton.2 rfl)
  held n hn hroot := by
    obtain ⟨hle, hlt⟩ := h.mem_descendants.1 hn
    exact h.held hf hle hlt hroot
  descends p hp child hchild := by
    obtain ⟨hle, -⟩ := h.mem_descendants.1 hp
    exact (h.descends p hle child hchild).2
  closed := h.closed hf

end Plants

/-- A forest that was grown from nothing is one tree. -/
theorem GrownBy.roots_eq {d : Dialect} {root : NodeId} (h : GrownBy { dialect := d } f root) :
    f.roots = [root] := by
  have hroot : root < f.size := ((h.covers root).1 (mem_descendants_self f root)).2
  have hparents (n : Nat) (hn : n ∈ List.range f.size) :
      (f.parent? n).isNone = decide (n = root) := by
    by_cases heq : n = root
    · simp [heq, h.loose]
    · obtain ⟨p, -, hp, -⟩ := h.held n ((h.covers n).2 ⟨Nat.zero_le n, List.mem_range.1 hn⟩) heq
      simp [heq, hp]
  have hcount := List.count_eq_one_of_mem List.nodup_range (List.mem_range.2 hroot)
  rw [roots, List.filter_congr hparents, List.filter_eq, hcount]
  rfl

end Forest

namespace Parsing

open Fallible Forest

variable {options : ParseOptions}

theorem plants_whole {types : List String} {s s' : ParseState} {root : NodeId}
    (hl : s.forest.Linked) (h : parseWhole options types s = (.ok root, s')) :
    s.forest.Plants s'.forest [root] := by
  simp only [parseWhole, bind_eq_ok, get_eq_ok] at h
  obtain ⟨start, s₁, hsave, a, t, ⟨rfl, rfl⟩, r, s₂, hany, ⟨⟩, s₃, hskip, h⟩ := h
  have hforest₁ := forest_read hsave
  have hplants := (plantsTrees options _).any (by rw [hforest₁]; exact hl) hany
  rw [hforest₁] at hplants
  cases r with
  | none => simp [bind_eq_ok, throw_eq_ok] at h
  | some id =>
      simp only [bind_eq_ok] at h
      obtain ⟨b, s₄, hex, h⟩ := h
      cases b with
      | false => simp [bind_eq_ok, throw_eq_ok] at h
      | true =>
          simp only [if_true, bind_eq_ok, pure_eq_ok] at h
          obtain ⟨⟨⟩, s₅, hcommit, rfl, rfl⟩ := h
          have hforest : s₅.forest = s₂.forest :=
            (forest_read hcommit).trans ((forest_read hex).trans (forest_read hskip))
          rw [hforest]
          exact hplants

/-- A parse that finds a node adds the tree of that node and nothing else, and
a parse of a whole source makes one tree. -/
theorem grown_of_found (options : ParseOptions) :
    (∀ fuel tag (s s' : ParseState) id, s.forest.Closed →
      parseNode options fuel tag s = (.ok (some id), s') → GrownBy s.forest s'.forest id) ∧
    ∀ types source registry d s' root,
      parseWhole options types (start source registry d) = (.ok root, s') →
      s'.forest.roots = [root] ∧ GrownBy { dialect := d } s'.forest root := by
  constructor
  · intro fuel tag s s' id hclosed h
    exact Plants.grownBy ((plantsTrees options fuel).node hclosed.linked h) hclosed
  · intro types source registry d s' root h
    have hempty := closed_empty d
    have hgrown := Plants.grownBy (plants_whole hempty.linked h) hempty
    exact ⟨hgrown.roots_eq, hgrown⟩

theorem ok_of_toOption {α σ : Type} {p : Except Error α × σ} {a : α}
    (h : p.1.toOption = some a) : p = (.ok a, p.2) := by
  rcases p with ⟨_ | r, s⟩
  · cases h
  · cases h
    rfl

/-- A parse of the first thing in a text. -/
def columnRead : Except Error (Option NodeId) × ParseState :=
  parseNode { dialect := .postgres } 200 "ColumnRef"
    (start (.ofChunks .postgres (.ofDialect .postgres) ["a (b + c)"]) (Standard.extend {})
      .postgres)

/-- The parse of what follows it, into the same forest. -/
def sumRead : Except Error (Option NodeId) × ParseState :=
  parseNode { dialect := .postgres } 200 "ParenExpr" columnRead.2

/-- The tree of the sum stands behind that of the column, although its parts
were first tried as other things. -/
theorem sum_grown :
    columnRead.1.toOption = some (some 0) ∧ sumRead.1.toOption = some (some 4) ∧
      GrownBy columnRead.2.forest sumRead.2.forest 4 := by
  -- The kernel evaluates the first parse once for both.
  obtain ⟨hcolumn, hsum⟩ : columnRead.1.toOption = some (some 0) ∧
      sumRead.1.toOption = some (some 4) := by
    decide +kernel
  have grown := (grown_of_found { dialect := .postgres }).1 200
  have hclosed := (grown "ColumnRef" _ _ 0 (closed_empty .postgres)
    (ok_of_toOption hcolumn)).closed
  exact ⟨hcolumn, hsum, grown "ParenExpr" _ _ 4 hclosed (ok_of_toOption hsum)⟩

end Parsing

end DualSql
