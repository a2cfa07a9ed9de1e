import DualSql.Grammar.Standard
import DualSql.Proofs.Grammar.Calls
import DualSql.Proofs.Grammar.Leading
import DualSql.Proofs.Grammar.Standard
import DualSql.Proofs.Stream.Given

/-! # Parsing comes to an end

Every call that a call of the parser makes has fewer tokens before it or lies at
a smaller depth, if no type leads back to itself before a token is consumed. So
there is an end to the calls, and fuel that is enough for all of them.

Main definitions: `ParseState.Forward` and `Parsing.measure`. Main results:
`Parsing.Invokes.forward`, what one call does to the next, and
`Parsing.concur_of_measure`. -/

namespace DualSql

open TokenTree

/-! ### Moving forward on a stream -/

namespace ParseState

/-- A state is reached from another one on the same stream, and a token was
consumed in between where one has to be. -/
structure Forward (o : Outline) (s s' : ParseState) (taken : Prop) : Prop where
  good : s'.Good o s'.forest.size
  keeps : s.source.Keeps s'.source
  beyond : Beyond s.source.upcoming s'.source.upcoming taken

variable {o : Outline} {least : Nat} {s s' s'' : ParseState} {p q : Prop}

theorem Forward.refl (h : s.Good o least) : s.Forward o s False :=
  ⟨h.raise, .refl h.ready, .refl _⟩

theorem Forward.trans (h : s.Forward o s' p) (h' : s'.Forward o s'' q) : s.Forward o s'' (p ∨ q) :=
  ⟨h'.good, h.keeps.trans h'.keeps, h.beyond.trans h'.beyond⟩

theorem Forward.mono (h : s.Forward o s' p) (hqp : q → p) : s.Forward o s' q :=
  ⟨h.good, h.keeps, h.beyond.mono hqp⟩

theorem Step.forward (h : s.Step o least s') (hb : Beyond s.source.upcoming s'.source.upcoming p) :
    s.Forward o s' p :=
  ⟨h.good.raise, h.keeps, hb⟩

/-- Where the stream stands as it did, no token was consumed. -/
theorem Step.stay (h : s.Step o least s') (hr : s.Restored s') : s.Forward o s' False :=
  h.forward (h.upcoming hr ▸ .refl _)

/-- The second state stands behind the first one on the same stream, and a token
that is not trivia was consumed in between. -/
structure Consumes (s s' : ParseState) : Prop where
  position : s.source.stream.position < s'.source.stream.position
  passed : ∃ passed, s.source.upcoming = passed ++ s'.source.upcoming ∧
    ∃ tree ∈ passed, tree.isTrivia = false

theorem Forward.consumes (h : s.Forward o s' True) : s.Consumes s' := by
  obtain ⟨passed, hpassed⟩ := h.beyond.suffix
  have hfewer := h.beyond.fewer trivial
  rw [← hpassed, weightAll_append] at hfewer
  have hweight : 0 < weightAll passed := by omega
  obtain ⟨tree, htree, hsignificant⟩ := exists_significant hweight
  refine ⟨?_, passed, hpassed.symm, tree, htree, hsignificant⟩
  have hlength := congrArg List.length hpassed
  have hpos := List.length_pos_of_mem htree
  have hdiscarded := h.keeps.discarded
  simp only [Source.upcoming, h.keeps.line, List.length_append, List.length_drop] at hlength
  simp only [Cursor.position]
  omega

end ParseState

namespace Parsing

open Fallible ParseState

variable {o : Outline} {least : Nat} {s s' : ParseState} {level : String → Nat} {top : Nat}

theorem forward_of_savepoint {start : Nat} (h : s.Good o least)
    (hs : read Source.savepoint s = (.ok start, s')) : s.Forward o s' False := by
  obtain ⟨step, restored, -⟩ := savepoint_step h hs
  exact step.stay restored

theorem forward_of_separate {separator : Option String} {items : List NodeId} {b : Bool}
    (h : s.Good o least) (hs : separate separator items s = (.ok b, s')) :
    s.Forward o s' False := by
  obtain ⟨step, -, hrest⟩ := separate_step h hs
  exact step.forward (Outline.beyond_of_separate hrest)

/-- The operator that climbing takes is a token. -/
theorem forward_of_operator {minimum start : Nat} {r : Token × OperatorInfo} {t : Option Token}
    {s₁ s₂ s₃ : ParseState} (h : s.Good o least)
    (found : climbingOperator minimum s = (.ok (some r), s₁))
    (save : read Source.savepoint s₁ = (.ok start, s₂))
    (skip : read Source.skipTrivia s₂ = (.ok (), s₃))
    (next : read Source.next s₃ = (.ok t, s')) : s.Forward o s' True := by
  obtain ⟨step₁, restored₁, hr⟩ := climbingOperator_step h found
  obtain ⟨step₂, restored₂, -⟩ := savepoint_step step₁.good save
  obtain ⟨step₃, -, hup₃⟩ := skipTrivia_step step₂.good skip
  obtain ⟨step₄, -, hup₄⟩ := next_step step₃.good next
  obtain ⟨⟨t', info, rest⟩, hop, -⟩ := Option.map_eq_some_iff.1 hr.symm
  have hrest : s'.source.upcoming = rest := by
    obtain ⟨tree, hsig, -⟩ := operator_some hop
    rw [hup₄, hup₃, (step₁.trans step₂).upcoming (restored₁.trans restored₂), hsig, List.tail_cons]
  refine (((step₁.trans step₂).trans step₃).trans step₄).forward ?_
  rw [hrest]
  exact Outline.beyond_of_operator hop

theorem forward_of_build {tag : String} {fields : Fields} {id : NodeId} (h : s.Good o least)
    (hb : build tag fields s = (.ok id, s')) : s.Forward o s' False := by
  unfold build at hb
  cases hbuild : s.forest.build tag fields with
  | error e =>
      rw [hbuild] at hb
      cases hb
  | ok p =>
      rw [hbuild] at hb
      cases hb
      obtain ⟨-, hforest⟩ := Forest.build_ok hbuild
      have hlinked : p.2.Linked := hforest ▸ h.linked.append
      exact ⟨⟨h.ready, hlinked, Forest.descends_size _, Nat.le_refl _, h.agrees⟩, .refl h.ready,
        .refl _⟩

/-- A node that was parsed took a token, and where none was the stream stands as
it did. -/
theorem forward_of_answer {a : Attempt Content} {r : Option NodeId} (step : s.Step o least s')
    (answer : NodeAnswer least s s' r a)
    (takes : ∀ x rest, a = .found x rest → Beyond s.source.upcoming rest True) :
    s.Forward o s' (r.isSome = true) := by
  cases r with
  | none => exact (step.stay answer.2).mono nofun
  | some id => exact (step.forward (takes _ _ answer.2.2)).mono fun _ => trivial

/-! ### Depths of calls -/

/-- How deep the calls of a call can nest before a token is consumed, or, looking
ahead, how deep they can nest from any one token to the next. -/
def Call.depth (level : String → Nat) (ahead : Bool) : Call → Nat
  | node tag => 1 + level tag
  | type tag => level tag
  | any types => depthOfTypes level types
  | climbing operands _ _ => 1 + depthOfTypes level operands
  | extending operands _ _ _ => if ahead then 1 + depthOfTypes level operands else 0
  | rule _ p _ => p.depth level ahead
  | all _ parts _ => Production.depthAll level ahead parts
  | first _ branches _ => Production.depthAny level ahead branches
  | block _ _ inner _ => 1 + if ahead then inner.depth level ahead else 0
  | operand _ types _ => 2 + depthOfTypes level types
  | items _ types _ _ _ => 3 + depthOfTypes level types
  | field _ types _ _ => 4 + depthOfTypes level types

theorem Call.depth_le (level : String → Nat) (c : Call) : c.depth level false ≤ c.depth level true := by
  cases c with
  | rule tag p fields => exact Production.depth_le p
  | all tag parts fields => exact Production.depthAll_le parts
  | first tag branches fields => exact Production.depthAny_le branches
  | _ => simp [depth]

theorem Call.depth_body {tag : String} {fields : Fields} {p : Production} {c : Call} {ahead : Bool}
    (h : body? tag fields p = some c) : c.depth level ahead < p.depth level ahead := by
  cases p with
  | token info kinds values => cases h
  | node info types climb =>
      cases h
      simp only [depth, Production.depth]
      omega
  | sequence info parts =>
      cases h
      simp only [depth, Production.depth]
      omega
  | alternatives info branches =>
      rw [body?] at h
      split at h
      · cases h
      · cases h
        simp only [depth, Production.depth]
        omega
  | block info bracket inner =>
      cases h
      simp only [depth, Production.depth]
      omega

/-- A call on the same stream stands behind a token or lies at a smaller depth. -/
theorem Invokes.forward {x y : Call × ParseState} (layered : o.Layered level top)
    (h : Invokes o.options x y) (good : x.2.Good o x.2.forest.size)
    (within : x.1.depth level true ≤ top) :
    x.2.Forward o y.2 (x.1.depth level false ≤ y.1.depth level false) ∧
      y.1.depth level true ≤ top := by
  have stay {s s' : ParseState} {n m : Nat} (hforward : s.Forward o s' False) (hlt : m < n) :
      s.Forward o s' (n ≤ m) :=
    hforward.mono (Nat.not_le_of_lt hlt)
  have takes (fuel : Nat) := Outline.takes layered.grounded fuel
  cases h with
  | @declared s tag rule type =>
      simp only [Call.depth] at within ⊢
      exact ⟨stay (.refl good) (by omega), by omega⟩
  | @operators s s₁ tag operands climb rule start type save =>
      rw [good.agrees.type?] at type
      have hoperands := layered.operands type
      simp only [Call.depth] at within ⊢
      exact ⟨stay (forward_of_savepoint good save) (by omega), by omega⟩
  | @head s tag rest =>
      simp only [Call.depth, depthOfTypes] at within ⊢
      exact ⟨stay (.refl good) (by omega), by omega⟩
  | @tail s s₁ tag rest fuel mismatch =>
      obtain ⟨step, answer⟩ := (refines o fuel).node good mismatch
      simp only [Call.depth, depthOfTypes] at within ⊢
      exact ⟨stay (step.stay answer.2) (by omega), by omega⟩
  | @root s s₁ s₂ tag sch root start compiled exists_root save =>
      obtain ⟨step, restored, hschema⟩ := schema_step good compiled
      obtain ⟨hlt, hle⟩ := layered.roots hschema exists_root
      have hforward := (step.stay restored).trans (forward_of_savepoint step.good save)
      exact ⟨stay (hforward.mono nofun) hlt, hle⟩
  | @left s operands climb minimum =>
      simp only [Call.depth] at within ⊢
      exact ⟨stay (.refl good) (by omega), by omega⟩
  | @extend s s₁ operands climb minimum fuel left operand =>
      obtain ⟨step, answer⟩ := (refines o fuel).any good operand
      have hforward := forward_of_answer step answer fun _ _ => (takes fuel).any
      exact ⟨hforward.mono fun _ => rfl, within⟩
  | @right s s₁ s₂ s₃ s₄ operands climb minimum left operator info start t found save skip next =>
      exact ⟨(forward_of_operator good found save skip next).mono fun _ => trivial, within⟩
  | @again s s₁ s₂ s₃ s₄ s₅ s₆ operands climb minimum fuel left right whole operator info start t
      found save skip next operand built =>
      have hoperator := forward_of_operator good found save skip next
      obtain ⟨step, answer⟩ := (refines o fuel).climbing hoperator.good operand
      have hright := forward_of_answer step answer fun _ _ => (takes fuel).climbing
      have hforward := (hoperator.trans hright).trans (forward_of_build hright.good built)
      exact ⟨hforward.mono fun _ => .inl (.inl trivial), within⟩
  | @body s s₁ tag p fields start c applies save call =>
      refine ⟨stay (forward_of_savepoint good save) (Call.depth_body call), ?_⟩
      exact Nat.le_trans (Nat.le_of_lt (Call.depth_body call)) within
  | @part s tag p rest fields =>
      simp only [Call.depth, Production.depthAll] at within ⊢
      exact ⟨stay (.refl good) (by omega), by omega⟩
  | @rest s s₁ tag p rest fields fields' fuel matched =>
      obtain ⟨step, answer, -⟩ :=
        (refines o fuel).rule good (named_contents fields s.forest.content) matched
      obtain ⟨more, -, -, heq⟩ := answer
      simp only [Call.depth, Production.depthAll, Bool.true_or, if_true, Bool.false_or] at within ⊢
      refine ⟨(step.forward ((takes fuel).rule heq)).mono fun hle => ?_, by omega⟩
      -- a part that can match without a token makes way for the rest at a smaller depth
      by_contra hpasses
      rw [if_pos (by simpa using hpasses)] at hle
      omega
  | @branch s tag p rest fields =>
      simp only [Call.depth, Production.depthAny] at within ⊢
      exact ⟨stay (.refl good) (by omega), by omega⟩
  | @otherwise s s₁ tag p rest fields fuel mismatch =>
      obtain ⟨step, -, restored⟩ :=
        (refines o fuel).rule good (named_contents fields s.forest.content) mismatch
      simp only [Call.depth, Production.depthAny] at within ⊢
      exact ⟨stay (step.stay (restored rfl)) (by omega), by omega⟩
  | @single s info types climb fields name named one =>
      simp only [Call.depth] at within ⊢
      exact ⟨stay (.refl good) (by omega), by omega⟩
  | @list s info types climb fields name arity named several =>
      simp only [Call.depth] at within ⊢
      exact ⟨stay (.refl good) (by omega), by omega⟩
  | @expression s info types climb =>
      simp only [Call.depth] at within ⊢
      exact ⟨stay (.refl good) (by omega), by omega⟩
  | @plain s info types =>
      simp only [Call.depth] at within ⊢
      exact ⟨stay (.refl good) (by omega), by omega⟩
  | @item s s₁ s₂ info types climb arity sofar start room save separated =>
      have hsave := forward_of_savepoint good save
      have hforward := hsave.trans (forward_of_separate hsave.good separated)
      simp only [Call.depth] at within ⊢
      exact ⟨stay (hforward.mono nofun) (by omega), by omega⟩
  | @more s s₁ s₂ s₃ info types climb arity sofar start fuel id room save separated operand new =>
      have hsave := forward_of_savepoint good save
      have hbefore := hsave.trans (forward_of_separate hsave.good separated)
      obtain ⟨step, answer⟩ := (refines o fuel).operand hbefore.good operand
      have hitem := forward_of_answer step answer fun _ _ => (takes fuel).operand
      exact ⟨(hbefore.trans hitem).mono fun _ => .inr rfl, within⟩

/-- A call on the contents of a block has fewer tokens before it. -/
theorem Enters.inward {x y : Call × ParseState} (h : Enters x y) (level : String → Nat)
    (good : x.2.Good o x.2.forest.size) :
    y.2.Good o y.2.forest.size ∧
      weightAll y.2.source.upcoming < weightAll x.2.source.upcoming ∧
      y.1.depth level true ≤ x.1.depth level true := by
  cases h with
  | @contents s s₁ s₂ s₃ s₄ tag bracket inner fields t cell x start skip peek kind next entered
      save =>
      obtain ⟨step₁, -, hup₁⟩ := skipTrivia_step good skip
      obtain ⟨step₂, restored₂, hpeek⟩ := peek_step step₁.good peek
      obtain ⟨source, hnext, rfl⟩ := read_eq_ok.1 next
      obtain ⟨keeps, -, hcons, hcurrent, hstart⟩ := Source.nextCell_some step₂.good.ready hnext
      have step₃ := step_of_keeps step₂.good keeps
      rw [step₂.upcoming restored₂, hup₁] at hcons
      rw [hup₁, hcons, List.head?_cons, Option.map_some, Option.some.injEq] at hpeek
      cases cell with
      | leaf token => cases entered
      | block token contents =>
          cases entered
          obtain ⟨below, hb⟩ := Source.behind_of_current hcurrent
          have hsave := forward_of_savepoint (good_inBlock step₃.good hb) save
          refine ⟨hsave.good, ?_, ?_⟩
          · have hview : (inBlock { s₂ with source } x).source.upcoming =
                (Stream.line source.feed.last source.feed.queue x).trees := by
              simp [inBlock, Source.upcoming, Source.line, (hstart x rfl).1]
            have hkind : token.kind.isTrivia = false := by
              rw [show token = t from hpeek.symm, kind]
              cases bracket <;> rfl
            have hinside := hsave.beyond.le
            have houtside := (beyond_significant s.source.upcoming).le
            rw [hcons, weightAll, Source.treeOf, Cell.tree, weight, hkind] at houtside
            rw [hview] at hinside
            simp only [Bool.false_eq_true, if_false] at houtside
            dsimp only
            omega
          · simp only [Call.depth, if_true]
            omega

/-- A bound on how deep the calls of a call can nest: every token that is left
allows for one more nesting before the next one. -/
def measure (level : String → Nat) (top : Nat) (x : Call × ParseState) : Nat :=
  weightAll x.2.source.upcoming * (top + 1) + x.1.depth level false

theorem measure_lt_of_weight {x y : Call × ParseState}
    (h : weightAll y.2.source.upcoming < weightAll x.2.source.upcoming)
    (within : y.1.depth level true ≤ top) : measure level top y < measure level top x := by
  have hdepth := y.1.depth_le level
  have hmul := Nat.mul_le_mul_right (top + 1) (Nat.succ_le_of_lt h)
  rw [Nat.succ_mul] at hmul
  unfold measure
  omega

theorem Invokes.measure_lt {x y : Call × ParseState} (layered : o.Layered level top)
    (h : Invokes o.options x y) (good : x.2.Good o x.2.forest.size)
    (within : x.1.depth level true ≤ top) : measure level top y < measure level top x := by
  obtain ⟨hforward, hwithin⟩ := h.forward layered good within
  by_cases hdepth : x.1.depth level false ≤ y.1.depth level false
  · exact measure_lt_of_weight (hforward.beyond.fewer hdepth) hwithin
  · have hmul := Nat.mul_le_mul_right (top + 1) hforward.beyond.le
    unfold measure
    omega

/-- Fuel above the measure is enough, and more of it changes nothing. -/
theorem concur_of_measure (layered : o.Layered level top) {fuel fuel' : Nat}
    {x : Call × ParseState} (good : x.2.Good o x.2.forest.size)
    (within : x.1.depth level true ≤ top) (h : measure level top x < fuel)
    (h' : measure level top x < fuel') : x.1.Concur o.options fuel fuel' x.2 := by
  induction fuel generalizing fuel' x with
  | zero => cases h
  | succ fuel ih =>
      obtain _ | fuel' := fuel'
      · cases h'
      refine Call.concur_succ fun y hy => ?_
      have hy' : y.2.Good o y.2.forest.size ∧ y.1.depth level true ≤ top ∧
          measure level top y < measure level top x := by
        rcases hy with hy | hy
        · obtain ⟨hforward, hwithin⟩ := hy.forward layered good within
          exact ⟨hforward.good, hwithin, hy.measure_lt layered good within⟩
        · obtain ⟨hgood, hweight, hdepth⟩ := hy.inward level good
          have hwithin := Nat.le_trans hdepth within
          exact ⟨hgood, hwithin, measure_lt_of_weight hweight hwithin⟩
      obtain ⟨hgood, hwithin, hlt⟩ := hy'
      exact ih hgood hwithin (by omega) (by omega)

/-- Calls that nest on the same stream stand behind one another or lie at smaller
and smaller depths. -/
theorem forward_of_nested {x y : Call × ParseState} (layered : o.Layered level top)
    (h : Relation.TransGen (Invokes o.options) x y) (good : x.2.Good o x.2.forest.size)
    (within : x.1.depth level true ≤ top) :
    x.2.Forward o y.2 (x.1.depth level false ≤ y.1.depth level false) ∧
      y.1.depth level true ≤ top := by
  induction h with
  | single h => exact h.forward layered good within
  | tail _ h ih =>
      obtain ⟨hforward, hwithin⟩ := ih
      obtain ⟨hnext, hwithin⟩ := h.forward layered hforward.good hwithin
      exact ⟨(hforward.trans hnext).mono fun hle => by omega, hwithin⟩

/-- Every call of a parse is made in good order. -/
theorem good_of_leads {x y : Call × ParseState} (layered : o.Layered level top)
    (h : Relation.ReflTransGen (Leads o.options) x y) (good : x.2.Good o x.2.forest.size)
    (within : x.1.depth level true ≤ top) :
    y.2.Good o y.2.forest.size ∧ y.1.depth level true ≤ top := by
  induction h with
  | refl => exact ⟨good, within⟩
  | tail _ h ih =>
      obtain ⟨hgood, hwithin⟩ := ih
      rcases h with h | h
      · obtain ⟨hforward, hwithin⟩ := h.forward layered hgood hwithin
        exact ⟨hforward.good, hwithin⟩
      · obtain ⟨hgood, -, hdepth⟩ := h.inward level hgood
        exact ⟨hgood, Nat.le_trans hdepth hwithin⟩

/-- A call for a type that another call for it leads to, on the same stream, stands
behind a token. -/
theorem consumes_of_nested {tag : String} (layered : o.Layered level top)
    (h : Relation.TransGen (Invokes o.options) (.node tag, s) (.node tag, s'))
    (good : s.Good o least) (within : (Call.node tag).depth level true ≤ top) : s.Consumes s' := by
  obtain ⟨hforward, -⟩ := forward_of_nested layered h good.raise within
  exact (hforward.mono fun _ => Nat.le_refl _).consumes

/-- A node that was parsed consumed a token. -/
theorem consumes_of_parseNode {fuel : Nat} {tag : String} {id : NodeId} (grounded : o.Grounded)
    (good : s.Good o least) (h : parseNode o.options fuel tag s = (.ok (some id), s')) :
    s.Consumes s' := by
  obtain ⟨step, answer⟩ := (refines o fuel).node good h
  have hforward := forward_of_answer step answer fun _ _ => (Outline.takes grounded fuel).node
  exact (hforward.mono fun _ => rfl).consumes

end Parsing

/-! ### The standard grammar -/

mutual

/-- The cell that delivers a tree counts all of its tokens. -/
theorem TokenTree.weight_le : (tree : TokenTree) → tree.weight ≤ tree.toCell.weight
  | .leaf t => by rw [weight, toCell, Cell.weight]
  | .block t contents => by
      have := weightAll_le contents
      rw [weight, toCell, Cell.weight_block]
      split <;> omega

theorem TokenTree.weightAll_le : (trees : List TokenTree) →
    weightAll trees ≤ ((toCells trees).map Cell.weight).sum
  | [] => Nat.le_refl _
  | tree :: rest => by
      have := weight_le tree
      have := weightAll_le rest
      rw [weightAll, toCells, List.map_cons, List.sum_cons]
      omega

end

namespace Standard

open Parsing

/-- The levels of the types: those whose nodes can begin with a node of another
type stand above the others. -/
def level (tag : String) : Nat :=
  if ["BinaryExpr", "TableRef", "SelectItem", "OrderItem", "Script"].contains tag then 64 else 32

/-- A bound on all depths in the grammar. -/
def top : Nat := 127

theorem isLayered (d : Dialect) : (extend {}).isLayered level top d = true := by
  have hall : ∀ d ∈ Dialect.all, (extend {}).isLayered level top d = true := by decide +kernel
  exact hall d d.mem_all

theorem layered (options : ParseOptions) : Outline.Layered ⟨extend {}, options⟩ level top := by
  refine Registry.layered_of_isLayered (isLayered options.dialect) fun tag => ?_
  unfold level
  split <;> decide

/-- The bound on the depth of a parse is above the measure of every call for a type. -/
theorem measure_lt_bound (d : Dialect) (trees : List TokenTree) (tag : String) :
    let s := start { stream := .ofCells (TokenTree.toCells trees) } registry d
    Parsing.measure level top (.node tag, s) < bound s := by
  intro s
  have hsize : 12 ≤ registry.size := by
    rw [Registry.size, (agrees_registry d).types]
    change 12 ≤ (extend {}).size
    decide +kernel
  have hupcoming : s.source.upcoming = trees := (Source.fresh_ofTrees trees).2
  have hweight : weightAll trees ≤ s.source.weight := by
    change _ ≤ Source.weight { stream := .ofCells (TokenTree.toCells trees) }
    rw [Source.weight_ofCells]
    exact TokenTree.weightAll_le trees
  have hlevel := (layered { dialect := d }).level_lt tag
  calc
    Parsing.measure level top (.node tag, s) = weightAll trees * 128 + (1 + level tag) := by
      rw [Parsing.measure, hupcoming]
      rfl
    _ < (s.source.weight + 2) * 128 := by
      unfold top at hlevel
      omega
    _ ≤ bound s := Nat.mul_le_mul_left _ (by change 128 ≤ 8 * registry.size + 32; omega)

/-- Parsing with the standard grammar comes to an end. In every dialect, under every
policy of assertions and for every sequence of nested tokens, a call for a node of
any type comes to one and the same end with all the fuel that it is given, and
never for want of fuel. Of the calls for types that it leads to, each that finds a
node has consumed a token, and each that leads to another one for the same type,
with no block entered, has consumed a token before. -/
theorem returns (options : ParseOptions) (trees : List TokenTree) (tag : String) :
    let s := start { stream := .ofCells (TokenTree.toCells trees) } registry options.dialect
    (∃ r s', r ≠ .error .endless ∧
      ∀ fuel, bound s ≤ fuel → parseNode options fuel tag s = (r, s')) ∧
    ∀ type t, Relation.ReflTransGen (Leads options) (.node tag, s) (.node type, t) →
      (∀ fuel id t', parseNode options fuel type t = (.ok (some id), t') → t.Consumes t') ∧
      ∀ t', Relation.TransGen (Invokes options) (.node type, t) (.node type, t') →
        t.Consumes t' := by
  intro s
  let o : Outline := ⟨extend {}, options⟩
  have hlayered : o.Layered level top := layered options
  have good : s.Good o s.forest.size :=
    good_start options.dialect (Source.ready_ofCells trees) (agrees_registry options.dialect)
  have within (tag : String) : (Call.node tag).depth level true ≤ top := by
    have := hlayered.level_lt tag
    change 1 + level tag ≤ top
    omega
  constructor
  · have hlt := measure_lt_bound options.dialect trees tag
    have hconcur (fuel : Nat) (hfuel : bound s ≤ fuel) :=
      concur_of_measure hlayered good (within tag) hlt (Nat.lt_of_lt_of_le hlt hfuel)
    obtain ⟨r, s', hr, hrun, -⟩ := hconcur (bound s) (Nat.le_refl _)
    refine ⟨r, s', hr, fun fuel hfuel => ?_⟩
    obtain ⟨r', s'', -, hrun', hmore⟩ := hconcur fuel hfuel
    exact hmore.trans (hrun'.symm.trans hrun)
  · intro type t h
    obtain ⟨hgood, hwithin⟩ := good_of_leads hlayered h good (within tag)
    refine ⟨fun fuel id t' hrun => ?_, fun t' hnested => ?_⟩
    · exact consumes_of_parseNode hlayered.grounded hgood hrun
    · exact consumes_of_nested hlayered hnested hgood hwithin

end Standard

end DualSql
