import DualSql.Proofs.Grammar.Refinement
import DualSql.Proofs.Grammar.ShapeFields

/-! # The registry and the forest during a parse

All that a parse does with the registry is to ask it for schemas, and all that it
does with the forest is to make nodes and to drop the last ones. What these keep, a
parse keeps, whether it succeeds or fails. If they keep it for some nodes only, it has
to be known of what the nodes are made.

Main definitions: `Parsing.Stable`, `Parsing.Guard` and `Parsing.Upheld`, with
`Parsing.PreservesAll` and `Parsing.UpholdsAll`, what is to be shown of the functions
of the parser at some fuel. Main results: `Parsing.upholdsAll`, `Parsing.preservesAll`,
`Parsing.preserves_whole` and `Parsing.preservesAgrees`. -/

namespace DualSql.Parsing

open Fallible

/-- A computation keeps a property of the registry and the forest. -/
abbrev Preserves {α : Type} (P : Registry → Forest → Prop) (m : Parsing α) : Prop :=
  Keeps (fun s : ParseState => P s.registry s.forest) m

/-- What a parse does with the registry and the forest keeps a property of them. -/
structure Stable (P : Registry → Forest → Prop) : Prop where
  schema (r : Registry) (f : Forest) (tag : String) (d : Dialect) (h : P r f) :
    P (r.schema tag d).2 f
  append (r : Registry) (f : Forest) (tag : String) (fields : Fields) (h : P r f) :
    P r (f.append tag fields).2
  truncate (r : Registry) (f : Forest) (mark : Nat) (h : P r f) : P r (f.truncate mark)

variable {P : Registry → Forest → Prop}

theorem preserves_read {α : Type} (action : Reading α) :
    Preserves P (read action) := fun _ h => h

/-- Making a node gives its number and changes nothing but the forest. -/
theorem built {tag : String} {fields : Fields} {id : NodeId} {s s' : ParseState}
    (h : build tag fields s = (.ok id, s')) :
    id = s.forest.size ∧ s' = { s with forest := (s.forest.append tag fields).2 } := by
  unfold build at h
  split at h
  next forest hbuild =>
    cases h
    obtain ⟨rfl, rfl⟩ := Forest.build_ok hbuild
    exact ⟨rfl, rfl⟩
  next => cases h

theorem ends_build {tag : String} {fields : Fields} {s : ParseState} (h : P s.registry s.forest)
    (hmade : P s.registry (s.forest.append tag fields).2) :
    Ends (fun s : ParseState => P s.registry s.forest) (build tag fields) s := by
  rw [Ends]
  rcases hrun : build tag fields s with ⟨e | id, t⟩
  · unfold build at hrun
    split at hrun <;> cases hrun
    exact h
  · obtain ⟨-, rfl⟩ := built hrun
    exact hmade

theorem preserves_build (stable : Stable P) (tag : String) (fields : Fields) :
    Preserves P (build tag fields) :=
  fun _ h => ends_build h (stable.append _ _ tag fields h)

theorem preserves_mark : Preserves P mark := fun _ h => h

theorem preserves_backtrack
    (truncate : ∀ (r : Registry) (f : Forest) (mark : Nat), P r f → P r (f.truncate mark))
    (start mark : Nat) : Preserves P (backtrack start mark) :=
  (preserves_read _).bind fun _ _ h => truncate _ _ mark h

theorem preserves_inside {α : Type} {action : Parsing α} (contents : Stream)
    (h : Preserves P action) :
    Preserves P (inside contents action) :=
  fun s hs => h { s with source := { s.source with stream := contents } } hs

theorem preserves_assertionFailure {α : Type} (options : ParseOptions) (p : Production)
    (tag : String) :
    Preserves P
      (assertionFailure options p tag : Parsing α) :=
  (preserves_read _).bind fun _ => keeps_throw _

theorem preserves_matchToken (kinds : List TokenKind) (values : List String) (name : Option String)
    (fields : Fields) :
    Preserves P (matchToken kinds values name fields) := by
  refine (preserves_read _).bind fun _ => (preserves_read _).bind fun t => ?_
  split
  · exact keeps_pure _
  · split
    · exact (preserves_read _).bind fun _ => keeps_pure _
    · exact keeps_pure _

theorem preserves_matchTokens (name : Option String) (fields : Fields)
    (branches : List Production) : Preserves P (matchTokens name fields branches) := by
  induction branches with
  | nil => exact keeps_pure _
  | cons p rest ih =>
      rw [matchTokens]
      split
      · exact ih
      · refine (preserves_matchToken _ _ _ _).bind fun r => ?_
        split
        · exact keeps_pure _
        · exact ih

theorem preserves_separate (separator : Option String) (items : List NodeId) :
    Preserves P (separate separator items) := by
  unfold separate
  split
  · exact keeps_pure _
  · split
    · exact keeps_pure _
    · refine (preserves_read _).bind fun _ => (preserves_read _).bind fun t => ?_
      split
      · exact (preserves_read _).bind fun _ => keeps_pure _
      · exact keeps_pure _

theorem preserves_climbingOperator (minimum : Nat) :
    Preserves P (climbingOperator minimum) := by
  refine (preserves_read _).bind fun t => ?_
  split
  · exact keeps_pure _
  · split
    · split
      · exact keeps_pure _
      · exact keeps_pure _
    · exact keeps_pure _

/-! ### Conditions on what nodes are made of -/

/-- What is asked of the ways in which operands are combined, of types and their
productions, and of the operands that are combined. -/
structure Guard where
  climb : Climb → Prop
  root : String → Production → Prop
  operand : Forest → NodeId → Prop

/-- Nothing is asked. -/
def Guard.open : Guard where
  climb _ := True
  root _ _ := True
  operand _ _ := True

/-- What a parse does with the registry and the forest keeps a property of them, if
what is asked holds of all that nodes are made of. It does so where a registry with
the property gives a type or a schema, and where an operand was parsed. -/
structure Upheld (g : Guard) (options : ParseOptions) (P : Registry → Forest → Prop) : Prop where
  schema (r : Registry) (f : Forest) (tag : String) (d : Dialect) (h : P r f) :
    P (r.schema tag d).2 f
  truncate (r : Registry) (f : Forest) (mark : Nat) (h : P r f) : P r (f.truncate mark)
  type {r : Registry} {f : Forest} {tag : String} {operands : List String} {climb : Climb}
    {rule : Rule} (h : P r f) (htype : r.type? tag = some (.climbing operands climb rule)) :
    g.climb climb
  root {r : Registry} {f : Forest} {tag : String} {schema : Schema} {root : Production} (h : P r f)
    (hschema : (r.schema tag options.dialect).1 = .ok schema) (hroot : schema.root = some root) :
    g.root tag root ∧ ∀ climb ∈ root.climbs, g.climb climb
  node {fuel : Nat} {tag : String} {root : Production} {fields : Fields} {s t : ParseState}
    (h : P s.registry s.forest) (hroot : g.root tag root)
    (hrun : matchRule options fuel tag root [] s = (.ok (some fields), t))
    (ht : P t.registry t.forest) : P t.registry (t.forest.append tag fields).2
  operand {fuel : Nat} {operands : List String} {left : NodeId} {s t : ParseState}
    (h : P s.registry s.forest)
    (hrun : parseAny options fuel operands s = (.ok (some left), t)) : g.operand t.forest left
  whole {fuel : Nat} {operands : List String} {climb : Climb} {minimum : Nat} {left right : NodeId}
    {s t : ParseState} (h : P s.registry s.forest) (hclimb : g.climb climb)
    (hleft : g.operand s.forest left)
    (hrun : parseClimbing options fuel operands climb minimum s = (.ok (some right), t))
    (ht : P t.registry t.forest) (operator : Terminal) :
    let f := (t.forest.append climb.node [(climb.left, .node left),
      (climb.operator, .terminal operator), (climb.right, .node right)]).2
    P t.registry f ∧ g.operand f t.forest.size

/-- What is kept whatever nodes are made of. -/
theorem Stable.upheld (stable : Stable P) (options : ParseOptions) :
    Upheld .open options P where
  schema := stable.schema
  truncate := stable.truncate
  type _ _ := trivial
  root _ _ _ := ⟨trivial, fun _ _ => trivial⟩
  node _ _ _ ht := stable.append _ _ _ _ ht
  operand _ _ := trivial
  whole _ _ _ _ ht _ := ⟨stable.append _ _ _ _ ht, trivial⟩

/-- What is to be shown of the functions of the parser at some fuel: they keep a
property of the registry and the forest, if what is asked holds of what they are
given. -/
structure UpholdsAll (g : Guard) (P : Registry → Forest → Prop) (options : ParseOptions)
    (fuel : Nat) : Prop where
  node (tag : String) :
    Preserves P (parseNode options fuel tag)
  any (types : List String) :
    Preserves P (parseAny options fuel types)
  type (tag : String) :
    Preserves P (parseType options fuel tag)
  climbing (operands : List String) {climb : Climb} (hclimb : g.climb climb) (minimum : Nat) :
    Preserves P (parseClimbing options fuel operands climb minimum)
  extending (operands : List String) {climb : Climb} (hclimb : g.climb climb) (minimum : Nat)
      {left : NodeId} {s : ParseState} (hs : P s.registry s.forest)
      (hleft : g.operand s.forest left) :
    Ends (fun s : ParseState => P s.registry s.forest)
      (climbFrom options fuel operands climb minimum left) s
  rule (tag : String) {p : Production} (hp : ∀ climb ∈ p.climbs, g.climb climb) (fields : Fields) :
    Preserves P (matchRule options fuel tag p fields)
  all (tag : String) {parts : List Production}
      (hparts : ∀ climb ∈ Production.climbsAll parts, g.climb climb) (fields : Fields) :
    Preserves P (matchAll options fuel tag parts fields)
  first (tag : String) {branches : List Production}
      (hbranches : ∀ climb ∈ Production.climbsAll branches, g.climb climb) (fields : Fields) :
    Preserves P (matchFirst options fuel tag branches fields)
  block (tag : String) (bracket : Bracket) {inner : Production}
      (hinner : ∀ climb ∈ inner.climbs, g.climb climb) (fields : Fields) :
    Preserves P (matchBlock options fuel tag bracket inner fields)
  field (info : RuleInfo) (types : List String) {climb : Option Climb}
      (hclimb : ∀ c ∈ climb, g.climb c) (fields : Fields) :
    Preserves P (matchNode options fuel info types climb fields)
  operand (info : RuleInfo) (types : List String) {climb : Option Climb}
      (hclimb : ∀ c ∈ climb, g.climb c) :
    Preserves P (matchOperand options fuel info types climb)
  items (info : RuleInfo) (types : List String) {climb : Option Climb}
      (hclimb : ∀ c ∈ climb, g.climb c) (arity : Arity) (sofar : List NodeId) :
    Preserves P (matchItems options fuel info types climb arity sofar)

variable {g : Guard} {options : ParseOptions}

theorem upholdsAll_zero : UpholdsAll g P options 0 := by
  constructor
  case extending =>
    intros
    assumption
  all_goals
    intros
    exact keeps_throw _

section succ

variable {fuel : Nat} (ih : UpholdsAll g P options fuel)
include ih

theorem upholds_node (upheld : Upheld g options P) (tag : String) :
    Preserves P (parseNode options (fuel + 1) tag) := by
  refine keeps_iff_ends.2 fun s hs => ?_
  rw [parseNode]
  refine Ends.get_bind ?_
  split
  · exact hs
  · exact (ih.type tag).ends hs
  next operands climb rule htype =>
    have hclimb := upheld.type hs htype
    refine Keeps.ends ((preserves_read _).bind fun start => preserves_mark.bind fun mark =>
      (ih.climbing _ hclimb _).bind fun r => ?_) hs
    split
    · refine keeps_get.bind fun s => ?_
      split
      · exact keeps_pure _
      · exact (preserves_backtrack upheld.truncate start mark).bind fun _ => keeps_pure _
    · exact (preserves_backtrack upheld.truncate start mark).bind fun _ => keeps_pure _

theorem upholds_any (types : List String) :
    Preserves P (parseAny options (fuel + 1) types) := by
  cases types with
  | nil => exact keeps_pure _
  | cons tag rest =>
      rw [parseAny]
      refine (ih.node _).bind fun r => ?_
      split
      · exact keeps_pure _
      · exact ih.any _

theorem upholds_type (upheld : Upheld g options P) (tag : String) :
    Preserves P (parseType options (fuel + 1) tag) := by
  refine keeps_iff_ends.2 fun s hs => ?_
  have hasked : Preserves P (Parsing.schema tag options.dialect) :=
    fun _ h => upheld.schema _ _ _ _ h
  rw [parseType]
  refine (hasked.ends hs).bind fun schema t hschema ht => ?_
  split
  · exact ht
  next root hroot =>
    obtain ⟨hguard, hclimbs⟩ := upheld.root hs (Prod.mk.inj hschema).1 hroot
    refine ((preserves_read _).ends ht).bind fun start t _ ht => ?_
    refine (preserves_mark.ends ht).bind fun mark t _ ht => ?_
    refine ((ih.rule _ hclimbs _).ends ht).bind fun r u hrun hu => ?_
    cases r with
    | none =>
        exact ((preserves_backtrack upheld.truncate start mark).bind fun _ => keeps_pure _).ends hu
    | some fields =>
        have hmade := ends_build hu (upheld.node ht hguard hrun hu)
        exact hmade.bind fun _ _ _ h => h

theorem upholds_climbing (upheld : Upheld g options P) (operands : List String) {climb : Climb}
    (hclimb : g.climb climb) (minimum : Nat) :
    Preserves P (parseClimbing options (fuel + 1) operands climb minimum) := by
  refine keeps_iff_ends.2 fun s hs => ?_
  rw [parseClimbing]
  refine ((ih.any _).ends hs).bind fun r t hrun ht => ?_
  cases r with
  | none => exact ht
  | some left =>
      exact (ih.extending operands hclimb minimum ht (upheld.operand hs hrun)).bind
        fun _ _ _ h => h

theorem upholds_extending (upheld : Upheld g options P) (operands : List String) {climb : Climb}
    (hclimb : g.climb climb) (minimum : Nat) {left : NodeId} {s : ParseState}
    (hs : P s.registry s.forest) (hleft : g.operand s.forest left) :
    Ends (fun s : ParseState => P s.registry s.forest)
      (climbFrom options (fuel + 1) operands climb minimum left) s := by
  -- Up to the right operand, what is asked of the left one is kept as well.
  let Q (r : Registry) (f : Forest) : Prop := P r f ∧ g.operand f left
  have hQ : ∀ t : ParseState, Q t.registry t.forest → P t.registry t.forest := fun _ h => h.1
  rw [climbFrom]
  refine ((preserves_climbingOperator (P := Q) minimum).ends ⟨hs, hleft⟩).bind_of_imp hQ
    fun r t _ ht => ?_
  split
  · exact ht.1
  next operator info _ =>
    refine ((preserves_read (P := Q) _).ends ht).bind_of_imp hQ fun start t _ ht => ?_
    refine ((preserves_mark (P := Q)).ends ht).bind_of_imp hQ fun mark t _ ht => ?_
    refine ((preserves_read (P := Q) _).ends ht).bind_of_imp hQ fun _ t _ ht => ?_
    refine ((preserves_read (P := Q) _).ends ht).bind_of_imp hQ fun _ t _ ht => ?_
    refine ((ih.climbing _ hclimb _).ends ht.1).bind fun r u hrun hu => ?_
    cases r with
    | none =>
        exact ((preserves_backtrack upheld.truncate start mark).bind fun _ => keeps_pure _).ends hu
    | some right =>
        obtain ⟨hmade, hwhole⟩ := upheld.whole ht.1 hclimb ht.2 hrun hu (.ofToken operator)
        refine (ends_build hu hmade).bind fun whole v hbuild hv => ?_
        obtain ⟨rfl, rfl⟩ := built hbuild
        exact ih.extending _ hclimb _ hv hwhole

theorem upholds_rule (upheld : Upheld g options P) (tag : String) {p : Production}
    (hp : ∀ climb ∈ p.climbs, g.climb climb) (fields : Fields) :
    Preserves P (matchRule options (fuel + 1) tag p fields) := by
  rw [matchRule_succ]
  split
  · exact keeps_pure _
  · refine (preserves_read _).bind fun start => preserves_mark.bind fun mark =>
      Keeps.bind ?_ fun r => ?_
    · cases p with
      | token info kinds values => exact preserves_matchToken _ _ _ _
      | node info types climb =>
          exact ih.field _ _ (fun c hc => hp c (Option.mem_toList.2 hc)) _
      | sequence info parts => exact ih.all _ hp _
      | alternatives info branches =>
          rw [matchBody]
          split
          · exact preserves_matchTokens _ _ _
          next hname =>
            rw [Production.climbs, if_neg hname] at hp
            exact ih.first _ hp _
      | block info bracket inner =>
          rw [Production.climbs] at hp
          exact ih.block _ _ hp _
    · split
      · exact keeps_pure _
      · split
        · exact preserves_assertionFailure _ _ _
        · exact (preserves_backtrack upheld.truncate start mark).bind fun _ => keeps_pure _

theorem upholds_all (tag : String) {parts : List Production}
    (hparts : ∀ climb ∈ Production.climbsAll parts, g.climb climb) (fields : Fields) :
    Preserves P (matchAll options (fuel + 1) tag parts fields) := by
  cases parts with
  | nil => exact keeps_pure _
  | cons p rest =>
      obtain ⟨hp, hrest⟩ := List.forall_mem_append.1 hparts
      rw [matchAll]
      refine (ih.rule _ hp _).bind fun r => ?_
      split
      · exact ih.all _ hrest _
      · exact keeps_pure _

theorem upholds_first (tag : String) {branches : List Production}
    (hbranches : ∀ climb ∈ Production.climbsAll branches, g.climb climb) (fields : Fields) :
    Preserves P (matchFirst options (fuel + 1) tag branches fields) := by
  cases branches with
  | nil => exact keeps_pure _
  | cons p rest =>
      obtain ⟨hp, hrest⟩ := List.forall_mem_append.1 hbranches
      rw [matchFirst]
      refine (ih.rule _ hp _).bind fun r => ?_
      split
      · exact keeps_pure _
      · exact ih.first _ hrest _

theorem upholds_block (tag : String) (bracket : Bracket) {inner : Production}
    (hinner : ∀ climb ∈ inner.climbs, g.climb climb) (fields : Fields) :
    Preserves P (matchBlock options (fuel + 1) tag bracket inner fields) := by
  rw [matchBlock_succ]
  refine (preserves_read _).bind fun _ => (preserves_read _).bind fun t => ?_
  split
  · exact keeps_pure _
  · split
    · exact keeps_pure _
    · refine (preserves_read _).bind fun cell => ?_
      split
      · exact keeps_pure _
      · refine preserves_inside _ ((preserves_read _).bind fun start =>
          (ih.rule _ hinner _).bind fun r => ?_)
        split
        · refine (preserves_read _).bind fun _ => (preserves_read _).bind fun exhausted => ?_
          split
          · exact keeps_pure _
          · exact (preserves_read _).bind fun _ => keeps_pure _
        · exact (preserves_read _).bind fun _ => keeps_pure _

theorem upholds_field (info : RuleInfo) (types : List String) {climb : Option Climb}
    (hclimb : ∀ c ∈ climb, g.climb c) (fields : Fields) :
    Preserves P (matchNode options (fuel + 1) info types climb fields) := by
  rw [matchNode]
  split
  · exact keeps_pure _
  · split
    · refine (ih.operand _ _ hclimb).bind fun r => ?_
      split
      · exact keeps_pure _
      · exact keeps_pure _
    · refine (ih.items _ _ hclimb _ _).bind fun ids => ?_
      split
      · exact keeps_pure _
      · exact keeps_pure _

theorem upholds_operand (info : RuleInfo) (types : List String) {climb : Option Climb}
    (hclimb : ∀ c ∈ climb, g.climb c) :
    Preserves P (matchOperand options (fuel + 1) info types climb) := by
  cases climb with
  | none => exact ih.any _
  | some climb => exact ih.climbing _ (hclimb climb rfl) _

theorem upholds_items (upheld : Upheld g options P) (info : RuleInfo) (types : List String)
    {climb : Option Climb} (hclimb : ∀ c ∈ climb, g.climb c) (arity : Arity)
    (sofar : List NodeId) :
    Preserves P (matchItems options (fuel + 1) info types climb arity sofar) := by
  rw [matchItems]
  split
  · exact keeps_pure _
  · refine (preserves_read _).bind fun start => preserves_mark.bind fun mark =>
      (preserves_separate _ _).bind fun more => ?_
    split
    · exact keeps_pure _
    · refine (ih.operand _ _ hclimb).bind fun r => ?_
      split
      · exact (preserves_backtrack upheld.truncate start mark).bind fun _ => keeps_pure _
      · refine keeps_get.bind fun s => ?_
        split
        · exact (preserves_backtrack upheld.truncate start mark).bind fun _ => keeps_pure _
        · exact ih.items _ _ hclimb _ _

end succ

/-- A parse keeps what its steps keep, as long as nodes are made of what is asked for. -/
theorem upholdsAll (upheld : Upheld g options P) (fuel : Nat) : UpholdsAll g P options fuel := by
  induction fuel with
  | zero => exact upholdsAll_zero
  | succ fuel ih =>
      exact {
        node := upholds_node ih upheld
        any := upholds_any ih
        type := upholds_type ih upheld
        climbing := upholds_climbing ih upheld
        extending := upholds_extending ih upheld
        rule := upholds_rule ih upheld
        all := upholds_all ih
        first := upholds_first ih
        block := upholds_block ih
        field := upholds_field ih
        operand := upholds_operand ih
        items := upholds_items ih upheld }

theorem upholds_whole (upheld : Upheld g options P) (types : List String) :
    Preserves P (parseWhole options types) := by
  refine (preserves_read _).bind fun start => keeps_get.bind fun s =>
    ((upholdsAll upheld _).any _).bind fun root => (preserves_read _).bind fun _ => ?_
  cases root with
  | none => exact (preserves_read _).bind fun _ => keeps_throw _
  | some root =>
      refine (preserves_read _).bind fun exhausted => ?_
      cases exhausted with
      | false => exact (preserves_read _).bind fun _ => keeps_throw _
      | true => exact (preserves_read _).bind fun _ => keeps_pure _

/-! ### Whatever nodes are made of -/

/-- What is to be shown of the functions of the parser at some fuel: they keep what
asking for schemas, making nodes and dropping nodes keep. -/
structure PreservesAll (P : Registry → Forest → Prop) (options : ParseOptions) (fuel : Nat) :
    Prop where
  node (tag : String) :
    Preserves P (parseNode options fuel tag)
  any (types : List String) :
    Preserves P (parseAny options fuel types)
  type (tag : String) :
    Preserves P (parseType options fuel tag)
  climbing (operands : List String) (climb : Climb) (minimum : Nat) :
    Preserves P (parseClimbing options fuel operands climb minimum)
  extending (operands : List String) (climb : Climb) (minimum : Nat) (left : NodeId) :
    Preserves P (climbFrom options fuel operands climb minimum left)
  rule (tag : String) (p : Production) (fields : Fields) :
    Preserves P (matchRule options fuel tag p fields)
  all (tag : String) (parts : List Production) (fields : Fields) :
    Preserves P (matchAll options fuel tag parts fields)
  first (tag : String) (branches : List Production) (fields : Fields) :
    Preserves P (matchFirst options fuel tag branches fields)
  block (tag : String) (bracket : Bracket) (inner : Production) (fields : Fields) :
    Preserves P (matchBlock options fuel tag bracket inner fields)
  field (info : RuleInfo) (types : List String) (climb : Option Climb) (fields : Fields) :
    Preserves P (matchNode options fuel info types climb fields)
  operand (info : RuleInfo) (types : List String) (climb : Option Climb) :
    Preserves P (matchOperand options fuel info types climb)
  items (info : RuleInfo) (types : List String) (climb : Option Climb) (arity : Arity)
      (sofar : List NodeId) :
    Preserves P (matchItems options fuel info types climb arity sofar)

/-- A parse keeps what asking for schemas, making nodes and dropping nodes keep. -/
theorem preservesAll (stable : Stable P) (fuel : Nat) : PreservesAll P options fuel := by
  have all := upholdsAll (stable.upheld options) fuel
  exact {
    node := all.node
    any := all.any
    type := all.type
    climbing operands climb minimum := all.climbing operands trivial minimum
    extending operands climb minimum left s hs := all.extending operands trivial minimum hs trivial
    rule tag p fields := all.rule tag (fun _ _ => trivial) fields
    all tag parts fields := all.all tag (fun _ _ => trivial) fields
    first tag branches fields := all.first tag (fun _ _ => trivial) fields
    block tag bracket inner fields := all.block tag bracket (fun _ _ => trivial) fields
    field info types climb fields := all.field info types (fun _ _ => trivial) fields
    operand info types climb := all.operand info types (fun _ _ => trivial)
    items info types climb arity sofar := all.items info types (fun _ _ => trivial) arity sofar }

theorem preserves_whole (stable : Stable P) (types : List String) :
    Preserves P (parseWhole options types) :=
  upholds_whole (stable.upheld options) types

/-- Asking for schemas changes no answer of the registry. -/
theorem stable_agrees (r : Registry) : Stable fun r' _ => r.Agrees r' where
  schema _ _ tag d h := h.trans (Registry.agrees_schema _ tag d)
  append _ _ _ _ h := h
  truncate _ _ _ h := h

theorem preservesAgrees (options : ParseOptions) (r : Registry) (fuel : Nat) :
    PreservesAll (fun r' _ => r.Agrees r') options fuel :=
  preservesAll (stable_agrees r) fuel

/-- A computation that keeps the answers of the registry keeps them in a run. -/
theorem agrees_of_run {α : Type} {m : Parsing α} {x : Except Error α} {r : Registry}
    {s s' : ParseState} (preserves : Preserves (fun r' _ => r.Agrees r') m)
    (h : r.Agrees s.registry) (hm : m s = (x, s')) : r.Agrees s'.registry := by
  have hkept := preserves s h
  rwa [hm] at hkept

end DualSql.Parsing
