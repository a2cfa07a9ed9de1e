import DualSql.Grammar.Parsing
import DualSql.Proofs.Grammar.Content
import DualSql.Proofs.Stream.Reading

/-! # The outline of parsing

Parsing without a stream, without a forest and without going back: a function
from the trees of tokens that are upcoming to what it makes of them and what
it leaves. An attempt that does not match simply leaves nothing behind.

Main definitions: `Attempt` and the functions of `Outline`, one for each
function of the parser. Main result: `Outline.stable`, more fuel changes no
outcome.

## Implementation notes

A computation that fails, be it for want of fuel or by an assertion, is
`stuck`; the kind of failure does not matter here. -/

namespace DualSql

/-- What an attempt to match comes to. -/
inductive Attempt (α : Type) where
  | stuck
  | mismatch
  | found (value : α) (rest : List TokenTree)

namespace Attempt

variable {α β : Type}

/-- Goes on with what was found. -/
def andThen (o : Attempt α) (more : α → List TokenTree → Attempt β) : Attempt β :=
  match o with
  | stuck => stuck
  | mismatch => mismatch
  | found value rest => more value rest

/-- Goes on with something else if nothing was found. -/
def orElse (o : Attempt α) (other : Attempt α) : Attempt α :=
  match o with
  | mismatch => other
  | _ => o

/-- Changes the value that was found. -/
def map (f : α → β) (o : Attempt α) : Attempt β :=
  o.andThen fun value rest => found (f value) rest

variable {a b : Attempt α} {x : α} {y : β} {rest : List TokenTree}

theorem andThen_eq_found {f : α → List TokenTree → Attempt β}
    (h : a.andThen f = .found y rest) :
    ∃ x rest', a = .found x rest' ∧ f x rest' = .found y rest := by
  cases a with
  | stuck => cases h
  | mismatch => cases h
  | found x rest' => exact ⟨x, rest', rfl, h⟩

theorem map_eq_found {f : α → β} (h : a.map f = .found y rest) :
    ∃ x, a = .found x rest ∧ f x = y := by
  obtain ⟨x, rest', rfl, hx⟩ := andThen_eq_found h
  cases hx
  exact ⟨x, rfl, rfl⟩

theorem orElse_eq_found (h : a.orElse b = .found x rest) :
    a = .found x rest ∨ a = .mismatch ∧ b = .found x rest := by
  cases a with
  | stuck => cases h
  | mismatch => exact .inr ⟨rfl, h⟩
  | found x' rest' => exact .inl h

end Attempt

/-- The fields of a tree. -/
abbrev Parts := List (String × Content)

/-- What parsing is done with: the types of the grammar and the choices. -/
structure Outline where
  registry : Registry
  options : ParseOptions

namespace Outline

/-- Matches a token. -/
def token (kinds : List TokenKind) (values : List String) (name : Option String) (fields : Parts)
    (trees : List TokenTree) : Attempt Parts :=
  match TokenTree.significant trees with
  | [] => .mismatch
  | tree :: rest =>
    if Parsing.fits kinds values tree.token then
      .found (fields ++ (name.map fun n => (n, .terminal (.ofToken tree.token))).toList) rest
    else .mismatch

/-- Matches the first of several tokens. -/
def tokens (name : Option String) (fields : Parts) (trees : List TokenTree) :
    List Production → Attempt Parts
  | [] => .mismatch
  | p :: rest =>
    match p.token? with
    | none => tokens name fields trees rest
    | some (kinds, values) =>
      (token kinds values name fields trees).orElse (tokens name fields trees rest)

/-- Takes the separator before an item, if the item needs one: whether it is
there, and what comes next. -/
def separate (separator : Option String) (items : List Content) (trees : List TokenTree) :
    Bool × List TokenTree :=
  match separator with
  | none => (true, trees)
  | some s =>
    if items.isEmpty then (true, trees)
    else
      match TokenTree.significant trees with
      | [] => (false, [])
      | tree :: rest =>
        if Parsing.isSeparator s tree.token then (true, rest) else (false, tree :: rest)

/-- The operator that climbing takes next, with what comes behind it. -/
def operator (minimum : Nat) (trees : List TokenTree) :
    Option (Token × OperatorInfo × List TokenTree) :=
  match TokenTree.significant trees with
  | [] => none
  | tree :: rest =>
    match tree.token.operator with
    | some info =>
      if info.binary && minimum ≤ info.precedence then some (tree.token, info, rest) else none
    | none => none

/-- The tree that climbing makes of two operands. -/
def joined (climb : Climb) (left : Content) (operator : Token) (right : Content) : Content :=
  .node climb.node [(climb.left, left), (climb.operator, .terminal (.ofToken operator)),
    (climb.right, right)]

/-- What was found in a block counts if it took all of the block. -/
def closed (rest : List TokenTree) (o : Attempt Parts) : Attempt Parts :=
  o.andThen fun fields left =>
    if (TokenTree.significant left).isEmpty then .found fields rest else .mismatch

/-- Whether a production applies, given the fields set before it. -/
def applies (p : Production) (fields : Parts) : Bool :=
  p.attrs.condition.all (·.holds fun name => (fields.lookup name).isSome)

variable (o : Outline)

mutual

/-- A tree of a type. -/
def node (fuel : Nat) (tag : String) (trees : List TokenTree) : Attempt Content :=
  match fuel with
  | 0 => .stuck
  | fuel + 1 =>
    match o.registry.type? tag with
    | none => .stuck
    | some (.declared _) => type fuel tag trees
    | some (.climbing operands climb _) =>
      (climbing fuel operands climb 0 trees).andThen fun x rest =>
        if x.tag = climb.node then .found x rest else .mismatch

/-- A tree of the first type that matches. -/
def any (fuel : Nat) (types : List String) (trees : List TokenTree) : Attempt Content :=
  match fuel with
  | 0 => .stuck
  | fuel + 1 =>
    match types with
    | [] => .mismatch
    | tag :: rest => (node fuel tag trees).orElse (any fuel rest trees)

/-- A tree of a type by its schema. -/
def type (fuel : Nat) (tag : String) (trees : List TokenTree) : Attempt Content :=
  match fuel with
  | 0 => .stuck
  | fuel + 1 =>
    match (o.registry.schema tag o.options.dialect).1 with
    | .error _ => .stuck
    | .ok schema =>
      match schema.root with
      | none => .mismatch
      | some root => (rule fuel root [] trees).map (.node tag)

/-- Operands with operators between them, down to a least precedence. -/
def climbing (fuel : Nat) (operands : List String) (climb : Climb) (minimum : Nat)
    (trees : List TokenTree) : Attempt Content :=
  match fuel with
  | 0 => .stuck
  | fuel + 1 =>
    (any fuel operands trees).andThen fun left rest =>
      extending fuel operands climb minimum left rest

/-- An operand with the operators that follow it. -/
def extending (fuel : Nat) (operands : List String) (climb : Climb) (minimum : Nat)
    (left : Content) (trees : List TokenTree) : Attempt Content :=
  match fuel with
  | 0 => .stuck
  | fuel + 1 =>
    match operator minimum trees with
    | none => .found left trees
    | some (t, info, rest) =>
      match climbing fuel operands climb (Parsing.nextMinimum info) rest with
      | .stuck => .stuck
      | .mismatch => .found left trees
      | .found right rest => extending fuel operands climb minimum (joined climb left t right) rest

/-- What a production matches, if its condition holds. -/
def rule (fuel : Nat) (p : Production) (fields : Parts) (trees : List TokenTree) :
    Attempt Parts :=
  match fuel with
  | 0 => .stuck
  | fuel + 1 =>
    if !applies p fields then .found fields trees
    else
      let matched := match p with
        | .token info kinds values => token kinds values info.attrs.name fields trees
        | .node info types climb => field fuel info types climb fields trees
        | .sequence _ parts => all fuel parts fields trees
        | .alternatives info branches =>
          if info.attrs.name.isSome then tokens info.attrs.name fields trees branches
          else first fuel branches fields trees
        | .block _ bracket inner => block fuel bracket inner fields trees
      matched.orElse <|
        if p.attrs.optional then .found fields trees
        else if Parsing.asserts o.options p then .stuck
        else .mismatch

/-- What productions match one after the other. -/
def all (fuel : Nat) (parts : List Production) (fields : Parts) (trees : List TokenTree) :
    Attempt Parts :=
  match fuel with
  | 0 => .stuck
  | fuel + 1 =>
    match parts with
    | [] => .found fields trees
    | p :: rest => (rule fuel p fields trees).andThen fun fields trees => all fuel rest fields trees

/-- What the first production matches that does. -/
def first (fuel : Nat) (branches : List Production) (fields : Parts) (trees : List TokenTree) :
    Attempt Parts :=
  match fuel with
  | 0 => .stuck
  | fuel + 1 =>
    match branches with
    | [] => .mismatch
    | p :: rest => (rule fuel p fields trees).orElse (first fuel rest fields trees)

/-- What a production makes of the contents of a block, if it takes them all. -/
def block (fuel : Nat) (bracket : Bracket) (inner : Production) (fields : Parts)
    (trees : List TokenTree) : Attempt Parts :=
  match fuel with
  | 0 => .stuck
  | fuel + 1 =>
    match TokenTree.significant trees with
    | .block t contents :: rest =>
      if t.kind ≠ bracket.tokenKind then .mismatch
      else closed rest (rule fuel inner fields contents)
    | _ => .mismatch

/-- A field of one tree, or of a list of trees. -/
def field (fuel : Nat) (info : RuleInfo) (types : List String) (climb : Option Climb)
    (fields : Parts) (trees : List TokenTree) : Attempt Parts :=
  match fuel with
  | 0 => .stuck
  | fuel + 1 =>
    match info.attrs.name with
    | none => .mismatch
    | some name =>
      match info.attrs.arity with
      | none => (operand fuel info types climb trees).map fun x => fields ++ [(name, x)]
      | some arity =>
        (items fuel info types climb arity [] trees).andThen fun xs rest =>
          if xs.length < arity.least then .mismatch
          else .found (fields ++ [(name, .list xs)]) rest

/-- A single tree of a node rule. -/
def operand (fuel : Nat) (info : RuleInfo) (types : List String) (climb : Option Climb)
    (trees : List TokenTree) : Attempt Content :=
  match fuel with
  | 0 => .stuck
  | fuel + 1 =>
    match climb with
    | some climb => climbing fuel types climb (info.attrs.minPrecedence.getD 0) trees
    | none => any fuel types trees

/-- The items of a list, as far as they go. -/
def items (fuel : Nat) (info : RuleInfo) (types : List String) (climb : Option Climb)
    (arity : Arity) (sofar : List Content) (trees : List TokenTree) : Attempt (List Content) :=
  match fuel with
  | 0 => .stuck
  | fuel + 1 =>
    if !arity.admitsMore sofar.length then .found sofar trees
    else
      match separate info.attrs.separator sofar trees with
      | (false, rest) => .found sofar rest
      | (true, rest) =>
        match operand fuel info types climb rest with
        | .stuck => .stuck
        | .mismatch => .found sofar trees
        | .found x rest =>
          if Content.repeats info.attrs.singletons sofar x then .found sofar trees
          else items fuel info types climb arity (sofar ++ [x]) rest

end

/-- What a production matches, whatever its condition and whether or not it
has to match. -/
def body (fuel : Nat) (p : Production) (fields : Parts) (trees : List TokenTree) :
    Attempt Parts :=
  match p with
  | .token info kinds values => token kinds values info.attrs.name fields trees
  | .node info types climb => o.field fuel info types climb fields trees
  | .sequence _ parts => o.all fuel parts fields trees
  | .alternatives info branches =>
    if info.attrs.name.isSome then tokens info.attrs.name fields trees branches
    else o.first fuel branches fields trees
  | .block _ bracket inner => o.block fuel bracket inner fields trees

theorem rule_succ (fuel : Nat) (p : Production) (fields : Parts) (trees : List TokenTree) :
    o.rule (fuel + 1) p fields trees =
      if !applies p fields then .found fields trees
      else
        (o.body fuel p fields trees).orElse <|
          if p.attrs.optional then .found fields trees
          else if Parsing.asserts o.options p then .stuck
          else .mismatch := by
  cases p <;> simp only [rule, body]

end Outline

/-! ### More fuel -/

namespace Attempt

variable {α β : Type} {a b : Attempt α}

/-- The first attempt is the second one, unless it got stuck. -/
def Below (a b : Attempt α) : Prop :=
  a = .stuck ∨ a = b

theorem Below.refl (a : Attempt α) : a.Below a :=
  .inr rfl

theorem stuck_below (a : Attempt α) : stuck.Below a :=
  .inl rfl

theorem Below.andThen {f g : α → List TokenTree → Attempt β} (h : a.Below b)
    (hfg : ∀ value rest, (f value rest).Below (g value rest)) :
    (a.andThen f).Below (b.andThen g) := by
  rcases h with rfl | rfl
  · exact stuck_below _
  · cases a with
    | stuck => exact .refl _
    | mismatch => exact .refl _
    | found value rest => exact hfg value rest

theorem Below.map (f : α → β) (h : a.Below b) : (a.map f).Below (b.map f) :=
  h.andThen fun _ _ => .refl _

theorem Below.orElse {c d : Attempt α} (h : a.Below b) (h' : c.Below d) :
    (a.orElse c).Below (b.orElse d) := by
  rcases h with rfl | rfl
  · exact stuck_below _
  · cases a with
    | mismatch => exact h'
    | stuck => exact .refl _
    | found value rest => exact .refl _

theorem Below.eq_of_ne (h : a.Below b) (hne : a ≠ .stuck) : b = a :=
  (h.resolve_left hne).symm

end Attempt

namespace Outline

open Attempt

variable (o : Outline)

/-- One more step of fuel changes no outcome. -/
structure Stable (fuel : Nat) : Prop where
  node (tag : String) (trees : List TokenTree) :
    (o.node fuel tag trees).Below (o.node (fuel + 1) tag trees)
  any (types : List String) (trees : List TokenTree) :
    (o.any fuel types trees).Below (o.any (fuel + 1) types trees)
  type (tag : String) (trees : List TokenTree) :
    (o.type fuel tag trees).Below (o.type (fuel + 1) tag trees)
  climbing (operands : List String) (climb : Climb) (minimum : Nat) (trees : List TokenTree) :
    (o.climbing fuel operands climb minimum trees).Below
      (o.climbing (fuel + 1) operands climb minimum trees)
  extending (operands : List String) (climb : Climb) (minimum : Nat) (left : Content)
      (trees : List TokenTree) :
    (o.extending fuel operands climb minimum left trees).Below
      (o.extending (fuel + 1) operands climb minimum left trees)
  rule (p : Production) (fields : Parts) (trees : List TokenTree) :
    (o.rule fuel p fields trees).Below (o.rule (fuel + 1) p fields trees)
  all (parts : List Production) (fields : Parts) (trees : List TokenTree) :
    (o.all fuel parts fields trees).Below (o.all (fuel + 1) parts fields trees)
  first (branches : List Production) (fields : Parts) (trees : List TokenTree) :
    (o.first fuel branches fields trees).Below (o.first (fuel + 1) branches fields trees)
  block (bracket : Bracket) (inner : Production) (fields : Parts) (trees : List TokenTree) :
    (o.block fuel bracket inner fields trees).Below (o.block (fuel + 1) bracket inner fields trees)
  field (info : RuleInfo) (types : List String) (climb : Option Climb) (fields : Parts)
      (trees : List TokenTree) :
    (o.field fuel info types climb fields trees).Below
      (o.field (fuel + 1) info types climb fields trees)
  operand (info : RuleInfo) (types : List String) (climb : Option Climb)
      (trees : List TokenTree) :
    (o.operand fuel info types climb trees).Below (o.operand (fuel + 1) info types climb trees)
  items (info : RuleInfo) (types : List String) (climb : Option Climb) (arity : Arity)
      (sofar : List Content) (trees : List TokenTree) :
    (o.items fuel info types climb arity sofar trees).Below
      (o.items (fuel + 1) info types climb arity sofar trees)

theorem stable_zero : o.Stable 0 := by
  constructor
  all_goals
    intros
    refine .inl ?_
    simp only [node, any, type, climbing, extending, rule, all, first, block, field, operand, items]

variable {o}

theorem body_below {fuel : Nat} (ih : o.Stable fuel) (p : Production) (fields : Parts)
    (trees : List TokenTree) :
    (o.body fuel p fields trees).Below (o.body (fuel + 1) p fields trees) := by
  cases p with
  | token info kinds values => exact .refl _
  | node info types climb => exact ih.field ..
  | sequence info parts => exact ih.all ..
  | alternatives info branches =>
      simp only [body]
      split
      · exact .refl _
      · exact ih.first ..
  | block info bracket inner => exact ih.block ..

theorem extending_below {fuel : Nat} (ih : o.Stable fuel) (operands : List String) (climb : Climb)
    (minimum : Nat) (left : Content) (trees : List TokenTree) :
    (o.extending (fuel + 1) operands climb minimum left trees).Below
      (o.extending (fuel + 2) operands climb minimum left trees) := by
  rw [extending, extending]
  cases operator minimum trees with
  | none => exact .refl _
  | some x =>
      obtain ⟨t, info, rest⟩ := x
      rcases ih.climbing operands climb (Parsing.nextMinimum info) rest with h | h
      · simp only [h]
        exact stuck_below _
      · simp only [← h]
        cases o.climbing fuel operands climb (Parsing.nextMinimum info) rest with
        | stuck => exact .refl _
        | mismatch => exact .refl _
        | found right rest => exact ih.extending ..

theorem items_below {fuel : Nat} (ih : o.Stable fuel) (info : RuleInfo) (types : List String)
    (climb : Option Climb) (arity : Arity) (sofar : List Content) (trees : List TokenTree) :
    (o.items (fuel + 1) info types climb arity sofar trees).Below
      (o.items (fuel + 2) info types climb arity sofar trees) := by
  rw [items, items]
  split
  · exact .refl _
  · rcases separate info.attrs.separator sofar trees with ⟨_ | _, rest⟩
    · exact .refl _
    · rcases ih.operand info types climb rest with h | h
      · simp only [h]
        exact stuck_below _
      · simp only [← h]
        cases o.operand fuel info types climb rest with
        | stuck => exact .refl _
        | mismatch => exact .refl _
        | found x rest =>
            dsimp only
            split
            · exact .refl _
            · exact ih.items ..

theorem stable_succ {fuel : Nat} (ih : o.Stable fuel) : o.Stable (fuel + 1) where
  node tag trees := by
    rw [node, node]
    split
    · exact .refl _
    · exact ih.type ..
    · exact (ih.climbing ..).andThen fun _ _ => .refl _
  any types trees := by
    cases types with
    | nil =>
        rw [any, any]
        exact .refl _
    | cons tag rest =>
        rw [any, any]
        exact (ih.node ..).orElse (ih.any ..)
  type tag trees := by
    rw [type, type]
    split
    · exact .refl _
    · split
      · exact .refl _
      · exact (ih.rule ..).map _
  climbing operands climb minimum trees := by
    rw [climbing, climbing]
    exact (ih.any ..).andThen fun _ _ => ih.extending ..
  extending := extending_below ih
  rule p fields trees := by
    rw [rule_succ, rule_succ]
    split
    · exact .refl _
    · exact (body_below ih p fields trees).orElse (.refl _)
  all parts fields trees := by
    cases parts with
    | nil =>
        rw [all, all]
        exact .refl _
    | cons p rest =>
        rw [all, all]
        exact (ih.rule ..).andThen fun _ _ => ih.all ..
  first branches fields trees := by
    cases branches with
    | nil =>
        rw [first, first]
        exact .refl _
    | cons p rest =>
        rw [first, first]
        exact (ih.rule ..).orElse (ih.first ..)
  block bracket inner fields trees := by
    rw [block, block]
    split
    · split
      · exact .refl _
      · exact (ih.rule ..).andThen fun _ _ => .refl _
    · exact .refl _
  field info types climb fields trees := by
    rw [field, field]
    split
    · exact .refl _
    · split
      · exact (ih.operand ..).map _
      · exact (ih.items ..).andThen fun _ _ => .refl _
  operand info types climb trees := by
    cases climb with
    | none =>
        rw [operand, operand]
        exact ih.any ..
    | some climb =>
        rw [operand, operand]
        exact ih.climbing ..
  items := items_below ih

theorem stable (o : Outline) (fuel : Nat) : o.Stable fuel := by
  induction fuel with
  | zero => exact o.stable_zero
  | succ fuel ih => exact stable_succ ih

/-- Climbing that came to something comes to the same with more fuel. -/
theorem climbing_mono {fuel fuel' : Nat} (hle : fuel ≤ fuel') {operands : List String}
    {climb : Climb} {minimum : Nat} {trees : List TokenTree}
    (h : o.climbing fuel operands climb minimum trees ≠ .stuck) :
    o.climbing fuel' operands climb minimum trees = o.climbing fuel operands climb minimum trees := by
  induction hle with
  | refl => rfl
  | @step fuel' _ ih =>
      have hbelow := (stable o fuel').climbing operands climb minimum trees
      rw [ih] at hbelow
      exact hbelow.eq_of_ne h

end Outline

end DualSql
