import Mathlib.Logic.Relation
import DualSql.Proofs.Grammar.Refinement

/-! # The calls of a parse

Which calls a call of a function of the parser makes, and from which states. The
result of a call is settled by the results of the calls that it makes: where
none of them runs out of fuel it does not either, and more fuel changes nothing.

Main definitions: `Parsing.Call`, `Parsing.Invokes` for the calls on the same
stream and `Parsing.Enters` for those on the contents of a block. Main result:
`Parsing.Call.concur_succ`.

## Implementation notes

A call may depend on what an earlier one came to. Both relations therefore ask
for the earlier runs, at any fuel. -/

namespace DualSql

open Fallible

/-! ### Fuel is for parsing only -/

namespace Source

/-- All that a computation fails with are errors of the lexing run. -/
def Lexes {α : Type} (m : Reading α) : Prop :=
  ∀ e, (∀ l, .lex l ≠ e) → Avoids e m

theorem lexes_fillTo (n : Nat) : Lexes (fillTo n) := by
  intro e he
  refine avoids_get.bind fun s => ?_
  split
  · exact avoids_set _
  · refine (avoids_set _).bind fun _ => ?_
    split
    · exact avoids_pure _
    · exact avoids_throw (he _)

theorem lexes_peek (n : Nat) : Lexes (peek n) := fun e he =>
  ((lexes_fillTo n e he).bind fun _ => avoids_get.bind fun _ => avoids_pure _).bind fun _ =>
    avoids_pure _

theorem lexes_peekPastTrivia (fuel n : Nat) : Lexes (peekPastTrivia fuel n) := by
  intro e he
  induction fuel generalizing n with
  | zero => exact avoids_pure _
  | succ fuel ih =>
      refine (lexes_peek n e he).bind fun t => ?_
      split
      · split
        · exact ih (n + 1)
        · exact avoids_pure _
      · exact avoids_pure _

theorem lexes_peekSignificant : Lexes peekSignificant := by
  intro e he
  refine (lexes_peek 0 e he).bind fun t => ?_
  split
  · split
    · exact avoids_get.bind fun s => lexes_peekPastTrivia _ 0 e he
    · exact avoids_pure _
  · exact avoids_pure _

theorem avoids_fillTo (n : Nat) : Avoids .endless (fillTo n) :=
  lexes_fillTo n _ nofun

theorem avoids_checkUnlocked : Avoids .endless checkUnlocked := by
  refine avoids_get.bind fun s => ?_
  split
  · exact avoids_throw nofun
  · exact avoids_pure _

theorem avoids_checkIndex (index : Nat) : Avoids .endless (checkIndex index) := by
  refine avoids_get.bind fun s => ?_
  dsimp only
  split
  · exact avoids_throw nofun
  · exact avoids_pure _

theorem avoids_peek (n : Nat) : Avoids .endless (peek n) :=
  lexes_peek n _ nofun

theorem avoids_isExhausted : Avoids .endless isExhausted :=
  (avoids_peek 0).bind fun _ => avoids_pure _

theorem avoids_nextCell : Avoids .endless nextCell :=
  avoids_checkUnlocked.bind fun _ => (avoids_fillTo 0).bind fun _ => avoids_get.bind fun _ =>
    (avoids_set _).bind fun _ => avoids_pure _

theorem avoids_next : Avoids .endless next :=
  avoids_nextCell.bind fun _ => avoids_pure _

theorem avoids_savepoint : Avoids .endless savepoint :=
  avoids_checkUnlocked.bind fun _ => (avoids_modify _).bind fun _ => avoids_get.bind fun _ =>
    avoids_pure _

theorem avoids_restore (index : Nat) : Avoids .endless (restore index) :=
  avoids_checkUnlocked.bind fun _ => (avoids_checkIndex index).bind fun _ => avoids_modify _

theorem avoids_skipTriviaUpTo (fuel : Nat) : Avoids .endless (skipTriviaUpTo fuel) := by
  induction fuel with
  | zero => exact avoids_pure _
  | succ fuel ih =>
      refine (avoids_peek 0).bind fun t => ?_
      split
      · exact avoids_next.bind fun _ => ih
      · exact avoids_pure _

theorem avoids_skipTrivia : Avoids .endless skipTrivia := by
  refine (avoids_peek 0).bind fun t => ?_
  split
  · exact avoids_get.bind fun s => avoids_skipTriviaUpTo _
  · exact avoids_pure _

theorem avoids_peekSignificant : Avoids .endless peekSignificant :=
  lexes_peekSignificant _ nofun

end Source

namespace Parsing

variable {α β : Type}

theorem avoids_read {e : Error} {action : Reading α} (h : Avoids e action) :
    Avoids e (read action) := by
  intro s s' hr
  unfold read at hr
  rcases hrun : action s.source with ⟨e | a, t⟩
  · rw [hrun] at hr
    cases hr
    exact h _ _ hrun
  · rw [hrun] at hr
    cases hr

theorem avoids_mark : Avoids .endless mark :=
  avoids_get.bind fun _ => avoids_pure _

theorem avoids_backtrack (start mark : Nat) : Avoids .endless (backtrack start mark) :=
  (avoids_read (Source.avoids_restore start)).bind fun _ => avoids_modify _

theorem avoids_schema (tag : String) (d : Dialect) : Avoids .endless (schema tag d) := by
  intro s s' h
  obtain ⟨e, he⟩ := Registry.grammar_of_schema (congrArg Prod.fst h)
  cases he

theorem avoids_build (tag : String) (fields : Fields) : Avoids .endless (build tag fields) := by
  intro s s' h
  have horphans (ids : List NodeId) : ids.forM s.forest.checkOrphan ≠ .error .endless := by
    induction ids with
    | nil => nofun
    | cons id ids ih =>
        rw [List.forM, Forest.checkOrphan]
        cases s.forest.parent? id with
        | none => exact ih
        | some parent => nofun
  have hbuild : s.forest.build tag fields = .error .endless := by
    unfold build at h
    split at h
    · cases h
    next e hbuild =>
      cases h
      exact hbuild
  cases hchildren : (Fields.children fields).forM s.forest.checkOrphan with
  | ok _ =>
      rw [Forest.build, hchildren] at hbuild
      cases hbuild
  | error e =>
      rw [Forest.build, hchildren] at hbuild
      cases hbuild
      exact horphans _ hchildren

theorem avoids_assertionFailure (options : ParseOptions) (p : Production) (tag : String) :
    Avoids .endless (assertionFailure options p tag : Parsing α) :=
  (avoids_read Source.avoids_peekSignificant).bind fun _ => avoids_throw nofun

theorem avoids_matchToken (kinds : List TokenKind) (values : List String) (name : Option String)
    (fields : Fields) : Avoids .endless (matchToken kinds values name fields) := by
  refine (avoids_read Source.avoids_skipTrivia).bind fun _ =>
    (avoids_read (Source.avoids_peek 0)).bind fun t => ?_
  split
  · exact avoids_pure _
  · split
    · exact (avoids_read Source.avoids_next).bind fun _ => avoids_pure _
    · exact avoids_pure _

theorem avoids_matchTokens (name : Option String) (fields : Fields) (branches : List Production) :
    Avoids .endless (matchTokens name fields branches) := by
  induction branches with
  | nil => exact avoids_pure _
  | cons p rest ih =>
      rw [matchTokens]
      split
      · exact ih
      · refine (avoids_matchToken _ _ name fields).bind fun r => ?_
        split
        · exact avoids_pure _
        · exact ih

theorem avoids_separate (separator : Option String) (items : List NodeId) :
    Avoids .endless (separate separator items) := by
  unfold separate
  split
  · exact avoids_pure _
  · split
    · exact avoids_pure _
    · refine (avoids_read Source.avoids_skipTrivia).bind fun _ =>
        (avoids_read (Source.avoids_peek 0)).bind fun t => ?_
      split
      · exact (avoids_read Source.avoids_next).bind fun _ => avoids_pure _
      · exact avoids_pure _

theorem avoids_climbingOperator (minimum : Nat) :
    Avoids .endless (climbingOperator minimum) := by
  refine (avoids_read Source.avoids_peekSignificant).bind fun t => ?_
  split
  · exact avoids_pure _
  · split
    · split
      · exact avoids_pure _
      · exact avoids_pure _
    · exact avoids_pure _

/-! ### Runs that come to the same end -/

/-- Two computations come to the same end, and not for want of fuel. -/
def Concur (m m' : Parsing α) (s : ParseState) : Prop :=
  ∃ r s', r ≠ .error .endless ∧ m s = (r, s') ∧ m' s = (r, s')

variable {m m' : Parsing α} {k k' : α → Parsing β} {s : ParseState}

theorem concur_self (h : Avoids .endless m) (s : ParseState) : Concur m m s :=
  ⟨(m s).1, (m s).2, fun he => h s (m s).2 (Prod.ext he rfl), rfl, rfl⟩

theorem Concur.pure (a : α) : Concur (Pure.pure a) (Pure.pure a) s :=
  concur_self (avoids_pure a) s

/-- What comes after a step may rely on what the step came to. -/
theorem Concur.bind (h : Concur m m' s)
    (hk : ∀ a s', m s = (.ok a, s') → Concur (k a) (k' a) s') : Concur (m >>= k) (m' >>= k') s := by
  obtain ⟨e | a, s', hr, hm, hm'⟩ := h
  · exact ⟨.error e, s', fun he => hr (by cases he; rfl), bind_of_error hm, bind_of_error hm'⟩
  · obtain ⟨r, t, hr, hk, hk'⟩ := hk a s' hm
    exact ⟨r, t, hr, (bind_of_ok hm).trans hk, (bind_of_ok hm').trans hk'⟩

/-- A step that takes no fuel is the same in both. -/
theorem concur_step (h : Avoids .endless m)
    (hk : ∀ a s', m s = (.ok a, s') → Concur (k a) (k' a) s') : Concur (m >>= k) (m >>= k') s :=
  (concur_self h s).bind hk

theorem Concur.get_bind {k k' : ParseState → Parsing β} (h : Concur (k s) (k' s) s) :
    Concur (get >>= k) (get >>= k') s :=
  (concur_self avoids_get s).bind fun a s' hget => by
    obtain ⟨rfl, rfl⟩ := get_eq_ok.1 hget
    exact h

theorem Concur.mark_bind {k k' : Nat → Parsing β}
    (h : Concur (k s.forest.size) (k' s.forest.size) s) :
    Concur (mark >>= k) (mark >>= k') s :=
  (concur_self avoids_mark s).bind fun a s' hmark => by
    obtain ⟨rfl, rfl⟩ := mark_eq_ok.1 hmark
    exact h

/-- Going back ends an attempt, whatever is answered then. -/
theorem concur_undo (start mark : Nat) (a : α) (s : ParseState) :
    Concur (do backtrack start mark; return a) (do backtrack start mark; return a) s :=
  concur_self ((avoids_backtrack start mark).bind fun _ => avoids_pure a) s

/-! ### Calls -/

/-- A call of one of the functions of the parser that take fuel. -/
inductive Call where
  | node (tag : String)
  | any (types : List String)
  | type (tag : String)
  | climbing (operands : List String) (climb : Climb) (minimum : Nat)
  | extending (operands : List String) (climb : Climb) (minimum : Nat) (left : NodeId)
  | rule (tag : String) (p : Production) (fields : Fields)
  | all (tag : String) (parts : List Production) (fields : Fields)
  | first (tag : String) (branches : List Production) (fields : Fields)
  | block (tag : String) (bracket : Bracket) (inner : Production) (fields : Fields)
  | field (info : RuleInfo) (types : List String) (climb : Option Climb) (fields : Fields)
  | operand (info : RuleInfo) (types : List String) (climb : Option Climb)
  | items (info : RuleInfo) (types : List String) (climb : Option Climb) (arity : Arity)
      (sofar : List NodeId)

namespace Call

/-- With either fuel the call comes to the same end, and not for want of fuel. -/
def Concur (options : ParseOptions) (fuel fuel' : Nat) (s : ParseState) : Call → Prop
  | node tag => Parsing.Concur (parseNode options fuel tag) (parseNode options fuel' tag) s
  | any types => Parsing.Concur (parseAny options fuel types) (parseAny options fuel' types) s
  | type tag => Parsing.Concur (parseType options fuel tag) (parseType options fuel' tag) s
  | climbing operands climb minimum =>
    Parsing.Concur (parseClimbing options fuel operands climb minimum)
      (parseClimbing options fuel' operands climb minimum) s
  | extending operands climb minimum left =>
    Parsing.Concur (climbFrom options fuel operands climb minimum left)
      (climbFrom options fuel' operands climb minimum left) s
  | rule tag p fields =>
    Parsing.Concur (matchRule options fuel tag p fields) (matchRule options fuel' tag p fields) s
  | all tag parts fields =>
    Parsing.Concur (matchAll options fuel tag parts fields)
      (matchAll options fuel' tag parts fields) s
  | first tag branches fields =>
    Parsing.Concur (matchFirst options fuel tag branches fields)
      (matchFirst options fuel' tag branches fields) s
  | block tag bracket inner fields =>
    Parsing.Concur (matchBlock options fuel tag bracket inner fields)
      (matchBlock options fuel' tag bracket inner fields) s
  | field info types climb fields =>
    Parsing.Concur (matchNode options fuel info types climb fields)
      (matchNode options fuel' info types climb fields) s
  | operand info types climb =>
    Parsing.Concur (matchOperand options fuel info types climb)
      (matchOperand options fuel' info types climb) s
  | items info types climb arity sofar =>
    Parsing.Concur (matchItems options fuel info types climb arity sofar)
      (matchItems options fuel' info types climb arity sofar) s

/-- The call that matching a production makes for what stands in it. -/
def body? (tag : String) (fields : Fields) : Production → Option Call
  | .token .. => none
  | .node info types climb => some (.field info types climb fields)
  | .sequence _ parts => some (.all tag parts fields)
  | .alternatives info branches =>
    if info.attrs.name.isSome then none else some (.first tag branches fields)
  | .block _ bracket inner => some (.block tag bracket inner fields)

end Call

/-- A call in a state makes another one in another state, on the same stream. -/
inductive Invokes (options : ParseOptions) : Call × ParseState → Call × ParseState → Prop
  /-- A node of a declared type is parsed by its rule. -/
  | declared {s : ParseState} {tag : String} {rule : Rule}
      (type : s.registry.type? tag = some (.declared rule)) :
      Invokes options (.node tag, s) (.type tag, s)
  /-- A node of a climbing type is parsed by climbing. -/
  | operators {s s₁ : ParseState} {tag : String} {operands : List String} {climb : Climb}
      {rule : Rule} {start : Nat}
      (type : s.registry.type? tag = some (.climbing operands climb rule))
      (save : read Source.savepoint s = (.ok start, s₁)) :
      Invokes options (.node tag, s) (.climbing operands climb 0, s₁)
  | head {s : ParseState} {tag : String} {rest : List String} :
      Invokes options (.any (tag :: rest), s) (.node tag, s)
  /-- The next type is tried after one that does not match. -/
  | tail {s s₁ : ParseState} {tag : String} {rest : List String} {fuel : Nat}
      (mismatch : parseNode options fuel tag s = (.ok none, s₁)) :
      Invokes options (.any (tag :: rest), s) (.any rest, s₁)
  | root {s s₁ s₂ : ParseState} {tag : String} {sch : Schema} {root : Production} {start : Nat}
      (compiled : schema tag options.dialect s = (.ok sch, s₁)) (exists_root : sch.root = some root)
      (save : read Source.savepoint s₁ = (.ok start, s₂)) :
      Invokes options (.type tag, s) (.rule tag root [], s₂)
  | left {s : ParseState} {operands : List String} {climb : Climb} {minimum : Nat} :
      Invokes options (.climbing operands climb minimum, s) (.any operands, s)
  /-- The operators that follow are looked for behind the first operand. -/
  | extend {s s₁ : ParseState} {operands : List String} {climb : Climb} {minimum fuel : Nat}
      {left : NodeId} (operand : parseAny options fuel operands s = (.ok (some left), s₁)) :
      Invokes options (.climbing operands climb minimum, s)
        (.extending operands climb minimum left, s₁)
  /-- The right operand is looked for behind the operator. -/
  | right {s s₁ s₂ s₃ s₄ : ParseState} {operands : List String} {climb : Climb} {minimum : Nat}
      {left : NodeId} {operator : Token} {info : OperatorInfo} {start : Nat} {t : Option Token}
      (found : climbingOperator minimum s = (.ok (some (operator, info)), s₁))
      (save : read Source.savepoint s₁ = (.ok start, s₂))
      (skip : read Source.skipTrivia s₂ = (.ok (), s₃))
      (next : read Source.next s₃ = (.ok t, s₄)) :
      Invokes options (.extending operands climb minimum left, s)
        (.climbing operands climb (nextMinimum info), s₄)
  /-- More operators are looked for behind the right operand. -/
  | again {s s₁ s₂ s₃ s₄ s₅ s₆ : ParseState} {operands : List String} {climb : Climb}
      {minimum fuel : Nat} {left right whole : NodeId} {operator : Token} {info : OperatorInfo}
      {start : Nat} {t : Option Token}
      (found : climbingOperator minimum s = (.ok (some (operator, info)), s₁))
      (save : read Source.savepoint s₁ = (.ok start, s₂))
      (skip : read Source.skipTrivia s₂ = (.ok (), s₃))
      (next : read Source.next s₃ = (.ok t, s₄))
      (operand : parseClimbing options fuel operands climb (nextMinimum info) s₄ =
        (.ok (some right), s₅))
      (built : build climb.node [(climb.left, .node left),
        (climb.operator, .terminal (.ofToken operator)), (climb.right, .node right)] s₅ =
        (.ok whole, s₆)) :
      Invokes options (.extending operands climb minimum left, s)
        (.extending operands climb minimum whole, s₆)
  | body {s s₁ : ParseState} {tag : String} {p : Production} {fields : Fields} {start : Nat}
      {c : Call}
      (applies : p.attrs.condition.all (·.holds fun name => (fields.lookup name).isSome) = true)
      (save : read Source.savepoint s = (.ok start, s₁)) (call : Call.body? tag fields p = some c) :
      Invokes options (.rule tag p fields, s) (c, s₁)
  | part {s : ParseState} {tag : String} {p : Production} {rest : List Production}
      {fields : Fields} :
      Invokes options (.all tag (p :: rest) fields, s) (.rule tag p fields, s)
  | rest {s s₁ : ParseState} {tag : String} {p : Production} {rest : List Production}
      {fields fields' : Fields} {fuel : Nat}
      (matched : matchRule options fuel tag p fields s = (.ok (some fields'), s₁)) :
      Invokes options (.all tag (p :: rest) fields, s) (.all tag rest fields', s₁)
  | branch {s : ParseState} {tag : String} {p : Production} {rest : List Production}
      {fields : Fields} :
      Invokes options (.first tag (p :: rest) fields, s) (.rule tag p fields, s)
  /-- The next branch is tried after one that does not match. -/
  | otherwise {s s₁ : ParseState} {tag : String} {p : Production} {rest : List Production}
      {fields : Fields} {fuel : Nat}
      (mismatch : matchRule options fuel tag p fields s = (.ok none, s₁)) :
      Invokes options (.first tag (p :: rest) fields, s) (.first tag rest fields, s₁)
  | single {s : ParseState} {info : RuleInfo} {types : List String} {climb : Option Climb}
      {fields : Fields} {name : String} (named : info.attrs.name = some name)
      (one : info.attrs.arity = none) :
      Invokes options (.field info types climb fields, s) (.operand info types climb, s)
  | list {s : ParseState} {info : RuleInfo} {types : List String} {climb : Option Climb}
      {fields : Fields} {name : String} {arity : Arity} (named : info.attrs.name = some name)
      (several : info.attrs.arity = some arity) :
      Invokes options (.field info types climb fields, s) (.items info types climb arity [], s)
  | expression {s : ParseState} {info : RuleInfo} {types : List String} {climb : Climb} :
      Invokes options (.operand info types (some climb), s)
        (.climbing types climb (info.attrs.minPrecedence.getD 0), s)
  | plain {s : ParseState} {info : RuleInfo} {types : List String} :
      Invokes options (.operand info types none, s) (.any types, s)
  | item {s s₁ s₂ : ParseState} {info : RuleInfo} {types : List String} {climb : Option Climb}
      {arity : Arity} {sofar : List NodeId} {start : Nat}
      (room : arity.admitsMore sofar.length = true)
      (save : read Source.savepoint s = (.ok start, s₁))
      (separated : separate info.attrs.separator sofar s₁ = (.ok true, s₂)) :
      Invokes options (.items info types climb arity sofar, s) (.operand info types climb, s₂)
  /-- Another item is looked for behind one. -/
  | more {s s₁ s₂ s₃ : ParseState} {info : RuleInfo} {types : List String} {climb : Option Climb}
      {arity : Arity} {sofar : List NodeId} {start fuel : Nat} {id : NodeId}
      (room : arity.admitsMore sofar.length = true)
      (save : read Source.savepoint s = (.ok start, s₁))
      (separated : separate info.attrs.separator sofar s₁ = (.ok true, s₂))
      (operand : matchOperand options fuel info types climb s₂ = (.ok (some id), s₃))
      (new : info.attrs.singletons.repeats s₃.forest sofar id = false) :
      Invokes options (.items info types climb arity sofar, s)
        (.items info types climb arity (sofar ++ [id]), s₃)

/-- A call makes another one on the contents of a block, which it has consumed. -/
inductive Enters : Call × ParseState → Call × ParseState → Prop
  | contents {s s₁ s₂ s₃ s₄ : ParseState} {tag : String} {bracket : Bracket} {inner : Production}
      {fields : Fields} {t : Token} {cell : Cell} {x : Stream} {start : Nat}
      (skip : read Source.skipTrivia s = (.ok (), s₁))
      (peek : read (Source.peek 0) s₁ = (.ok (some t), s₂)) (kind : t.kind = bracket.tokenKind)
      (next : read Source.nextCell s₂ = (.ok (some cell), s₃)) (entered : cell.contents? = some x)
      (save : read Source.savepoint (inBlock s₃ x) = (.ok start, s₄)) :
      Enters (.block tag bracket inner fields, s) (.rule tag inner fields, s₄)

/-- A call makes another one, on the same stream or on the contents of a block. -/
def Leads (options : ParseOptions) (x y : Call × ParseState) : Prop :=
  Invokes options x y ∨ Enters x y

/-! ### A call is settled by the calls that it makes -/

section succ

variable {options : ParseOptions} {fuel fuel' : Nat}

/-- The calls that a call makes come to the same end with either fuel. -/
abbrev Settled (options : ParseOptions) (fuel fuel' : Nat) (s : ParseState) (c : Call) : Prop :=
  ∀ y, Leads options (c, s) y → y.1.Concur options fuel fuel' y.2

theorem concur_node {tag : String} (h : Settled options fuel fuel' s (.node tag)) :
    Concur (parseNode options (fuel + 1) tag) (parseNode options (fuel' + 1) tag) s := by
  rw [parseNode, parseNode]
  apply Concur.get_bind
  cases htype : s.registry.type? tag with
  | none =>
      have hne : Error.grammar (.unknownType tag) ≠ .endless := by
        intro heq
        cases heq
      exact concur_self (avoids_throw hne) s
  | some nodeType =>
      cases nodeType with
      | declared rule => exact h _ (.inl (.declared htype))
      | climbing operands climb rule =>
          refine concur_step (avoids_read Source.avoids_savepoint) fun start s₁ hsave => ?_
          apply Concur.mark_bind
          refine (h _ (.inl (.operators htype hsave))).bind fun r s₂ _ => ?_
          cases r with
          | none => exact concur_undo _ _ _ _
          | some id =>
              apply Concur.get_bind
              split
              · exact .pure _
              · exact concur_undo _ _ _ _

theorem concur_any {types : List String} (h : Settled options fuel fuel' s (.any types)) :
    Concur (parseAny options (fuel + 1) types) (parseAny options (fuel' + 1) types) s := by
  rw [parseAny.eq_def, parseAny.eq_def]
  cases types with
  | nil => exact .pure _
  | cons tag rest =>
      refine (h _ (.inl .head)).bind fun r s₁ hnode => ?_
      cases r with
      | some id => exact .pure _
      | none => exact h _ (.inl (.tail hnode))

theorem concur_type {tag : String} (h : Settled options fuel fuel' s (.type tag)) :
    Concur (parseType options (fuel + 1) tag) (parseType options (fuel' + 1) tag) s := by
  rw [parseType, parseType]
  refine concur_step (avoids_schema tag options.dialect) fun sch s₁ hschema => ?_
  cases hroot : sch.root with
  | none => exact .pure _
  | some root =>
      refine concur_step (avoids_read Source.avoids_savepoint) fun start s₂ hsave => ?_
      apply Concur.mark_bind
      refine (h _ (.inl (.root hschema hroot hsave))).bind fun r s₃ _ => ?_
      cases r with
      | none => exact concur_undo _ _ _ _
      | some fields => exact concur_step (avoids_build tag fields) fun _ _ _ => .pure _

theorem concur_climbing {operands : List String} {climb : Climb} {minimum : Nat}
    (h : Settled options fuel fuel' s (.climbing operands climb minimum)) :
    Concur (parseClimbing options (fuel + 1) operands climb minimum)
      (parseClimbing options (fuel' + 1) operands climb minimum) s := by
  rw [parseClimbing, parseClimbing]
  refine (h _ (.inl .left)).bind fun r s₁ hany => ?_
  cases r with
  | none => exact .pure _
  | some left => exact (h _ (.inl (.extend hany))).bind fun _ _ _ => .pure _

theorem concur_extending {operands : List String} {climb : Climb} {minimum : Nat} {left : NodeId}
    (h : Settled options fuel fuel' s (.extending operands climb minimum left)) :
    Concur (climbFrom options (fuel + 1) operands climb minimum left)
      (climbFrom options (fuel' + 1) operands climb minimum left) s := by
  rw [climbFrom, climbFrom]
  refine concur_step (avoids_climbingOperator minimum) fun r s₁ hoperator => ?_
  cases r with
  | none => exact .pure _
  | some found =>
      obtain ⟨operator, info⟩ := found
      refine concur_step (avoids_read Source.avoids_savepoint) fun start s₂ hsave => ?_
      apply Concur.mark_bind
      refine concur_step (avoids_read Source.avoids_skipTrivia) fun _ s₃ hskip => ?_
      refine concur_step (avoids_read Source.avoids_next) fun t s₄ hnext => ?_
      refine (h _ (.inl (.right hoperator hsave hskip hnext))).bind fun r s₅ hright => ?_
      cases r with
      | none => exact concur_undo _ _ _ _
      | some right =>
          refine concur_step (avoids_build climb.node _) fun whole s₆ hbuild => ?_
          exact h _ (.inl (.again hoperator hsave hskip hnext hright hbuild))

theorem concur_body {tag : String} {p : Production} {fields : Fields} {s₁ : ParseState}
    (h : ∀ c, Call.body? tag fields p = some c → c.Concur options fuel fuel' s₁) :
    Concur (matchBody options fuel tag p fields) (matchBody options fuel' tag p fields) s₁ := by
  cases p with
  | token info kinds values => exact concur_self (avoids_matchToken _ _ _ _) _
  | node info types climb => exact h _ rfl
  | sequence info parts => exact h _ rfl
  | alternatives info branches =>
      rw [Call.body?] at h
      rw [matchBody, matchBody]
      split
      · exact concur_self (avoids_matchTokens _ _ _) _
      next hname => exact h _ (if_neg hname)
  | block info bracket inner => exact h _ rfl

theorem concur_rule {tag : String} {p : Production} {fields : Fields}
    (h : Settled options fuel fuel' s (.rule tag p fields)) :
    Concur (matchRule options (fuel + 1) tag p fields)
      (matchRule options (fuel' + 1) tag p fields) s := by
  rw [matchRule_succ, matchRule_succ]
  split
  · exact .pure _
  next happlies =>
    refine concur_step (avoids_read Source.avoids_savepoint) fun start s₁ hsave => ?_
    apply Concur.mark_bind
    have hbody := concur_body fun c hc => h _ (.inl (.body (by simpa using happlies) hsave hc))
    refine hbody.bind fun r s₂ _ => ?_
    cases r with
    | some fields' => exact .pure _
    | none =>
        dsimp only
        split
        · exact concur_self (avoids_assertionFailure options p tag) _
        · exact concur_undo _ _ _ _

theorem concur_all {tag : String} {parts : List Production} {fields : Fields}
    (h : Settled options fuel fuel' s (.all tag parts fields)) :
    Concur (matchAll options (fuel + 1) tag parts fields)
      (matchAll options (fuel' + 1) tag parts fields) s := by
  rw [matchAll.eq_def, matchAll.eq_def]
  cases parts with
  | nil => exact .pure _
  | cons p rest =>
      refine (h _ (.inl .part)).bind fun r s₁ hrule => ?_
      cases r with
      | some fields' => exact h _ (.inl (.rest hrule))
      | none => exact .pure _

theorem concur_first {tag : String} {branches : List Production} {fields : Fields}
    (h : Settled options fuel fuel' s (.first tag branches fields)) :
    Concur (matchFirst options (fuel + 1) tag branches fields)
      (matchFirst options (fuel' + 1) tag branches fields) s := by
  rw [matchFirst.eq_def, matchFirst.eq_def]
  cases branches with
  | nil => exact .pure _
  | cons p rest =>
      refine (h _ (.inl .branch)).bind fun r s₁ hrule => ?_
      cases r with
      | some fields' => exact .pure _
      | none => exact h _ (.inl (.otherwise hrule))

/-- What is done inside a block comes to the same end if it does on the contents. -/
theorem Concur.inside {contents : Stream} (h : Concur m m' (inBlock s contents)) :
    Concur (inside contents m) (inside contents m') s := by
  obtain ⟨r, u, hr, hm, hm'⟩ := h
  refine ⟨r, { u with source :=
    { s.source with feed := u.source.feed }.setCurrentContents u.source.stream }, hr, ?_, ?_⟩
  · simp only [Parsing.inside, inBlock] at hm ⊢
    rw [hm]
  · simp only [Parsing.inside, inBlock] at hm' ⊢
    rw [hm']

theorem concur_contents {tag : String} {inner : Production} {fields : Fields}
    (h : ∀ start s₁, read Source.savepoint s = (.ok start, s₁) →
      Concur (matchRule options fuel tag inner fields)
        (matchRule options fuel' tag inner fields) s₁) :
    Concur (matchContents options fuel tag inner fields)
      (matchContents options fuel' tag inner fields) s := by
  have hundo (start : Nat) {s₁ : ParseState} : Concur (do
      read (Source.restore start)
      return (none : Option Fields)) (do
      read (Source.restore start)
      return none) s₁ :=
    concur_self ((avoids_read (Source.avoids_restore start)).bind fun _ => avoids_pure _) s₁
  rw [matchContents, matchContents]
  refine concur_step (avoids_read Source.avoids_savepoint) fun start s₁ hsave => ?_
  refine (h start s₁ hsave).bind fun r s₂ _ => ?_
  cases r with
  | none => exact hundo start
  | some fields' =>
      refine concur_step (avoids_read Source.avoids_skipTrivia) fun _ s₃ _ => ?_
      refine concur_step (avoids_read Source.avoids_isExhausted) fun b s₄ _ => ?_
      cases b with
      | true => exact .pure _
      | false => exact hundo start

theorem concur_block {tag : String} {bracket : Bracket} {inner : Production} {fields : Fields}
    (h : Settled options fuel fuel' s (.block tag bracket inner fields)) :
    Concur (matchBlock options (fuel + 1) tag bracket inner fields)
      (matchBlock options (fuel' + 1) tag bracket inner fields) s := by
  rw [matchBlock_succ, matchBlock_succ]
  refine concur_step (avoids_read Source.avoids_skipTrivia) fun _ s₁ hskip => ?_
  refine concur_step (avoids_read (Source.avoids_peek 0)) fun t s₂ hpeek => ?_
  cases t with
  | none => exact .pure _
  | some t =>
      dsimp only
      split
      · exact .pure _
      next hkind =>
        refine concur_step (avoids_read Source.avoids_nextCell) fun cell s₃ hnext => ?_
        cases cell with
        | none => exact .pure _
        | some cell =>
            cases hcontents : cell.contents? with
            | none =>
                simp only [Option.bind_some, hcontents]
                exact .pure _
            | some x =>
                simp only [Option.bind_some, hcontents]
                refine Concur.inside (concur_contents fun start s₄ hsave => ?_)
                exact h _ (.inr (.contents hskip hpeek (Decidable.not_not.1 hkind) hnext hcontents
                  hsave))

theorem concur_field {info : RuleInfo} {types : List String} {climb : Option Climb}
    {fields : Fields} (h : Settled options fuel fuel' s (.field info types climb fields)) :
    Concur (matchNode options (fuel + 1) info types climb fields)
      (matchNode options (fuel' + 1) info types climb fields) s := by
  rw [matchNode, matchNode]
  cases hname : info.attrs.name with
  | none => exact .pure _
  | some name =>
      cases harity : info.attrs.arity with
      | none =>
          refine (h _ (.inl (.single hname harity))).bind fun r s₁ _ => ?_
          cases r with
          | some id => exact .pure _
          | none => exact .pure _
      | some arity =>
          refine (h _ (.inl (.list hname harity))).bind fun items s₁ _ => ?_
          split
          · exact .pure _
          · exact .pure _

theorem concur_operand {info : RuleInfo} {types : List String} {climb : Option Climb}
    (h : Settled options fuel fuel' s (.operand info types climb)) :
    Concur (matchOperand options (fuel + 1) info types climb)
      (matchOperand options (fuel' + 1) info types climb) s := by
  cases climb with
  | some climb => exact h _ (.inl .expression)
  | none => exact h _ (.inl .plain)

theorem concur_items {info : RuleInfo} {types : List String} {climb : Option Climb}
    {arity : Arity} {sofar : List NodeId}
    (h : Settled options fuel fuel' s (.items info types climb arity sofar)) :
    Concur (matchItems options (fuel + 1) info types climb arity sofar)
      (matchItems options (fuel' + 1) info types climb arity sofar) s := by
  rw [matchItems, matchItems]
  split
  · exact .pure _
  next hroom =>
    have hroom : arity.admitsMore sofar.length = true := by simpa using hroom
    refine concur_step (avoids_read Source.avoids_savepoint) fun start s₁ hsave => ?_
    apply Concur.mark_bind
    refine concur_step (avoids_separate info.attrs.separator sofar) fun b s₂ hsep => ?_
    cases b with
    | false => exact .pure _
    | true =>
        refine (h _ (.inl (.item hroom hsave hsep))).bind fun r s₃ hoperand => ?_
        cases r with
        | none => exact concur_undo _ _ _ _
        | some id =>
            apply Concur.get_bind
            split
            · exact concur_undo _ _ _ _
            next hnew =>
              exact h _ (.inl (.more hroom hsave hsep hoperand (by simpa using hnew)))

/-- A call comes to the same end with either fuel, and not for want of fuel, if the
calls that it makes do so with one less. -/
theorem Call.concur_succ {c : Call} (h : Settled options fuel fuel' s c) :
    c.Concur options (fuel + 1) (fuel' + 1) s := by
  cases c with
  | node tag => exact concur_node h
  | any types => exact concur_any h
  | type tag => exact concur_type h
  | climbing operands climb minimum => exact concur_climbing h
  | extending operands climb minimum left => exact concur_extending h
  | rule tag p fields => exact concur_rule h
  | all tag parts fields => exact concur_all h
  | first tag branches fields => exact concur_first h
  | block tag bracket inner fields => exact concur_block h
  | field info types climb fields => exact concur_field h
  | operand info types climb => exact concur_operand h
  | items info types climb arity sofar => exact concur_items h

end succ

end Parsing

end DualSql
