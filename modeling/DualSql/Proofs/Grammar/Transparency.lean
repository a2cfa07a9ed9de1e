import DualSql.Proofs.Stream.Thinned
import DualSql.Tree

/-! # Parsing does not see trivia

Every function of the parser skips trivia before it looks at a token, takes
savepoints wherever the trivia may stand, and counts no token that is trivia.
So it answers alike on sources that differ in trivia only, errors included, and
makes the same nodes.

Main definition: `Parsing.Blind`. Main results: `Parsing.blindAt`, for every
function of the parser, `Tree.ofParse_of_twins`, for whole parses, and
`Tree.trivia_transparent`. -/

namespace DualSql

namespace ParseState

/-- Two states whose sources are twins and that are equal in all else. -/
structure Twin (s t : ParseState) : Prop where
  source : s.source.Twin t.source
  forest : t.forest = s.forest
  registry : t.registry = s.registry

/-- What two states have become by steps that did not fail. -/
structure Pace (s t s' t' : ParseState) : Prop where
  twin : s'.Twin t'
  left : s.source.Later s'.source
  right : t.source.Later t'.source

/-- Twins that come to the same token next. -/
structure Poised (s t s' t' : ParseState) : Prop where
  pace : s.Pace t s' t'
  heads : ∃ o, s'.source.Heads o ∧ t'.source.Heads o

variable {s t s₁ t₁ s₂ t₂ : ParseState}

theorem Twin.refl (h : s.Twin t) : s.Pace t s t :=
  ⟨h, .refl h.source.left, .refl h.source.right⟩

theorem Pace.trans (h : s.Pace t s₁ t₁) (h' : s₁.Pace t₁ s₂ t₂) : s.Pace t s₂ t₂ :=
  ⟨h'.twin, h.left.trans h'.left, h.right.trans h'.right⟩

theorem Pace.source (h : s.Pace t s₁ t₁) : s.source.Pace t.source s₁.source t₁.source :=
  ⟨h.twin.source, h.left, h.right⟩

end ParseState

namespace Parsing

open Fallible ParseState

variable {s t s₁ t₁ s₂ t₂ : ParseState} {α β : Type}

/-- A computation that answers alike on twins, which are twins afterwards. -/
def Blind (m : Parsing α) : Prop :=
  ∀ s t : ParseState, s.Twin t → Agree (s.Pace t) m m s t

theorem Blind.from {m : Parsing α} (h : Blind m) (hp : s.Pace t s₁ t₁) :
    Agree (s.Pace t) m m s₁ t₁ :=
  (h s₁ t₁ hp.twin).mono fun _ _ => hp.trans

theorem Blind.pure (a : α) : Blind (pure a : Parsing α) :=
  fun _ _ h => .pure a h.refl

theorem Blind.throw (e : Error) : Blind (throw e : Parsing α) :=
  fun _ _ _ => .throw e

theorem Blind.bind {m : Parsing α} {k : α → Parsing β} (h : Blind m) (hk : ∀ a, Blind (k a)) :
    Blind (m >>= k) :=
  fun s t hst => (h s t hst).bind fun a _ _ hp => (hk a).from hp

/-! ### The primitives of the parser -/

/-- Reading changes nothing but the source. -/
theorem agree_read {R : Source → Source → Prop} {action action' : Reading α}
    (h : Agree R action action' s.source t.source) :
    Agree (fun s' t' => ∃ source source', R source source' ∧
      s' = { s with source } ∧ t' = { t with source := source' }) (read action) (read action') s t := by
  obtain ⟨r, source, source', hs, ht, hR⟩ := h
  refine ⟨r, { s with source }, { t with source := source' }, ?_, ?_, fun a ha => ?_⟩
  · rw [read, hs]
  · rw [read, ht]
  · exact ⟨source, source', hR a ha, rfl, rfl⟩

theorem agree_read_pace {action action' : Reading α} (h : s.Pace t s₁ t₁)
    (ha : Agree (s.source.Pace t.source) action action' s₁.source t₁.source) :
    Agree (s.Pace t) (read action) (read action') s₁ t₁ := by
  refine (agree_read ha).mono ?_
  rintro _ _ ⟨source, source', pace, rfl, rfl⟩
  exact ⟨⟨pace.twin, h.twin.forest, h.twin.registry⟩, pace.left, pace.right⟩

theorem agree_read_poised {action action' : Reading α} (h : s.Pace t s₁ t₁)
    (ha : Agree (s₁.source.Poised t₁.source) action action' s₁.source t₁.source) :
    Agree (s.Poised t) (read action) (read action') s₁ t₁ := by
  refine (agree_read ha).mono ?_
  rintro _ _ ⟨source, source', poised, rfl, rfl⟩
  obtain ⟨⟨twin, left, right⟩, heads⟩ := poised
  exact ⟨h.trans ⟨⟨twin, h.twin.forest, h.twin.registry⟩, left, right⟩, heads⟩

theorem agree_skipTrivia (h : s.Pace t s₁ t₁) :
    Agree (s.Poised t) (read Source.skipTrivia) (read Source.skipTrivia) s₁ t₁ :=
  agree_read_poised h h.twin.source.skipTrivia

theorem agree_peek (h : s.Poised t s₁ t₁) :
    Agree (s.Poised t) (read (Source.peek 0)) (read (Source.peek 0)) s₁ t₁ := by
  obtain ⟨o, hs, ht⟩ := h.heads
  exact agree_read_poised h.pace (h.pace.twin.source.peek hs ht)

/-- What comes after a look ahead may rely on what was seen. -/
theorem agree_peeked {R : ParseState → ParseState → Prop} {k l : Option Token → Parsing α}
    (h : s.Poised t s₁ t₁) (hk : ∀ o s₂ t₂, s.Pace t s₂ t₂ → s₂.source.Heads o →
      t₂.source.Heads o → Agree R (k o) (l o) s₂ t₂) :
    Agree R (read (Source.peek 0) >>= k) (read (Source.peek 0) >>= l) s₁ t₁ := by
  obtain ⟨o, hs, ht⟩ := h.heads
  have twin := h.pace.twin
  obtain ⟨source, hpeek, left, hp⟩ := Source.peek_of_heads twin.source.left hs
  obtain ⟨source', hpeek', right, hp'⟩ := Source.peek_of_heads twin.source.right ht
  have pace := twin.source.stay left right hp hp'
  refine .steps (read_eq_ok.2 ⟨source, hpeek, rfl⟩) (read_eq_ok.2 ⟨source', hpeek', rfl⟩)
    (hk o _ _ ?_ (left.heads hp hs) (right.heads hp' ht))
  exact h.pace.trans ⟨⟨pace.twin, twin.forest, twin.registry⟩, pace.left, pace.right⟩

theorem agree_isExhausted (h : s.Poised t s₁ t₁) :
    Agree (s.Poised t) (read Source.isExhausted) (read Source.isExhausted) s₁ t₁ := by
  obtain ⟨o, hs, ht⟩ := h.heads
  exact agree_read_poised h.pace (h.pace.twin.source.isExhausted hs ht)

theorem agree_next (h : s.Poised t s₁ t₁) :
    Agree (s.Pace t) (read Source.next) (read Source.next) s₁ t₁ := by
  obtain ⟨o, hs, ht⟩ := h.heads
  refine (agree_read_pace h.pace.twin.refl (h.pace.twin.source.next hs ht)).mono ?_
  exact fun _ _ => h.pace.trans

theorem blind_peekSignificant : Blind (read Source.peekSignificant) :=
  fun _ _ h => agree_read_pace h.refl h.source.peekSignificant

/-- What comes after a savepoint may go back to it. -/
theorem agree_savepoint {R : ParseState → ParseState → Prop} {k l : Nat → Parsing α}
    (h : s.Twin t) (hk : ∀ s₁ t₁, s.Pace t s₁ t₁ →
      Agree R (k s.source.stream.position) (l t.source.stream.position) s₁ t₁) :
    Agree R (read Source.savepoint >>= k) (read Source.savepoint >>= l) s t := by
  obtain ⟨source, source', hs, ht, pace⟩ := h.source.savepoint
  refine .steps (read_eq_ok.2 ⟨source, hs, rfl⟩) (read_eq_ok.2 ⟨source', ht, rfl⟩) (hk _ _ ?_)
  exact ⟨⟨pace.twin, h.forest, h.registry⟩, pace.left, pace.right⟩

theorem agree_mark {R : ParseState → ParseState → Prop} {k l : Nat → Parsing α} (h : s.Twin t)
    (hk : Agree R (k s.forest.size) (l s.forest.size) s t) :
    Agree R (mark >>= k) (mark >>= l) s t :=
  .steps (mark_eq_ok.2 ⟨rfl, rfl⟩) (mark_eq_ok.2 ⟨congrArg Forest.size h.forest, rfl⟩) hk

theorem agree_restore (h : s.Twin t) (hp : s.Pace t s₁ t₁) :
    Agree (s.Pace t) (read (Source.restore s.source.stream.position))
      (read (Source.restore t.source.stream.position)) s₁ t₁ :=
  agree_read_pace hp (h.source.restore hp.source)

/-- Going back ends an attempt, whatever is answered then. -/
theorem agree_undo (h : s.Twin t) (hp : s.Pace t s₁ t₁) (mark : Nat) (a : α) :
    Agree (s.Pace t) (do backtrack s.source.stream.position mark; return a)
      (do backtrack t.source.stream.position mark; return a) s₁ t₁ := by
  have hback : Agree (s.Pace t) (backtrack s.source.stream.position mark)
      (backtrack t.source.stream.position mark) s₁ t₁ := by
    refine (agree_restore h hp).bind fun _ s₂ t₂ hp₂ => ?_
    refine .of_ok (a := ⟨⟩) (modify_eq_ok.2 rfl) (modify_eq_ok.2 rfl) ?_
    exact ⟨⟨hp₂.twin.source, by rw [hp₂.twin.forest], hp₂.twin.registry⟩, hp₂.left, hp₂.right⟩
  exact hback.bind fun _ _ _ hp₂ => .pure a hp₂

theorem blind_schema (tag : String) (d : Dialect) : Blind (schema tag d) := by
  intro s t h
  refine ⟨(s.registry.schema tag d).1, { s with registry := (s.registry.schema tag d).2 },
    { t with registry := (t.registry.schema tag d).2 }, rfl, ?_, fun _ _ => ?_⟩
  · rw [← h.registry]
    rfl
  · exact ⟨⟨h.source, h.forest, by rw [h.registry]⟩, h.refl.left, h.refl.right⟩

theorem blind_build (tag : String) (fields : Fields) : Blind (build tag fields) := by
  intro s t h
  rcases hb : s.forest.build tag fields with e | ⟨id, forest⟩
  · have hfails {u : ParseState} (hu : u.forest = s.forest) :
        build tag fields u = (.error e, u) := by
      simp only [build, hu, hb]
    exact .of_error (hfails rfl) (hfails h.forest)
  · have hbuilds {u : ParseState} (hu : u.forest = s.forest) :
        build tag fields u = (.ok id, { u with forest }) := by
      simp only [build, hu, hb]
    exact .of_ok (hbuilds rfl) (hbuilds h.forest)
      ⟨⟨h.source, rfl, h.registry⟩, h.refl.left, h.refl.right⟩

theorem blind_assertionFailure (options : ParseOptions) (p : Production) (tag : String) :
    Blind (assertionFailure options p tag : Parsing α) :=
  blind_peekSignificant.bind fun _ => .throw _

/-- What is done inside a block that twins consumed. -/
theorem agree_inside {m : Parsing α} {token token' : Token} {x y : Stream}
    {below below' : List Cell} (hm : Blind m) (h : s.Pace t s₁ t₁)
    (hb : s₁.source.stream.behind = .block token x :: below)
    (hb' : t₁.source.stream.behind = .block token' y :: below')
    (contents : Source.Twin { s₁.source with stream := x } { t₁.source with stream := y }) :
    Agree (s.Pace t) (inside x m) (inside y m) s₁ t₁ := by
  obtain ⟨r, u, v, hu, hv, hr⟩ :=
    hm (inBlock s₁ x) (inBlock t₁ y) ⟨contents, h.twin.forest, h.twin.registry⟩
  refine ⟨r, { u with source :=
      { s₁.source with feed := u.source.feed }.setCurrentContents u.source.stream },
    { v with source :=
      { t₁.source with feed := v.source.feed }.setCurrentContents v.source.stream },
    ?_, ?_, fun a ha => ?_⟩
  · simp only [inside, inBlock] at hu ⊢
    rw [hu]
  · simp only [inside, inBlock] at hv ⊢
    rw [hv]
  · have pace := hr a ha
    obtain ⟨twin, left, right⟩ := h.twin.source.leave hb hb' pace.source
    simp only [Source.setCurrentContents, hb, hb', Cell.mapContents]
    exact h.trans ⟨⟨twin, pace.twin.forest, pace.twin.registry⟩, left, right⟩

/-! ### Tokens -/

theorem blind_matchToken (kinds : List TokenKind) (values : List String) (name : Option String)
    (fields : Fields) : Blind (matchToken kinds values name fields) := by
  intro s t h
  rw [matchToken]
  refine (agree_skipTrivia h.refl).bind fun _ s₁ t₁ poised₁ => ?_
  refine (agree_peek poised₁).bind fun o s₂ t₂ poised₂ => ?_
  cases o with
  | none => exact .pure _ poised₂.pace
  | some token =>
      dsimp only
      split
      · exact (agree_next poised₂).bind fun _ _ _ hp₃ => .pure _ hp₃
      · exact .pure _ poised₂.pace

theorem blind_matchTokens (name : Option String) (fields : Fields) (branches : List Production) :
    Blind (matchTokens name fields branches) := by
  induction branches with
  | nil => exact .pure _
  | cons p rest ih =>
      rw [matchTokens]
      cases p.token? with
      | none => exact ih
      | some kv =>
          refine (blind_matchToken kv.1 kv.2 name fields).bind fun r => ?_
          cases r with
          | some fields' => exact .pure _
          | none => exact ih

theorem blind_separate (separator : Option String) (items : List NodeId) :
    Blind (separate separator items) := by
  cases separator with
  | none => exact .pure _
  | some symbol =>
      rw [separate]
      split
      · exact .pure _
      · intro s t h
        rw [eatSeparator]
        refine (agree_skipTrivia h.refl).bind fun _ s₁ t₁ poised₁ => ?_
        refine (agree_peek poised₁).bind fun o s₂ t₂ poised₂ => ?_
        split
        · exact (agree_next poised₂).bind fun _ _ _ hp₃ => .pure _ hp₃
        · exact .pure _ poised₂.pace

theorem blind_climbingOperator (minimum : Nat) : Blind (climbingOperator minimum) := by
  rw [climbingOperator]
  refine blind_peekSignificant.bind fun o => ?_
  cases o with
  | none => exact .pure _
  | some token =>
      dsimp only
      split
      · split
        · exact .pure _
        · exact .pure _
      · exact .pure _

/-! ### The functions of the parser -/

/-- No function of the parser tells twins apart at some fuel. -/
structure BlindAt (options : ParseOptions) (fuel : Nat) : Prop where
  node (tag : String) : Blind (parseNode options fuel tag)
  any (types : List String) : Blind (parseAny options fuel types)
  type (tag : String) : Blind (parseType options fuel tag)
  climbing (operands : List String) (climb : Climb) (minimum : Nat) :
    Blind (parseClimbing options fuel operands climb minimum)
  extending (operands : List String) (climb : Climb) (minimum : Nat) (left : NodeId) :
    Blind (climbFrom options fuel operands climb minimum left)
  rule (tag : String) (p : Production) (fields : Fields) :
    Blind (matchRule options fuel tag p fields)
  all (tag : String) (parts : List Production) (fields : Fields) :
    Blind (matchAll options fuel tag parts fields)
  first (tag : String) (branches : List Production) (fields : Fields) :
    Blind (matchFirst options fuel tag branches fields)
  block (tag : String) (bracket : Bracket) (inner : Production) (fields : Fields) :
    Blind (matchBlock options fuel tag bracket inner fields)
  field (info : RuleInfo) (types : List String) (climb : Option Climb) (fields : Fields) :
    Blind (matchNode options fuel info types climb fields)
  operand (info : RuleInfo) (types : List String) (climb : Option Climb) :
    Blind (matchOperand options fuel info types climb)
  items (info : RuleInfo) (types : List String) (climb : Option Climb) (arity : Arity)
    (sofar : List NodeId) : Blind (matchItems options fuel info types climb arity sofar)

theorem blindAt_zero (options : ParseOptions) : BlindAt options 0 := by
  constructor
  all_goals
    intros
    simp only [parseNode, parseAny, parseType, parseClimbing, climbFrom, matchRule, matchAll,
      matchFirst, matchBlock, matchNode, matchOperand, matchItems]
    exact .throw _

section succ

variable {options : ParseOptions} {fuel : Nat} (ih : BlindAt options fuel)
include ih

theorem blind_node (tag : String) : Blind (parseNode options (fuel + 1) tag) := by
  intro s t h
  rw [parseNode]
  apply Agree.get_bind
  rw [h.registry]
  cases s.registry.type? tag with
  | none => exact .throw _
  | some nodeType =>
      cases nodeType with
      | declared ruleOf => exact ih.type tag s t h
      | climbing operands climb ruleOf =>
          refine agree_savepoint h fun s₁ t₁ hp₁ => agree_mark hp₁.twin ?_
          refine ((ih.climbing operands climb 0).from hp₁).bind fun r s₂ t₂ hp₂ => ?_
          cases r with
          | none => exact agree_undo h hp₂ _ _
          | some id =>
              apply Agree.get_bind
              rw [hp₂.twin.forest]
              split
              · exact .pure _ hp₂
              · exact agree_undo h hp₂ _ _

theorem blind_any (types : List String) : Blind (parseAny options (fuel + 1) types) := by
  cases types with
  | nil =>
      rw [parseAny]
      exact .pure _
  | cons tag rest =>
      rw [parseAny]
      refine (ih.node tag).bind fun r => ?_
      cases r with
      | some id => exact .pure _
      | none => exact ih.any rest

theorem blind_type (tag : String) : Blind (parseType options (fuel + 1) tag) := by
  rw [parseType]
  refine (blind_schema tag options.dialect).bind fun sch => ?_
  cases sch.root with
  | none => exact .pure _
  | some root =>
      intro s t h
      refine agree_savepoint h fun s₁ t₁ hp₁ => agree_mark hp₁.twin ?_
      refine ((ih.rule tag root []).from hp₁).bind fun r s₂ t₂ hp₂ => ?_
      cases r with
      | none => exact agree_undo h hp₂ _ _
      | some fields =>
          exact ((blind_build tag fields).from hp₂).bind fun _ _ _ hp₃ => .pure _ hp₃

theorem blind_climbing (operands : List String) (climb : Climb) (minimum : Nat) :
    Blind (parseClimbing options (fuel + 1) operands climb minimum) := by
  rw [parseClimbing]
  refine (ih.any operands).bind fun r => ?_
  cases r with
  | none => exact .pure _
  | some left => exact (ih.extending operands climb minimum left).bind fun _ => .pure _

theorem blind_extending (operands : List String) (climb : Climb) (minimum : Nat) (left : NodeId) :
    Blind (climbFrom options (fuel + 1) operands climb minimum left) := by
  rw [climbFrom]
  refine (blind_climbingOperator minimum).bind fun r => ?_
  cases r with
  | none => exact .pure _
  | some operator =>
      intro s t h
      refine agree_savepoint h fun s₁ t₁ hp₁ => agree_mark hp₁.twin ?_
      refine (agree_skipTrivia hp₁).bind fun _ s₂ t₂ poised₂ => ?_
      refine (agree_next poised₂).bind fun _ s₃ t₃ hp₃ => ?_
      refine ((ih.climbing operands climb (nextMinimum operator.2)).from hp₃).bind
        fun r s₄ t₄ hp₄ => ?_
      cases r with
      | none => exact agree_undo h hp₄ _ _
      | some right =>
          exact ((blind_build _ _).from hp₄).bind fun whole s₅ t₅ hp₅ =>
            (ih.extending operands climb minimum whole).from hp₅

theorem blind_operand (info : RuleInfo) (types : List String) (climb : Option Climb) :
    Blind (matchOperand options (fuel + 1) info types climb) := by
  cases climb with
  | some climb => exact ih.climbing _ _ _
  | none => exact ih.any types

theorem blind_all (tag : String) (parts : List Production) (fields : Fields) :
    Blind (matchAll options (fuel + 1) tag parts fields) := by
  cases parts with
  | nil =>
      rw [matchAll]
      exact .pure _
  | cons p rest =>
      rw [matchAll]
      refine (ih.rule tag p fields).bind fun r => ?_
      cases r with
      | none => exact .pure _
      | some fields₁ => exact ih.all tag rest fields₁

theorem blind_first (tag : String) (branches : List Production) (fields : Fields) :
    Blind (matchFirst options (fuel + 1) tag branches fields) := by
  cases branches with
  | nil =>
      rw [matchFirst]
      exact .pure _
  | cons p rest =>
      rw [matchFirst]
      refine (ih.rule tag p fields).bind fun r => ?_
      cases r with
      | some fields₁ => exact .pure _
      | none => exact ih.first tag rest fields

theorem blind_field (info : RuleInfo) (types : List String) (climb : Option Climb)
    (fields : Fields) : Blind (matchNode options (fuel + 1) info types climb fields) := by
  rw [matchNode]
  cases info.attrs.name with
  | none => exact .pure _
  | some name =>
      cases info.attrs.arity with
      | none =>
          refine (ih.operand info types climb).bind fun r => ?_
          cases r with
          | none => exact .pure _
          | some id => exact .pure _
      | some arity =>
          refine (ih.items info types climb arity []).bind fun items => ?_
          split
          · exact .pure _
          · exact .pure _

theorem blind_items (info : RuleInfo) (types : List String) (climb : Option Climb) (arity : Arity)
    (sofar : List NodeId) : Blind (matchItems options (fuel + 1) info types climb arity sofar) := by
  rw [matchItems]
  split
  · exact .pure _
  · intro s t h
    refine agree_savepoint h fun s₁ t₁ hp₁ => agree_mark hp₁.twin ?_
    refine ((blind_separate info.attrs.separator sofar).from hp₁).bind fun b s₂ t₂ hp₂ => ?_
    split
    · exact .pure _ hp₂
    · refine ((ih.operand info types climb).from hp₂).bind fun r s₃ t₃ hp₃ => ?_
      cases r with
      | none => exact agree_undo h hp₃ _ _
      | some id =>
          apply Agree.get_bind
          rw [hp₃.twin.forest]
          split
          · exact agree_undo h hp₃ _ _
          · exact (ih.items info types climb arity (sofar ++ [id])).from hp₃

theorem blind_contents (tag : String) (inner : Production) (fields : Fields) :
    Blind (matchContents options fuel tag inner fields) := by
  intro s t h
  rw [matchContents]
  have hundo {s₁ t₁ : ParseState} (hp : s.Pace t s₁ t₁) : Agree (s.Pace t)
      (do read (Source.restore s.source.stream.position); return (none : Option Fields))
      (do read (Source.restore t.source.stream.position); return none) s₁ t₁ :=
    (agree_restore h hp).bind fun _ _ _ hp₁ => .pure _ hp₁
  refine agree_savepoint h fun s₁ t₁ hp₁ => ?_
  refine ((ih.rule tag inner fields).from hp₁).bind fun r s₂ t₂ hp₂ => ?_
  cases r with
  | none => exact hundo hp₂
  | some fields' =>
      refine (agree_skipTrivia hp₂).bind fun _ s₃ t₃ poised₃ => ?_
      refine (agree_isExhausted poised₃).bind fun b s₄ t₄ poised₄ => ?_
      cases b with
      | true => exact .pure _ poised₄.pace
      | false => exact hundo poised₄.pace

theorem blind_block (tag : String) (bracket : Bracket) (inner : Production) (fields : Fields) :
    Blind (matchBlock options (fuel + 1) tag bracket inner fields) := by
  intro s t h
  rw [matchBlock_succ]
  refine (agree_skipTrivia h.refl).bind fun _ s₁ t₁ poised₁ => ?_
  refine agree_peeked poised₁ fun o s₂ t₂ hp₂ hs ht => ?_
  cases o with
  | none => exact .pure _ hp₂
  | some token =>
      dsimp only
      split
      · exact .pure _ hp₂
      next hkind =>
        have hcontent : token.kind.isTrivia = false := by
          rw [Decidable.not_not.1 hkind]
          cases bracket <;> rfl
        obtain ⟨c, d, source, source', hnext, hnext', pace, alike⟩ :=
          hp₂.twin.source.nextCell hs ht hcontent
        refine .steps (read_eq_ok.2 ⟨source, hnext, rfl⟩) (read_eq_ok.2 ⟨source', hnext', rfl⟩) ?_
        have hp₃ : s.Pace t { s₂ with source } { t₂ with source := source' } :=
          hp₂.trans ⟨⟨pace.twin, hp₂.twin.forest, hp₂.twin.registry⟩, pace.left, pace.right⟩
        cases alike with
        | leaf token token' => exact .pure _ hp₃
        | block hb hb' contents =>
            exact agree_inside (blind_contents ih tag inner fields) hp₃ hb hb' contents

theorem blind_rule (tag : String) (p : Production) (fields : Fields) :
    Blind (matchRule options (fuel + 1) tag p fields) := by
  rw [matchRule_succ]
  split
  · exact .pure _
  · have hbody : Blind (matchBody options fuel tag p fields) := by
      cases p with
      | token info kinds values => exact blind_matchToken kinds values info.attrs.name fields
      | node info types climb => exact ih.field info types climb fields
      | sequence info parts => exact ih.all tag parts fields
      | alternatives info branches =>
          rw [matchBody]
          split
          · exact blind_matchTokens info.attrs.name fields branches
          · exact ih.first tag branches fields
      | block info bracket inner => exact ih.block tag bracket inner fields
    intro s t h
    refine agree_savepoint h fun s₁ t₁ hp₁ => agree_mark hp₁.twin ?_
    refine (hbody.from hp₁).bind fun r s₂ t₂ hp₂ => ?_
    cases r with
    | some fields' => exact .pure _ hp₂
    | none =>
        dsimp only
        split
        · exact (blind_assertionFailure options p tag).from hp₂
        · exact agree_undo h hp₂ _ _

end succ

/-- No function of the parser tells twins apart. -/
theorem blindAt (options : ParseOptions) (fuel : Nat) : BlindAt options fuel := by
  induction fuel with
  | zero => exact blindAt_zero options
  | succ fuel ih =>
      exact {
        node := blind_node ih
        any := blind_any ih
        type := blind_type ih
        climbing := blind_climbing ih
        extending := blind_extending ih
        rule := blind_rule ih
        all := blind_all ih
        first := blind_first ih
        block := blind_block ih
        field := blind_field ih
        operand := blind_operand ih
        items := blind_items ih }

/-! ### Whole parses -/

theorem weight_savepoint {source source' : Source} {start : Nat}
    (h : Source.savepoint source = (.ok start, source')) : source'.weight = source.weight := by
  simp only [Source.savepoint, bind_eq_ok, get_eq_ok, modify_eq_ok, pure_eq_ok] at h
  obtain ⟨⟨⟩, u, hu, ⟨⟩, v, rfl, w, x, ⟨rfl, rfl⟩, -, rfl⟩ := h
  obtain ⟨rfl, -⟩ := Source.checkUnlocked_ok hu
  rfl

/-- Twins of one weight are parsed alike as a whole, into the same forest. -/
theorem agree_parseWhole (options : ParseOptions) (types : List String) (h : s.Twin t)
    (hweight : t.source.weight = s.source.weight) :
    Agree (fun s' t' => t'.forest = s'.forest) (parseWhole options types)
      (parseWhole options types) s t := by
  obtain ⟨source, source', hs, ht, pace⟩ := h.source.savepoint
  have hp₁ : s.Pace t { s with source } { t with source := source' } :=
    ⟨⟨pace.twin, h.forest, h.registry⟩, pace.left, pace.right⟩
  have hbound : bound { t with source := source' } = bound { s with source } := by
    simp only [bound, weight_savepoint hs, weight_savepoint ht, hweight, h.registry]
  have hnoMatch {s₂ t₂ : ParseState} (poised : s.Poised t s₂ t₂) :
      Agree (fun s' t' => t'.forest = s'.forest)
        (do throw (.noMatch (" or ".intercalate types) (whereabouts (← read (Source.peek 0))))
          : Parsing NodeId)
        (do throw (.noMatch (" or ".intercalate types) (whereabouts (← read (Source.peek 0)))))
        s₂ t₂ :=
    (agree_peek poised).bind fun _ _ _ _ => .throw _
  rw [parseWhole]
  refine .steps (read_eq_ok.2 ⟨source, hs, rfl⟩) (read_eq_ok.2 ⟨source', ht, rfl⟩) ?_
  apply Agree.get_bind
  rw [hbound]
  refine (((blindAt options _).any types).from hp₁).bind fun root s₂ t₂ hp₂ => ?_
  refine (agree_skipTrivia hp₂).bind fun _ s₃ t₃ poised₃ => ?_
  cases root with
  | none => exact hnoMatch poised₃
  | some root =>
      refine (agree_isExhausted poised₃).bind fun b s₄ t₄ poised₄ => ?_
      cases b with
      | false => exact hnoMatch poised₄
      | true =>
          refine (agree_read (Source.Twin.commit poised₄.pace.source)).bind ?_
          rintro _ _ _ ⟨u, v, -, rfl, rfl⟩
          exact .pure root poised₄.pace.twin.forest

end Parsing

namespace Tree

open ParseState

/-- Twins of one weight parse to the same tree, or fail with the same error. -/
theorem ofParse_of_twins {s t : Source} (h : s.Twin t) (hweight : t.weight = s.weight)
    (options : ParseOptions) (types : List String) (registry : Registry) (d : Dialect) :
    ofParse (Parsing.parseWhole options types (Parsing.start s registry d)) =
      ofParse (Parsing.parseWhole options types (Parsing.start t registry d)) := by
  have twin : ParseState.Twin (Parsing.start s registry d) (Parsing.start t registry d) :=
    ⟨h, rfl, rfl⟩
  obtain ⟨r, s', t', hs, ht, hforest⟩ := Parsing.agree_parseWhole options types twin hweight
  rw [hs, ht]
  cases r with
  | error e => rfl
  | ok root =>
      simp only [ofParse, Except.map, hforest root rfl]

/-- Whitespace and comments are transparent. The events of a text without them
are the others of its events with them, and the run ends alike. Parsing a text
gives the same nodes and root or the same error with them and without them,
whatever the grammar. -/
theorem trivia_transparent (d : Dialect) (options : LexOptions) (chunks : List String) :
    lexEvents d options.withoutTrivia chunks =
        ((lexEvents d options chunks).1.filter Event.isSignificant,
          (lexEvents d options chunks).2) ∧
      ∀ (registry : Registry) (types : List String) (choices : ParseOptions),
        ofParse (Parsing.parseWhole choices types
            (Parsing.start (.ofChunks d options chunks) registry choices.dialect)) =
          ofParse (Parsing.parseWhole choices types
            (Parsing.start (.ofChunks d options.withoutTrivia chunks) registry choices.dialect)) :=
  ⟨lexEvents_withoutTrivia d options chunks, fun registry types choices =>
    ofParse_of_twins (Source.twin_withoutTrivia d options chunks)
      (Source.weight_withoutTrivia d options chunks) choices types registry choices.dialect⟩

end Tree

end DualSql
