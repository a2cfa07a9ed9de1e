import DualSql.Proofs.Grammar.Planted
import DualSql.Proofs.Stream.Given

/-! # Parsing succeeds where its outline does

On a stream that was given in advance the parser has no reason to fail that its
outline does not have too: savepoints can be returned to, blocks can be
entered, and nodes are made of children that have no parent yet. So whatever
the outline answers, the parser answers.

Main definition: `Succeeds`, what is to be shown of the functions of the parser
at some fuel. Main result: `succeeds`. -/

namespace DualSql

/-- The source of the parse can be read freely. -/
def ParseState.Free (base : Nat) (s : ParseState) : Prop :=
  s.source.Free base

namespace Attempt

variable {α β : Type} {a b : Attempt α}

theorem ne_stuck_of_andThen {f : α → List TokenTree → Attempt β} (h : a.andThen f ≠ .stuck) :
    a ≠ .stuck := by
  rintro rfl
  exact h rfl

theorem ne_stuck_of_map {f : α → β} (h : a.map f ≠ .stuck) : a ≠ .stuck :=
  ne_stuck_of_andThen h

theorem ne_stuck_of_orElse (h : a.orElse b ≠ .stuck) : a ≠ .stuck := by
  rintro rfl
  exact h rfl

end Attempt

namespace Parsing

open Fallible ParseState Attempt

variable {o : Outline} {least base : Nat} {s : ParseState} {parts : Parts}

/-! ### The primitives of the parser -/

theorem runs_read {α : Type} {action : Reading α} (h : Runs (Source.Free base) action s.source) :
    Runs (Free base) (read action) s := by
  obtain ⟨a, t, heq, ht⟩ := h
  exact ⟨a, { s with source := t }, read_eq_ok.2 ⟨t, heq, rfl⟩, ht⟩

theorem runs_mark_bind {α : Type} {k : Nat → Parsing α} (h : Runs (Free base) (k s.forest.size) s) :
    Runs (Free base) (mark >>= k) s := by
  obtain ⟨a, t, heq, ht⟩ := h
  exact ⟨a, t, bind_eq_ok.2 ⟨_, s, mark_eq_ok.2 ⟨rfl, rfl⟩, heq⟩, ht⟩

theorem runs_backtrack (h : s.Free base) (mark : Nat) : Runs (Free base) (backtrack base mark) s := by
  refine (runs_read (Source.runs_restore h)).bind fun _ t _ ht => ?_
  exact ⟨⟨⟩, _, modify_eq_ok.2 rfl, ht⟩

/-- Going back ends an attempt, whatever is answered then. -/
theorem runs_undo {α : Type} (h : s.Free base) (mark : Nat) (a : α) :
    Runs (Free base) (do backtrack base mark; return a) s :=
  (runs_backtrack h mark).bind fun _ _ _ ht => .pure a ht

theorem runs_schema {tag : String} {d : Dialect} {sch : Schema} (hf : s.Free base)
    (h : s.Good o least) (hs : (o.registry.schema tag d).1 = .ok sch) :
    Runs (Free base) (schema tag d) s := by
  refine ⟨sch, { s with registry := (s.registry.schema tag d).2 }, ?_, hf⟩
  rw [← hs, ← h.agrees.schemas]
  rfl

/-- Trees without a parent can become the children of a node. -/
theorem runs_build {tag : String} {fields : Fields} {f : Forest} (hf : s.Free base)
    (hp : f.Plants s.forest fields.children) : Runs (Free base) (build tag fields) s := by
  have horphans : (Fields.children fields).forM s.forest.checkOrphan = .ok () := by
    have hloose := hp.loose
    generalize Fields.children fields = ids at hloose
    induction ids with
    | nil => rfl
    | cons id ids ih =>
        have hfirst : s.forest.checkOrphan id = .ok () := by
          rw [Forest.checkOrphan, hloose id (by simp)]
        rw [List.forM, hfirst]
        exact ih fun id hid => hloose id (by simp [hid])
  have hbuild : s.forest.build tag fields = .ok (s.forest.append tag fields) := by
    rw [Forest.build, horphans]
    rfl
  refine ⟨(s.forest.append tag fields).1, { s with forest := (s.forest.append tag fields).2 }, ?_,
    hf⟩
  simp only [build, hbuild]

/-- What is done inside a block succeeds if it does on the contents. -/
theorem runs_inside {α : Type} {action : Parsing α} {t : Token} {x : Stream} {rest : List Cell}
    (hf : s.Free base) (hb : s.source.stream.behind = .block t x :: rest)
    (h : Runs (Free x.position) action (inBlock s x)) : Runs (Free base) (inside x action) s := by
  obtain ⟨a, u, heq, hu⟩ := h
  have hcontents : { s.source with feed := u.source.feed }.setCurrentContents u.source.stream =
      { stream := { s.source.stream with behind := .block t u.source.stream :: rest },
        feed := u.source.feed } := by
    simp only [Source.setCurrentContents, hb, Cell.mapContents]
  refine ⟨a, { u with source :=
    { s.source with feed := u.source.feed }.setCurrentContents u.source.stream }, ?_, ?_⟩
  · simp only [inside, inBlock] at heq ⊢
    rw [heq]
  · rw [ParseState.Free, hcontents]
    exact Source.Free.leave hf hb hu.given

/-! ### Tokens -/

theorem runs_matchToken (hf : s.Free base) (kinds : List TokenKind) (values : List String)
    (name : Option String) (fields : Fields) :
    Runs (Free base) (matchToken kinds values name fields) s := by
  rw [matchToken]
  refine (runs_read (Source.runs_skipTrivia hf)).bind fun _ s₁ _ hf₁ => ?_
  refine (runs_read (Source.runs_peek hf₁ 0)).bind fun t s₂ _ hf₂ => ?_
  cases t with
  | none => exact .pure _ hf₂
  | some t =>
      dsimp only
      split
      · exact (runs_read (Source.runs_next hf₂)).bind fun _ _ _ hf₃ => .pure _ hf₃
      · exact .pure _ hf₂

theorem runs_matchTokens (hf : s.Free base) (name : Option String) (fields : Fields)
    (branches : List Production) : Runs (Free base) (matchTokens name fields branches) s := by
  induction branches generalizing s with
  | nil => exact .pure _ hf
  | cons p rest ih =>
      rw [matchTokens]
      cases p.token? with
      | none => exact ih hf
      | some kv =>
          refine (runs_matchToken hf kv.1 kv.2 name fields).bind fun r s₁ _ hf₁ => ?_
          cases r with
          | some fields' => exact .pure _ hf₁
          | none => exact ih hf₁

theorem runs_separate (hf : s.Free base) (separator : Option String) (items : List NodeId) :
    Runs (Free base) (separate separator items) s := by
  cases separator with
  | none => exact .pure _ hf
  | some symbol =>
      rw [separate]
      split
      · exact .pure _ hf
      · rw [eatSeparator]
        refine (runs_read (Source.runs_skipTrivia hf)).bind fun _ s₁ _ hf₁ => ?_
        refine (runs_read (Source.runs_peek hf₁ 0)).bind fun t s₂ _ hf₂ => ?_
        split
        · exact (runs_read (Source.runs_next hf₂)).bind fun _ _ _ hf₃ => .pure _ hf₃
        · exact .pure _ hf₂

theorem runs_climbingOperator (hf : s.Free base) (minimum : Nat) :
    Runs (Free base) (climbingOperator minimum) s := by
  rw [climbingOperator]
  refine (runs_read (Source.runs_peekSignificant hf)).bind fun t s₁ _ hf₁ => ?_
  cases t with
  | none => exact .pure _ hf₁
  | some t =>
      cases hinfo : t.operator with
      | none =>
          simp only [hinfo]
          exact .pure _ hf₁
      | some info =>
          simp only [hinfo]
          split
          · exact .pure _ hf₁
          · exact .pure _ hf₁

/-! ### The functions of the parser -/

/-- What is to be shown of the functions of the parser at some fuel. -/
structure Succeeds (o : Outline) (fuel : Nat) : Prop where
  node {least base : Nat} {s : ParseState} {tag : String} :
    s.Good o least → s.Free base → o.node fuel tag s.source.upcoming ≠ .stuck →
    Runs (Free base) (parseNode o.options fuel tag) s
  any {least base : Nat} {s : ParseState} {types : List String} :
    s.Good o least → s.Free base → o.any fuel types s.source.upcoming ≠ .stuck →
    Runs (Free base) (parseAny o.options fuel types) s
  type {least base : Nat} {s : ParseState} {tag : String} :
    s.Good o least → s.Free base → o.type fuel tag s.source.upcoming ≠ .stuck →
    Runs (Free base) (parseType o.options fuel tag) s
  climbing {least base : Nat} {s : ParseState} {operands : List String} {climb : Climb}
      {minimum : Nat} :
    s.Good o least → s.Free base →
    o.climbing fuel operands climb minimum s.source.upcoming ≠ .stuck →
    Runs (Free base) (parseClimbing o.options fuel operands climb minimum) s
  extending {least base : Nat} {f : Forest} {s : ParseState} {operands : List String}
      {climb : Climb} {minimum : Nat} {left : NodeId} :
    s.Good o least → s.Free base → least ≤ left → f.Linked → f.Plants s.forest [left] →
    o.extending fuel operands climb minimum (s.forest.content left) s.source.upcoming ≠ .stuck →
    Runs (Free base) (climbFrom o.options fuel operands climb minimum left) s
  rule {least base : Nat} {s : ParseState} {tag : String} {p : Production} {fields : Fields}
      {parts : Parts} :
    s.Good o least → s.Free base → Named fields parts →
    o.rule fuel p parts s.source.upcoming ≠ .stuck →
    Runs (Free base) (matchRule o.options fuel tag p fields) s
  all {least base : Nat} {s : ParseState} {tag : String} {ps : List Production} {fields : Fields}
      {parts : Parts} :
    s.Good o least → s.Free base → Named fields parts →
    o.all fuel ps parts s.source.upcoming ≠ .stuck →
    Runs (Free base) (matchAll o.options fuel tag ps fields) s
  first {least base : Nat} {s : ParseState} {tag : String} {branches : List Production}
      {fields : Fields} {parts : Parts} :
    s.Good o least → s.Free base → Named fields parts →
    o.first fuel branches parts s.source.upcoming ≠ .stuck →
    Runs (Free base) (matchFirst o.options fuel tag branches fields) s
  block {least base : Nat} {s : ParseState} {tag : String} {bracket : Bracket} {inner : Production}
      {fields : Fields} {parts : Parts} :
    s.Good o least → s.Free base → Named fields parts →
    o.block fuel bracket inner parts s.source.upcoming ≠ .stuck →
    Runs (Free base) (matchBlock o.options fuel tag bracket inner fields) s
  field {least base : Nat} {s : ParseState} {info : RuleInfo} {types : List String}
      {climb : Option Climb} {fields : Fields} {parts : Parts} :
    s.Good o least → s.Free base → o.field fuel info types climb parts s.source.upcoming ≠ .stuck →
    Runs (Free base) (matchNode o.options fuel info types climb fields) s
  operand {least base : Nat} {s : ParseState} {info : RuleInfo} {types : List String}
      {climb : Option Climb} :
    s.Good o least → s.Free base → o.operand fuel info types climb s.source.upcoming ≠ .stuck →
    Runs (Free base) (matchOperand o.options fuel info types climb) s
  items {least base : Nat} {s : ParseState} {info : RuleInfo} {types : List String}
      {climb : Option Climb} {arity : Arity} {sofar : List NodeId} :
    s.Good o least → s.Free base → (∀ id : Nat, id ∈ sofar → least ≤ id ∧ id < s.forest.size) →
    o.items fuel info types climb arity (sofar.map s.forest.content) s.source.upcoming ≠ .stuck →
    Runs (Free base) (matchItems o.options fuel info types climb arity sofar) s

theorem succeeds_zero (o : Outline) : Succeeds o 0 := by
  constructor
  all_goals
    intros
    rename_i h
    refine absurd ?_ h
    simp only [Outline.node, Outline.any, Outline.type, Outline.climbing, Outline.extending,
      Outline.rule, Outline.all, Outline.first, Outline.block, Outline.field, Outline.operand,
      Outline.items]

section succ

variable {fuel : Nat} (ih : Succeeds o fuel)
include ih

theorem runs_node {tag : String} (h : s.Good o least) (hf : s.Free base)
    (hne : o.node (fuel + 1) tag s.source.upcoming ≠ .stuck) :
    Runs (Free base) (parseNode o.options (fuel + 1) tag) s := by
  rw [parseNode]
  apply Runs.get_bind
  rw [Outline.node, ← h.agrees.type? tag] at hne
  cases ht : s.registry.type? tag with
  | none => simp [ht] at hne
  | some nodeType =>
      cases nodeType with
      | declared ruleOf =>
          simp only [ht] at hne
          exact ih.type h hf hne
      | climbing operands climb ruleOf =>
          simp only [ht] at hne
          refine Runs.mono ?_ fun t ht => Source.Free.mono ht hf.base_le
          refine (runs_read (Source.runs_savepoint hf.here)).bind fun start s₁ hsave hf₁ => ?_
          obtain ⟨step₁, restored₁, rfl⟩ := savepoint_step h hsave
          apply runs_mark_bind
          have hclimb : o.climbing fuel operands climb 0 s₁.source.upcoming ≠ .stuck := by
            rw [step₁.upcoming restored₁]
            exact ne_stuck_of_andThen hne
          refine (ih.climbing step₁.good hf₁ hclimb).bind fun r s₃ _ hf₃ => ?_
          cases r with
          | none => exact runs_undo hf₃ _ _
          | some id =>
              apply Runs.get_bind
              split
              · exact .pure _ hf₃
              · exact runs_undo hf₃ _ _

theorem runs_any {types : List String} (h : s.Good o least) (hf : s.Free base)
    (hne : o.any (fuel + 1) types s.source.upcoming ≠ .stuck) :
    Runs (Free base) (parseAny o.options (fuel + 1) types) s := by
  cases types with
  | nil =>
      rw [parseAny]
      exact .pure _ hf
  | cons tag rest =>
      rw [Outline.any] at hne
      rw [parseAny]
      refine (ih.node h hf (ne_stuck_of_orElse hne)).bind fun r s₁ hnode hf₁ => ?_
      obtain ⟨step₁, answer⟩ := (refines o fuel).node h hnode
      cases r with
      | some id => exact .pure _ hf₁
      | none =>
          rw [answer.1] at hne
          refine ih.any step₁.good hf₁ ?_
          rw [step₁.upcoming answer.2]
          exact hne

theorem runs_type {tag : String} (h : s.Good o least) (hf : s.Free base)
    (hne : o.type (fuel + 1) tag s.source.upcoming ≠ .stuck) :
    Runs (Free base) (parseType o.options (fuel + 1) tag) s := by
  rw [Outline.type] at hne
  rw [parseType]
  cases hsch : (o.registry.schema tag o.options.dialect).1 with
  | error e => simp [hsch] at hne
  | ok sch =>
      refine Runs.mono ?_ fun t ht => Source.Free.mono ht hf.base_le
      refine (runs_schema (Source.Free.here hf) h hsch).bind fun sch' s₁ hschema hf₁ => ?_
      obtain ⟨step₁, restored₁, hsch'⟩ := schema_step h hschema
      obtain rfl : sch = sch' := by
        rw [hsch] at hsch'
        exact Except.ok.inj hsch'
      simp only [hsch] at hne
      cases hroot : sch.root with
      | none => exact .pure _ hf₁
      | some root =>
          simp only [hroot] at hne
          refine (runs_read (Source.runs_savepoint hf₁)).bind fun start s₂ hsave hf₂ => ?_
          obtain ⟨step₂, restored₂, rfl⟩ := savepoint_step step₁.good hsave
          apply runs_mark_bind
          have hnamed : Named [] [] := rfl
          have hrule : o.rule fuel root [] s₂.source.upcoming ≠ .stuck := by
            rw [(step₁.trans step₂).upcoming (restored₁.trans restored₂)]
            exact ne_stuck_of_map hne
          refine (ih.rule step₂.good hf₂ hnamed hrule).bind fun r s₃ hmatch hf₃ => ?_
          cases r with
          | none =>
              rw [restored₁.position]
              exact runs_undo hf₃ _ _
          | some fields =>
              obtain ⟨⟨more, rfl, hplants⟩, -⟩ :=
                (plantsTrees o.options fuel).rule step₂.good.linked hmatch
              exact (runs_build hf₃ hplants).bind fun _ _ _ hf₄ => .pure _ hf₄

theorem runs_climbing {operands : List String} {climb : Climb} {minimum : Nat}
    (h : s.Good o least) (hf : s.Free base)
    (hne : o.climbing (fuel + 1) operands climb minimum s.source.upcoming ≠ .stuck) :
    Runs (Free base) (parseClimbing o.options (fuel + 1) operands climb minimum) s := by
  rw [Outline.climbing] at hne
  rw [parseClimbing]
  refine (ih.any h hf (ne_stuck_of_andThen hne)).bind fun r s₁ hany hf₁ => ?_
  obtain ⟨step₁, answer⟩ := (refines o fuel).any h hany
  have hplants := (plantsTrees o.options fuel).any h.linked hany
  cases r with
  | none => exact .pure _ hf₁
  | some left =>
      obtain ⟨hl, -, heq⟩ := answer
      rw [heq] at hne
      exact (ih.extending step₁.good hf₁ hl h.linked hplants hne).bind fun _ _ _ hf₂ => .pure _ hf₂

theorem runs_extending {f : Forest} {operands : List String} {climb : Climb} {minimum : Nat}
    {left : NodeId} (h : s.Good o least) (hf : s.Free base) (hl : least ≤ left) (hlinked : f.Linked)
    (hleft : f.Plants s.forest [left])
    (hne : o.extending (fuel + 1) operands climb minimum (s.forest.content left)
      s.source.upcoming ≠ .stuck) :
    Runs (Free base) (climbFrom o.options (fuel + 1) operands climb minimum left) s := by
  rw [Outline.extending] at hne
  rw [climbFrom]
  refine Runs.mono ?_ fun t ht => Source.Free.mono ht hf.base_le
  refine (runs_climbingOperator (Source.Free.here hf) minimum).bind fun r s₁ hoperator hf₁ => ?_
  obtain ⟨step₁, restored₁, rfl⟩ := climbingOperator_step h hoperator
  cases hop : Outline.operator minimum s.source.upcoming with
  | none => exact .pure _ hf₁
  | some x =>
      obtain ⟨t, info, rest⟩ := x
      simp only [hop] at hne
      refine (runs_read (Source.runs_savepoint hf₁)).bind fun start s₂ hsave hf₂ => ?_
      obtain ⟨step₂, restored₂, rfl⟩ := savepoint_step step₁.good hsave
      apply runs_mark_bind
      refine (runs_read (Source.runs_skipTrivia hf₂)).bind fun _ s₃ hskip hf₃ => ?_
      obtain ⟨step₃, forest₃, hup₃⟩ := skipTrivia_step step₂.good hskip
      refine (runs_read (Source.runs_next hf₃)).bind fun _ s₄ hnext hf₄ => ?_
      obtain ⟨step₄, forest₄, hup₄⟩ := next_step step₃.good hnext
      have step₁₂ := step₁.trans step₂
      have restored₁₂ := restored₁.trans restored₂
      have step₁₄ := (step₁₂.trans step₃).trans step₄
      have hforest : s₄.forest = s.forest := forest₄.trans (forest₃.trans restored₁₂.forest)
      have hrest : s₄.source.upcoming = rest := by
        obtain ⟨tree, hsig, -⟩ := operator_some hop
        rw [hup₄, hup₃, step₁₂.upcoming restored₁₂, hsig, List.tail_cons]
      have hclimb : o.climbing fuel operands climb (nextMinimum info) s₄.source.upcoming ≠
          .stuck := by
        intro hstuck
        rw [hrest] at hstuck
        simp [hstuck] at hne
      refine (ih.climbing step₁₄.good hf₄ hclimb).bind fun r s₅ hright hf₅ => ?_
      obtain ⟨step₅, answer⟩ := (refines o fuel).climbing step₁₄.good hright
      have hplants := (plantsTrees o.options fuel).climbing step₁₄.good.linked hright
      rw [hforest] at hplants
      cases r with
      | none =>
          rw [restored₁.position]
          exact runs_undo hf₅ _ _
      | some right =>
          obtain ⟨hlright, hlt, heq⟩ := answer
          rw [hrest] at heq
          have hchildren : f.Plants s₅.forest (Fields.children [(climb.left, .node left),
            (climb.operator, .terminal (.ofToken t)), (climb.right, .node right)]) :=
            hleft.trans hplants
          refine (runs_build hf₅ hchildren).bind fun whole s₆ hbuild hf₆ => ?_
          have step₁₅ := step₁₄.trans step₅
          have hbound := (hleft.bounds (List.mem_singleton_self left)).2
          have hfresh : s₅.forest.Fresh least [(climb.left, .node left),
              (climb.operator, .terminal (.ofToken t)), (climb.right, .node right)] := by
            intro child hchild
            have hchild : child = left ∨ child = right := by
              simpa [Fields.children, FieldValue.children] using hchild
            rcases hchild with rfl | rfl
            · exact ⟨hl, Nat.lt_of_lt_of_le hbound step₁₅.grows.size⟩
            · exact ⟨hlright, hlt⟩
          obtain ⟨step₆, hsource, hlwhole, -, hcontent⟩ := build_step step₅.good hfresh hbuild
          refine ih.extending step₆.good hf₆ hlwhole hlinked (plants_build hchildren hbuild) ?_
          have hsame := step₁₅.grows.content h.descends hl hbound
          simp only [heq] at hne
          simpa only [hcontent, hsource, Fields.contents, List.map_cons, List.map_nil,
            FieldValue.content, hsame, Outline.joined] using hne

theorem runs_operand {info : RuleInfo} {types : List String} {climb : Option Climb}
    (h : s.Good o least) (hf : s.Free base)
    (hne : o.operand (fuel + 1) info types climb s.source.upcoming ≠ .stuck) :
    Runs (Free base) (matchOperand o.options (fuel + 1) info types climb) s := by
  cases climb with
  | some climb => exact ih.climbing h hf hne
  | none => exact ih.any h hf hne

theorem runs_all {tag : String} {ps : List Production} {fields : Fields} (h : s.Good o least)
    (hf : s.Free base) (hn : Named fields parts)
    (hne : o.all (fuel + 1) ps parts s.source.upcoming ≠ .stuck) :
    Runs (Free base) (matchAll o.options (fuel + 1) tag ps fields) s := by
  cases ps with
  | nil =>
      rw [matchAll]
      exact .pure _ hf
  | cons p rest =>
      rw [Outline.all] at hne
      rw [matchAll]
      refine (ih.rule h hf hn (ne_stuck_of_andThen hne)).bind fun r s₁ hrule hf₁ => ?_
      obtain ⟨step₁, answer, -⟩ := (refines o fuel).rule h hn hrule
      cases r with
      | none => exact .pure _ hf₁
      | some fields₁ =>
          obtain ⟨more, rfl, -, heq⟩ := answer
          rw [heq] at hne
          exact ih.all step₁.good hf₁ (hn.append more s₁.forest.content) hne

theorem runs_first {tag : String} {branches : List Production} {fields : Fields}
    (h : s.Good o least) (hf : s.Free base) (hn : Named fields parts)
    (hne : o.first (fuel + 1) branches parts s.source.upcoming ≠ .stuck) :
    Runs (Free base) (matchFirst o.options (fuel + 1) tag branches fields) s := by
  cases branches with
  | nil =>
      rw [matchFirst]
      exact .pure _ hf
  | cons p rest =>
      rw [Outline.first] at hne
      rw [matchFirst]
      refine (ih.rule h hf hn (ne_stuck_of_orElse hne)).bind fun r s₁ hrule hf₁ => ?_
      obtain ⟨step₁, answer, restored⟩ := (refines o fuel).rule h hn hrule
      cases r with
      | some fields₁ => exact .pure _ hf₁
      | none =>
          rw [show o.rule fuel p parts s.source.upcoming = .mismatch from answer] at hne
          refine ih.first step₁.good hf₁ hn ?_
          rw [step₁.upcoming (restored rfl)]
          exact hne

theorem runs_field {info : RuleInfo} {types : List String} {climb : Option Climb} {fields : Fields}
    (h : s.Good o least) (hf : s.Free base)
    (hne : o.field (fuel + 1) info types climb parts s.source.upcoming ≠ .stuck) :
    Runs (Free base) (matchNode o.options (fuel + 1) info types climb fields) s := by
  rw [Outline.field] at hne
  rw [matchNode]
  cases hname : info.attrs.name with
  | none => exact .pure _ hf
  | some name =>
      cases harity : info.attrs.arity with
      | none =>
          simp only [hname, harity] at hne
          refine (ih.operand h hf (ne_stuck_of_map hne)).bind fun r s₁ _ hf₁ => ?_
          cases r with
          | none => exact .pure _ hf₁
          | some id => exact .pure _ hf₁
      | some arity =>
          simp only [hname, harity] at hne
          refine (ih.items h hf (by simp) (ne_stuck_of_andThen hne)).bind fun items s₁ _ hf₁ => ?_
          split
          · exact .pure _ hf₁
          · exact .pure _ hf₁

theorem runs_items {info : RuleInfo} {types : List String} {climb : Option Climb} {arity : Arity}
    {sofar : List NodeId} (h : s.Good o least) (hf : s.Free base)
    (hsofar : ∀ id : Nat, id ∈ sofar → least ≤ id ∧ id < s.forest.size)
    (hne : o.items (fuel + 1) info types climb arity (sofar.map s.forest.content)
      s.source.upcoming ≠ .stuck) :
    Runs (Free base) (matchItems o.options (fuel + 1) info types climb arity sofar) s := by
  rw [Outline.items, List.length_map] at hne
  rw [matchItems]
  by_cases hmore : arity.admitsMore sofar.length = true
  · simp only [hmore, Bool.not_true, Bool.false_eq_true, if_false] at hne ⊢
    refine Runs.mono ?_ fun t ht => Source.Free.mono ht hf.base_le
    refine (runs_read (Source.runs_savepoint hf.here)).bind fun start s₁ hsave hf₁ => ?_
    obtain ⟨step₁, restored₁, rfl⟩ := savepoint_step h hsave
    apply runs_mark_bind
    refine (runs_separate hf₁ info.attrs.separator sofar).bind fun b s₂ hsep hf₂ => ?_
    obtain ⟨step₂, forest₂, hrest⟩ := separate_step step₁.good hsep
    have hforest : s₂.forest = s.forest := forest₂.trans restored₁.forest
    rw [restored₁.forest, step₁.upcoming restored₁] at hrest
    cases b with
    | false => exact .pure _ hf₂
    | true =>
        simp only [hrest] at hne
        simp only [Bool.not_true, Bool.false_eq_true, if_false]
        have hoperand : o.operand fuel info types climb s₂.source.upcoming ≠ .stuck := by
          intro hstuck
          simp [hstuck] at hne
        refine (ih.operand step₂.good hf₂ hoperand).bind fun r s₃ hitem hf₃ => ?_
        obtain ⟨step₃, answer⟩ := (refines o fuel).operand step₂.good hitem
        have step₁₃ := (step₁.trans step₂).trans step₃
        cases r with
        | none => exact runs_undo hf₃ _ _
        | some id =>
            obtain ⟨hl, hid, heq⟩ := answer
            apply Runs.get_bind
            by_cases hrep : info.attrs.singletons.repeats s₃.forest sofar id = true
            · rw [if_pos hrep]
              exact runs_undo hf₃ _ _
            · rw [if_neg hrep]
              have hsofar₃ : ∀ item : Nat, item ∈ sofar → least ≤ item ∧ item < s₃.forest.size :=
                fun item hitem => ⟨(hsofar item hitem).1,
                  Nat.lt_of_lt_of_le (hsofar item hitem).2 step₁₃.grows.size⟩
              have hcontents : sofar.map s₃.forest.content = sofar.map s.forest.content :=
                List.map_congr_left fun item hitem => step₁₃.grows.content h.descends
                  (hsofar item hitem).1 (hsofar item hitem).2
              have hrepeats := Forest.repeats_eq step₃.good.descends info.attrs.singletons sofar
                hsofar₃ hl
              rw [hcontents] at hrepeats
              simp only [heq, ← hrepeats, hrep, Bool.false_eq_true, if_false] at hne
              refine ih.items step₃.good hf₃ ?_ ?_
              · intro item hitem
                rcases List.mem_append.1 hitem with hitem | hitem
                · exact hsofar₃ item hitem
                · exact List.mem_singleton.1 hitem ▸ ⟨hl, hid⟩
              · rw [List.map_append, hcontents]
                exact hne
  · simp only [hmore, Bool.not_false, if_true]
    exact .pure _ hf

theorem runs_contents {tag : String} {inner : Production} {fields : Fields} (h : s.Good o least)
    (hf : s.Free base) (hn : Named fields parts)
    (hne : o.rule fuel inner parts s.source.upcoming ≠ .stuck) :
    Runs (Free base) (matchContents o.options fuel tag inner fields) s := by
  rw [matchContents]
  refine Runs.mono ?_ fun t ht => Source.Free.mono ht hf.base_le
  refine (runs_read (Source.runs_savepoint hf.here)).bind fun start s₁ hsave hf₁ => ?_
  obtain ⟨step₁, restored₁, rfl⟩ := savepoint_step h hsave
  rw [← step₁.upcoming restored₁] at hne
  have hundo {t : ParseState} (ht : t.Free s.source.stream.position) :
      Runs (Free s.source.stream.position) (do
        read (Source.restore s.source.stream.position)
        return (none : Option Fields)) t :=
    (runs_read (Source.runs_restore ht)).bind fun _ _ _ hu => .pure _ hu
  refine (ih.rule step₁.good hf₁ hn hne).bind fun r s₂ _ hf₂ => ?_
  cases r with
  | none => exact hundo hf₂
  | some fields' =>
      refine (runs_read (Source.runs_skipTrivia hf₂)).bind fun _ s₃ _ hf₃ => ?_
      refine (runs_read (Source.runs_isExhausted hf₃)).bind fun b s₄ _ hf₄ => ?_
      cases b with
      | true => exact .pure _ hf₄
      | false => exact hundo hf₄

theorem runs_block {tag : String} {bracket : Bracket} {inner : Production} {fields : Fields}
    (h : s.Good o least) (hf : s.Free base) (hn : Named fields parts)
    (hne : o.block (fuel + 1) bracket inner parts s.source.upcoming ≠ .stuck) :
    Runs (Free base) (matchBlock o.options (fuel + 1) tag bracket inner fields) s := by
  rw [Outline.block] at hne
  rw [matchBlock_succ]
  refine (runs_read (Source.runs_skipTrivia hf)).bind fun _ s₁ hskip hf₁ => ?_
  obtain ⟨step₁, -, hup₁⟩ := skipTrivia_step h hskip
  refine (runs_read (Source.runs_peek hf₁ 0)).bind fun t s₂ hpeek hf₂ => ?_
  obtain ⟨step₂, restored₂, rfl⟩ := peek_step step₁.good hpeek
  have hup₂ := step₂.upcoming restored₂
  rw [hup₁] at hup₂ ⊢
  cases hsig : TokenTree.significant s.source.upcoming with
  | nil => exact .pure _ hf₂
  | cons tree rest =>
      simp only [List.head?_cons, Option.map_some]
      split
      · exact .pure _ hf₂
      next hkind =>
        refine (runs_read (Source.runs_nextCell hf₂)).bind fun cell s₃ hread hf₃ => ?_
        cases cell with
        | none => exact .pure _ hf₃
        | some cell =>
            obtain ⟨source, hnext, rfl⟩ := read_eq_ok.1 hread
            obtain ⟨keeps, -, hcons, hcurrent, hstart⟩ :=
              Source.nextCell_some step₂.good.ready hnext
            rw [hup₂, hsig, List.cons.injEq] at hcons
            obtain ⟨rfl, -⟩ := hcons
            have step₃ := step_of_keeps step₂.good keeps
            cases cell with
            | leaf t => exact .pure _ hf₃
            | block t contents =>
                obtain ⟨below, hb⟩ := Source.behind_of_current hcurrent
                obtain ⟨hfirst, hunlocked⟩ := hstart contents rfl
                have hview : (inBlock { s₂ with source } contents).source.upcoming =
                    (Stream.line source.feed.last source.feed.queue contents).trees := by
                  simp [inBlock, Source.upcoming, Source.line, hfirst]
                refine runs_inside hf₃ hb (runs_contents ih (good_inBlock step₃.good hb)
                  (Source.Free.contents hf₃ hb hunlocked) hn ?_)
                rw [hview]
                have hkind : t.kind = bracket.tokenKind := Decidable.not_not.1 hkind
                simp only [hsig, Source.treeOf, Cell.tree, hkind, ne_eq, not_true_eq_false,
                  if_false] at hne
                exact ne_stuck_of_andThen hne

theorem runs_body {tag : String} {p : Production} {fields : Fields} (h : s.Good o least)
    (hf : s.Free base) (hn : Named fields parts)
    (hne : o.body fuel p parts s.source.upcoming ≠ .stuck) :
    Runs (Free base) (matchBody o.options fuel tag p fields) s := by
  cases p with
  | token info kinds values => exact runs_matchToken hf kinds values info.attrs.name fields
  | node info types climb => exact ih.field h hf hne
  | sequence info ps => exact ih.all h hf hn hne
  | alternatives info branches =>
      simp only [matchBody, Outline.body] at hne ⊢
      split
      · exact runs_matchTokens hf info.attrs.name fields branches
      next hname =>
        rw [if_neg hname] at hne
        exact ih.first h hf hn hne
  | block info bracket inner => exact ih.block h hf hn hne

theorem runs_rule {tag : String} {p : Production} {fields : Fields} (h : s.Good o least)
    (hf : s.Free base) (hn : Named fields parts)
    (hne : o.rule (fuel + 1) p parts s.source.upcoming ≠ .stuck) :
    Runs (Free base) (matchRule o.options (fuel + 1) tag p fields) s := by
  rw [Outline.rule_succ, applies_eq hn] at hne
  rw [matchRule_succ]
  split
  · exact .pure _ hf
  next happlies =>
    rw [if_neg happlies] at hne
    refine Runs.mono ?_ fun t ht => Source.Free.mono ht hf.base_le
    refine (runs_read (Source.runs_savepoint hf.here)).bind fun start s₁ hsave hf₁ => ?_
    obtain ⟨step₁, restored₁, rfl⟩ := savepoint_step h hsave
    rw [← step₁.upcoming restored₁] at hne
    apply runs_mark_bind
    refine (runs_body ih step₁.good hf₁ hn (ne_stuck_of_orElse hne)).bind
      fun r s₂ hbody hf₂ => ?_
    obtain ⟨-, answer⟩ := body_step (refines o fuel) step₁.good hn hbody
    cases r with
    | some fields' => exact .pure _ hf₂
    | none =>
        rw [show o.body fuel p parts s₁.source.upcoming = .mismatch from answer] at hne
        cases hopt : p.attrs.optional with
        | true => exact runs_undo hf₂ _ _
        | false =>
            have hassert : asserts o.options p = false := by
              simpa [Attempt.orElse, hopt] using hne
            simp only [hassert, Bool.and_false, Bool.false_eq_true, if_false]
            exact runs_undo hf₂ _ _

end succ

/-- Whatever the outline of a parse answers, the parser answers. -/
theorem succeeds (o : Outline) (fuel : Nat) : Succeeds o fuel := by
  induction fuel with
  | zero => exact succeeds_zero o
  | succ fuel ih =>
      exact {
        node := runs_node ih
        any := runs_any ih
        type := runs_type ih
        climbing := runs_climbing ih
        extending := runs_extending ih
        rule := runs_rule ih
        all := runs_all ih
        first := runs_first ih
        block := runs_block ih
        field := runs_field ih
        operand := runs_operand ih
        items := runs_items ih }

end Parsing

end DualSql
