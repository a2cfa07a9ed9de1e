import Mathlib.Data.List.DropRight
import DualSql.Proofs.Grammar.Cache
import DualSql.Proofs.Grammar.Outline

/-! # Parsing follows its outline

Whatever the parser answers is what its outline makes of the upcoming trees,
and the nodes it made stand for the trees of the outline. An attempt that does
not match leaves the position of the stream and the forest as they were.

Main definition: `Refines`, what is to be shown of the functions of the parser
at some fuel. Main result: `refines`. -/

namespace DualSql

namespace ParseState

/-- A state in good order. The nodes from number `least` on are those that the
parser made, and the nodes before it are not to be touched. -/
structure Good (o : Outline) (least : Nat) (s : ParseState) : Prop where
  ready : s.source.Ready
  linked : s.forest.Linked
  descends : s.forest.Descends least
  least_le : least ≤ s.forest.size
  agrees : o.registry.Agrees s.registry

/-- What every step of the parser does: it moves along the line of the stream
and adds nodes. -/
structure Step (o : Outline) (least : Nat) (s s' : ParseState) : Prop where
  good : s'.Good o least
  keeps : s.source.Keeps s'.source
  grows : Forest.Grows least s.forest s'.forest

/-- The position of the stream and the forest are as they were. -/
structure Restored (s s' : ParseState) : Prop where
  position : s'.source.stream.position = s.source.stream.position
  forest : s'.forest = s.forest

variable {o : Outline} {least : Nat} {s s' s'' : ParseState}

theorem Step.refl (h : s.Good o least) : s.Step o least s :=
  ⟨h, .refl h.ready, .refl least _⟩

theorem Step.trans (h : s.Step o least s') (h' : s'.Step o least s'') : s.Step o least s'' :=
  ⟨h'.good, h.keeps.trans h'.keeps, h.grows.trans h'.grows⟩

theorem Step.upcoming (h : s.Step o least s') (hr : s.Restored s') :
    s'.source.upcoming = s.source.upcoming :=
  h.keeps.upcoming hr.position

theorem Restored.trans (h : s.Restored s') (h' : s'.Restored s'') : s.Restored s'' :=
  ⟨h'.position.trans h.position, h'.forest.trans h.forest⟩

/-- The nodes made so far are not to be touched. -/
theorem Good.raise (h : s.Good o least) : s.Good o s.forest.size :=
  ⟨h.ready, h.linked, Forest.descends_size _, Nat.le_refl _, h.agrees⟩

theorem step_of_keeps {source : Source} (h : s.Good o least) (keeps : s.source.Keeps source) :
    s.Step o least { s with source } :=
  ⟨⟨keeps.ready, h.linked, h.descends, h.least_le, h.agrees⟩, keeps, .refl least _⟩

end ParseState

namespace Parsing

open Fallible ParseState

variable {o : Outline} {least : Nat} {s s' : ParseState} {parts : Parts}

/-! ### The primitives of the parser -/

theorem read_eq_ok {α : Type} {action : Reading α} {a : α} :
    read action s = (.ok a, s') ↔
      ∃ source, action s.source = (.ok a, source) ∧ s' = { s with source } := by
  unfold read
  rcases h : action s.source with ⟨_ | b, source⟩
  · constructor
    · intro h
      cases h
    · rintro ⟨_, h, -⟩
      cases h
  · constructor
    · intro h
      cases h
      exact ⟨source, rfl, rfl⟩
    · rintro ⟨_, h, rfl⟩
      cases h
      rfl

theorem mark_eq_ok {m : Nat} : mark s = (.ok m, s') ↔ s.forest.size = m ∧ s = s' := by
  simp only [mark, bind_eq_ok, get_eq_ok, pure_eq_ok]
  constructor
  · rintro ⟨_, _, ⟨rfl, rfl⟩, rfl, rfl⟩
    exact ⟨rfl, rfl⟩
  · rintro ⟨rfl, rfl⟩
    exact ⟨s, s, ⟨rfl, rfl⟩, rfl, rfl⟩

theorem assertionFailure_ne_ok {α : Type} {options : ParseOptions} {p : Production} {tag : String}
    {a : α} : assertionFailure options p tag s ≠ (.ok a, s') := by
  intro h
  simp [assertionFailure, bind_eq_ok, throw_eq_ok] at h

/-- A parse begins in good order, with all of its nodes still to be made. -/
theorem good_start {source : Source} {registry : Registry} (d : Dialect) (ready : source.Ready)
    (agrees : o.registry.Agrees registry) : (start source registry d).Good o 0 :=
  ⟨ready, Forest.linked_empty d, Forest.descends_size _, Nat.le_refl _, agrees⟩

/-- Taking a savepoint moves nothing. -/
theorem savepoint_step {start : Nat} (h : s.Good o least)
    (hs : read Source.savepoint s = (.ok start, s')) :
    s.Step o least s' ∧ s.Restored s' ∧ start = s.source.stream.position := by
  obtain ⟨source, hsave, rfl⟩ := read_eq_ok.1 hs
  obtain ⟨keeps, position, rfl⟩ := Source.savepoint_ok h.ready hsave
  exact ⟨step_of_keeps h keeps, ⟨position, rfl⟩, rfl⟩

/-- Going back to where an attempt began undoes it. -/
theorem backtrack_step {s₁ s₂ : ParseState} (h : s.Step o least s₁) (hr : s.Restored s₁)
    (hstep : s₁.Step o s₁.forest.size s₂)
    (hb : backtrack s.source.stream.position s₁.forest.size s₂ = (.ok (), s')) :
    s.Step o least s' ∧ s.Restored s' := by
  simp only [backtrack, bind_eq_ok, modify_eq_ok, read_eq_ok] at hb
  obtain ⟨⟨⟩, s₃, ⟨source, hrestore, rfl⟩, rfl⟩ := hb
  obtain ⟨keeps, position⟩ := Source.restore_ok hstep.good.ready hrestore
  have hforest : s₂.forest.truncate s₁.forest.size = s.forest := by
    rw [Forest.truncate_of_grows h.good.linked hstep.grows, hr.forest]
  simp only [hforest]
  refine ⟨⟨⟨keeps.ready, ?_, ?_, ?_, hstep.good.agrees⟩,
    (h.keeps.trans hstep.keeps).trans keeps, .refl least _⟩, position, rfl⟩
  · exact hr.forest ▸ h.good.linked
  · exact hr.forest ▸ h.good.descends
  · exact hr.forest ▸ h.good.least_le

theorem build_step {tag : String} {fields : Fields} {id : NodeId} (h : s.Good o least)
    (hf : s.forest.Fresh least fields) (hb : build tag fields s = (.ok id, s')) :
    s.Step o least s' ∧ s'.source = s.source ∧ least ≤ id ∧ id < s'.forest.size ∧
      s'.forest.content id = .node tag (fields.contents s.forest.content) := by
  unfold build at hb
  cases hbuild : s.forest.build tag fields with
  | error e =>
      rw [hbuild] at hb
      cases hb
  | ok p =>
      obtain ⟨id', forest⟩ := p
      rw [hbuild] at hb
      cases hb
      obtain ⟨rfl, rfl⟩ := Forest.build_ok hbuild
      have hsize : (s.forest.append tag fields).2.size = s.forest.size + 1 := Forest.size_append
      refine ⟨⟨⟨h.ready, h.linked.append, h.descends.append hf, ?_, h.agrees⟩,
        .refl h.ready, Forest.grows_append h.least_le hf⟩, rfl, h.least_le, ?_,
        Forest.content_append h.descends h.least_le
          hf⟩
      · have := h.least_le
        simp only [hsize]
        omega
      · rw [hsize]
        exact Nat.lt_succ_self _

theorem schema_step {tag : String} {d : Dialect} {sch : Schema} (h : s.Good o least)
    (hs : schema tag d s = (.ok sch, s')) :
    s.Step o least s' ∧ s.Restored s' ∧ (o.registry.schema tag d).1 = .ok sch := by
  have hfst : (s.registry.schema tag d).1 = .ok sch := congrArg Prod.fst hs
  have hsnd : { s with registry := (s.registry.schema tag d).2 } = s' := congrArg Prod.snd hs
  subst hsnd
  refine ⟨⟨⟨h.ready, h.linked, h.descends, h.least_le,
    h.agrees.trans (Registry.agrees_schema _ tag d)⟩, .refl h.ready, .refl least _⟩, ⟨rfl, rfl⟩, ?_⟩
  rw [← h.agrees.schemas, hfst]

/-- The state inside a block with some contents. -/
def inBlock (s : ParseState) (contents : Stream) : ParseState :=
  { s with source := { s.source with stream := contents } }

theorem good_inBlock {t : Token} {x : Stream} {rest : List Cell} (h : s.Good o least)
    (hb : s.source.stream.behind = .block t x :: rest) : (inBlock s x).Good o least :=
  ⟨Source.ready_contents h.ready hb, h.linked, h.descends, h.least_le, h.agrees⟩

/-- What is done inside a block is a step of the state around it, which does
not move. -/
theorem inside_step {α : Type} {action : Parsing α} {a : α} {t : Token} {x : Stream}
    {rest : List Cell} (h : s.Good o least) (hb : s.source.stream.behind = .block t x :: rest)
    (hi : inside x action s = (.ok a, s')) :
    ∃ u, action (inBlock s x) = (.ok a, u) ∧
      ((inBlock s x).Step o least u →
        s.Step o least s' ∧ s'.source.stream.position = s.source.stream.position ∧
          s'.forest = u.forest) := by
  rcases hu : action (inBlock s x) with ⟨result, u⟩
  have hinside : inside x action s =
      (result, { u with source :=
        { s.source with feed := u.source.feed }.setCurrentContents u.source.stream }) := by
    unfold inside
    simp only [inBlock] at hu
    rw [hu]
  rw [hinside] at hi
  cases hi
  refine ⟨u, rfl, fun step => ?_⟩
  have hcontents : { s.source with feed := u.source.feed }.setCurrentContents u.source.stream =
      { stream := { s.source.stream with behind := .block t u.source.stream :: rest },
        feed := u.source.feed } := by
    simp only [Source.setCurrentContents, hb, Cell.mapContents]
  rw [hcontents]
  have keeps := Source.keeps_inside h.ready hb step.keeps
  refine ⟨⟨⟨keeps.ready, step.good.linked, step.good.descends, step.good.least_le,
    step.good.agrees⟩, keeps, step.grows⟩, ?_, rfl⟩
  simp [Cursor.position, hb]

/-! ### Tokens -/

theorem significant_significant (trees : List TokenTree) :
    TokenTree.significant (TokenTree.significant trees) = TokenTree.significant trees :=
  List.dropWhile_idempotent ..

/-- The fields have the names of the parts, in the same order. -/
def Named (fields : Fields) (parts : Parts) : Prop :=
  fields.map Prod.fst = parts.map Prod.fst

theorem named_contents (fields : Fields) (g : NodeId → Content) :
    Named fields (fields.contents g) := by
  simp [Named, Fields.contents, Function.comp_def]

theorem Named.append {fields : Fields} (h : Named fields parts) (more : Fields)
    (g : NodeId → Content) : Named (fields ++ more) (parts ++ more.contents g) := by
  simp [Named, Fields.contents, h.symm, Function.comp_def]

theorem Named.isSome_lookup {fields : Fields} (h : Named fields parts) (name : String) :
    (parts.lookup name).isSome = (fields.lookup name).isSome := by
  induction fields generalizing parts with
  | nil =>
      obtain rfl : parts = [] := by simpa [Named] using h
      rfl
  | cons field rest ih =>
      cases parts with
      | nil => simp [Named] at h
      | cons part parts =>
          simp only [Named, List.map_cons, List.cons.injEq] at h
          obtain ⟨n, value⟩ := field
          obtain ⟨m, part⟩ := part
          obtain ⟨rfl, h⟩ := h
          simp only [List.lookup_cons]
          split
          · rfl
          · exact ih h

/-- What matching comes to, beside the outline of it, if it leaves some trees. -/
def FieldsLeaving (least : Nat) (rest : List TokenTree) (f : Forest) (fields : Fields)
    (parts : Parts) (r : Option Fields) (a : Attempt Parts) : Prop :=
  match r with
  | none => a = .mismatch
  | some fields' => ∃ more, fields' = fields ++ more ∧ f.Fresh least more ∧
      a = .found (parts ++ more.contents f.content) rest

/-- What matching a rule comes to, beside the outline of it. -/
abbrev FieldsAnswer (least : Nat) (s' : ParseState) (fields : Fields) (parts : Parts)
    (r : Option Fields) (a : Attempt Parts) : Prop :=
  FieldsLeaving least s'.source.upcoming s'.forest fields parts r a

theorem fieldsLeaving_same (least : Nat) (rest : List TokenTree) (f : Forest) (fields : Fields)
    (parts : Parts) : FieldsLeaving least rest f fields parts (some fields) (.found parts rest) :=
  ⟨[], by simp, nofun, by simp [Fields.contents]⟩

/-- What parsing a node comes to, beside the outline of it. -/
def NodeAnswer (least : Nat) (s s' : ParseState) (r : Option NodeId) (a : Attempt Content) : Prop :=
  match r with
  | none => a = .mismatch ∧ s.Restored s'
  | some id => least ≤ id ∧ id < s'.forest.size ∧
      a = .found (s'.forest.content id) s'.source.upcoming

theorem skipTrivia_step (h : s.Good o least) (hs : read Source.skipTrivia s = (.ok (), s')) :
    s.Step o least s' ∧ s'.forest = s.forest ∧
      s'.source.upcoming = TokenTree.significant s.source.upcoming := by
  obtain ⟨source, hskip, rfl⟩ := read_eq_ok.1 hs
  obtain ⟨keeps, -, hup⟩ := Source.skipTrivia_ok h.ready hskip
  exact ⟨step_of_keeps h keeps, rfl, hup⟩

theorem peek_step {t : Option Token} (h : s.Good o least)
    (hp : read (Source.peek 0) s = (.ok t, s')) :
    s.Step o least s' ∧ s.Restored s' ∧ t = s.source.upcoming.head?.map TokenTree.token := by
  obtain ⟨source, hpeek, rfl⟩ := read_eq_ok.1 hp
  obtain ⟨keeps, position, rfl⟩ := Source.peek_ok h.ready hpeek
  exact ⟨step_of_keeps h keeps, ⟨position, rfl⟩, by rw [List.head?_eq_getElem?]⟩

theorem next_step {t : Option Token} (h : s.Good o least)
    (hn : read Source.next s = (.ok t, s')) :
    s.Step o least s' ∧ s'.forest = s.forest ∧ s'.source.upcoming = s.source.upcoming.tail := by
  obtain ⟨source, hnext, rfl⟩ := read_eq_ok.1 hn
  obtain ⟨keeps, -, -, htail⟩ := Source.next_ok h.ready hnext
  exact ⟨step_of_keeps h keeps, rfl, htail⟩

theorem isExhausted_step {b : Bool} (h : s.Good o least)
    (he : read Source.isExhausted s = (.ok b, s')) :
    s.Step o least s' ∧ s.Restored s' ∧ b = s.source.upcoming.isEmpty := by
  obtain ⟨source, hex, rfl⟩ := read_eq_ok.1 he
  obtain ⟨keeps, position, rfl⟩ := Source.isExhausted_ok h.ready hex
  exact ⟨step_of_keeps h keeps, ⟨position, rfl⟩, rfl⟩

theorem restore_step {start : Nat} (h : s.Good o least)
    (hr : read (Source.restore start) s = (.ok (), s')) :
    s.Step o least s' ∧ s'.forest = s.forest := by
  obtain ⟨source, hrestore, rfl⟩ := read_eq_ok.1 hr
  exact ⟨step_of_keeps h (Source.restore_ok h.ready hrestore).1, rfl⟩

theorem fresh_terminal (f : Forest) (least : Nat) (name : Option String) (t : Token) :
    f.Fresh least (name.map fun n => (n, FieldValue.terminal (.ofToken t))).toList := by
  intro child hchild
  cases name <;> simp [Fields.children, FieldValue.children] at hchild

/-- Matching a token does what its outline says. A token that does not match
is not consumed, though whitespace before it is. -/
theorem matchToken_step {kinds : List TokenKind} {values : List String} {name : Option String}
    {fields : Fields} {r : Option Fields} (parts : Parts) (h : s.Good o least)
    (hm : matchToken kinds values name fields s = (.ok r, s')) :
    s.Step o least s' ∧ s'.forest = s.forest ∧
      FieldsAnswer least s' fields parts r
        (Outline.token kinds values name parts s.source.upcoming) ∧
      (r = none → s'.source.upcoming = TokenTree.significant s.source.upcoming) := by
  simp only [matchToken, bind_eq_ok] at hm
  obtain ⟨⟨⟩, s₁, hskip, t, s₂, hpeek, hm⟩ := hm
  obtain ⟨step₁, forest₁, hup₁⟩ := skipTrivia_step h hskip
  obtain ⟨step₂, restored₂, rfl⟩ := peek_step step₁.good hpeek
  have hup₂ := step₂.upcoming restored₂
  have hforest : s₂.forest = s.forest := restored₂.forest.trans forest₁
  cases hsig : TokenTree.significant s.source.upcoming with
  | nil =>
      simp only [hup₁, hsig, List.head?_nil, Option.map_none, pure_eq_ok] at hm
      obtain ⟨rfl, rfl⟩ := hm
      refine ⟨step₁.trans step₂, hforest, ?_, fun _ => by rw [hup₂, hup₁, hsig]⟩
      simp [FieldsLeaving, Outline.token, hsig]
  | cons tree rest =>
      simp only [hup₁, hsig, List.head?_cons, Option.map_some] at hm
      by_cases hfits : fits kinds values tree.token = true
      · simp only [hfits, if_true, bind_eq_ok, pure_eq_ok] at hm
        obtain ⟨_, s₃, hnext, rfl, rfl⟩ := hm
        obtain ⟨step₃, forest₃, htail⟩ := next_step step₂.good hnext
        refine ⟨(step₁.trans step₂).trans step₃, forest₃.trans hforest, ?_, by simp⟩
        refine ⟨_, rfl, fresh_terminal _ _ _ _, ?_⟩
        rw [htail, hup₂, hup₁]
        simp only [Outline.token, hsig, hfits, if_true, List.tail_cons]
        cases name <;> rfl
      · simp only [hfits, Bool.false_eq_true, if_false, pure_eq_ok] at hm
        obtain ⟨rfl, rfl⟩ := hm
        refine ⟨step₁.trans step₂, hforest, ?_, fun _ => by rw [hup₂, hup₁, hsig]⟩
        simp [FieldsLeaving, Outline.token, hsig, hfits]

theorem token_significant (kinds : List TokenKind) (values : List String) (name : Option String)
    (fields : Parts) (trees : List TokenTree) :
    Outline.token kinds values name fields (TokenTree.significant trees) =
      Outline.token kinds values name fields trees := by
  simp [Outline.token, significant_significant]

theorem tokens_significant (name : Option String) (fields : Parts) (trees : List TokenTree)
    (branches : List Production) :
    Outline.tokens name fields (TokenTree.significant trees) branches =
      Outline.tokens name fields trees branches := by
  induction branches with
  | nil => rfl
  | cons p rest ih => simp [Outline.tokens, token_significant, ih]

theorem matchTokens_step {name : Option String} {fields : Fields} {branches : List Production}
    {r : Option Fields} (parts : Parts) (h : s.Good o least)
    (hm : matchTokens name fields branches s = (.ok r, s')) :
    s.Step o least s' ∧ s'.forest = s.forest ∧
      FieldsAnswer least s' fields parts r
        (Outline.tokens name parts s.source.upcoming branches) := by
  induction branches generalizing s with
  | nil =>
      simp only [matchTokens, pure_eq_ok] at hm
      obtain ⟨rfl, rfl⟩ := hm
      exact ⟨.refl h, rfl, rfl⟩
  | cons p rest ih =>
      rw [matchTokens] at hm
      cases hp : p.token? with
      | none =>
          simp only [hp] at hm
          rw [Outline.tokens, hp]
          exact ih h hm
      | some kv =>
          obtain ⟨kinds, values⟩ := kv
          simp only [hp, bind_eq_ok] at hm
          obtain ⟨r₁, s₁, hfirst, hm⟩ := hm
          obtain ⟨step₁, forest₁, answer, hskip⟩ := matchToken_step parts h hfirst
          rw [Outline.tokens, hp]
          cases r₁ with
          | some fields' =>
              simp only [pure_eq_ok] at hm
              obtain ⟨rfl, rfl⟩ := hm
              refine ⟨step₁, forest₁, ?_⟩
              obtain ⟨more, hmore, hfresh, heq⟩ := answer
              exact ⟨more, hmore, hfresh, by simp only [heq, Attempt.orElse]⟩
          | none =>
              simp only at hm
              obtain ⟨step₂, forest₂, answer₂⟩ := ih step₁.good hm
              refine ⟨step₁.trans step₂, forest₂.trans forest₁, ?_⟩
              have hmis : Outline.token kinds values name parts
                  s.source.upcoming = .mismatch := answer
              rw [hskip rfl, tokens_significant] at answer₂
              simpa only [hmis, Attempt.orElse] using answer₂

/-- The separator before an item. -/
theorem separate_step {separator : Option String} {items : List NodeId} {b : Bool}
    (h : s.Good o least) (hs : separate separator items s = (.ok b, s')) :
    s.Step o least s' ∧ s'.forest = s.forest ∧
      Outline.separate separator (items.map s.forest.content) s.source.upcoming =
        (b, s'.source.upcoming) := by
  cases separator with
  | none =>
      obtain ⟨rfl, rfl⟩ := pure_eq_ok.1 hs
      exact ⟨.refl h, rfl, rfl⟩
  | some symbol =>
      rw [separate] at hs
      cases items with
      | nil =>
          obtain ⟨rfl, rfl⟩ := pure_eq_ok.1 hs
          exact ⟨.refl h, rfl, rfl⟩
      | cons item items =>
          simp only [List.isEmpty_cons, Bool.false_eq_true, if_false, eatSeparator,
            bind_eq_ok] at hs
          obtain ⟨⟨⟩, s₁, hskip, t, s₂, hpeek, hs⟩ := hs
          obtain ⟨step₁, forest₁, hup₁⟩ := skipTrivia_step h hskip
          obtain ⟨step₂, restored₂, rfl⟩ := peek_step step₁.good hpeek
          have hup₂ := step₂.upcoming restored₂
          have hforest : s₂.forest = s.forest := restored₂.forest.trans forest₁
          simp only [Outline.separate, List.map_cons, List.isEmpty_cons, Bool.false_eq_true, if_false]
          cases hsig : TokenTree.significant s.source.upcoming with
          | nil =>
              simp only [hup₁, hsig, List.head?_nil, Option.map_none, Option.any_none,
                Bool.false_eq_true, if_false, pure_eq_ok] at hs
              obtain ⟨rfl, rfl⟩ := hs
              exact ⟨step₁.trans step₂, hforest, by rw [hup₂, hup₁, hsig]⟩
          | cons tree rest =>
              simp only [hup₁, hsig, List.head?_cons, Option.map_some, Option.any_some] at hs
              by_cases hsep : isSeparator symbol tree.token = true
              · simp only [hsep, if_true, bind_eq_ok, pure_eq_ok] at hs
                obtain ⟨_, s₃, hnext, rfl, rfl⟩ := hs
                obtain ⟨step₃, forest₃, htail⟩ := next_step step₂.good hnext
                refine ⟨(step₁.trans step₂).trans step₃, forest₃.trans hforest, ?_⟩
                simp only [hsep, if_true]
                rw [htail, hup₂, hup₁, hsig, List.tail_cons]
              · simp only [hsep, Bool.false_eq_true, if_false, pure_eq_ok] at hs
                obtain ⟨rfl, rfl⟩ := hs
                refine ⟨step₁.trans step₂, hforest, ?_⟩
                simp only [hsep, Bool.false_eq_true, if_false]
                rw [hup₂, hup₁, hsig]

/-- The operator that climbing takes is the first significant token. -/
theorem operator_some {minimum : Nat} {trees rest : List TokenTree} {t : Token}
    {info : OperatorInfo} (h : Outline.operator minimum trees = some (t, info, rest)) :
    ∃ tree, TokenTree.significant trees = tree :: rest ∧ tree.token = t ∧
      t.operator = some info ∧ info.binary = true ∧ minimum ≤ info.precedence := by
  unfold Outline.operator at h
  split at h
  next => cases h
  next tree rest' hsig =>
    split at h
    next info' hop =>
      split at h
      next hmin =>
        simp only [Option.some.injEq, Prod.mk.injEq] at h
        obtain ⟨rfl, rfl, rfl⟩ := h
        simp only [Bool.and_eq_true, decide_eq_true_eq] at hmin
        exact ⟨tree, hsig, rfl, hop, hmin.1, hmin.2⟩
      next => cases h
    next => cases h

/-- The operator that climbing takes next is looked at and not consumed. -/
theorem climbingOperator_step {minimum : Nat} {r : Option (Token × OperatorInfo)}
    (h : s.Good o least) (hc : climbingOperator minimum s = (.ok r, s')) :
    s.Step o least s' ∧ s.Restored s' ∧
      r = (Outline.operator minimum s.source.upcoming).map fun x => (x.1, x.2.1) := by
  simp only [climbingOperator, bind_eq_ok, read_eq_ok] at hc
  obtain ⟨t, s₁, ⟨source, hpeek, rfl⟩, hc⟩ := hc
  obtain ⟨keeps, position, rfl⟩ := Source.peekSignificant_ok h.ready hpeek
  have hstep := step_of_keeps h keeps
  unfold Outline.operator
  cases hsig : TokenTree.significant s.source.upcoming with
  | nil =>
      simp only [hsig, List.head?_nil, Option.map_none, pure_eq_ok] at hc
      obtain ⟨rfl, rfl⟩ := hc
      exact ⟨hstep, ⟨position, rfl⟩, rfl⟩
  | cons tree rest =>
      simp only [hsig, List.head?_cons, Option.map_some] at hc ⊢
      cases hop : tree.token.operator with
      | none =>
          simp only [hop, pure_eq_ok] at hc
          obtain ⟨rfl, rfl⟩ := hc
          exact ⟨hstep, ⟨position, rfl⟩, rfl⟩
      | some info =>
          simp only [hop] at hc ⊢
          by_cases hmin : (info.binary && decide (minimum ≤ info.precedence)) = true
          · simp only [hmin, if_true, pure_eq_ok] at hc ⊢
            obtain ⟨rfl, rfl⟩ := hc
            exact ⟨hstep, ⟨position, rfl⟩, rfl⟩
          · simp only [hmin, Bool.false_eq_true, if_false, pure_eq_ok] at hc ⊢
            obtain ⟨rfl, rfl⟩ := hc
            exact ⟨hstep, ⟨position, rfl⟩, rfl⟩

/-! ### The functions of the parser -/

/-- Matches a production, whatever its condition and whether or not it has to
match. -/
def matchBody (options : ParseOptions) (fuel : Nat) (tag : String) (p : Production)
    (fields : Fields) : Parsing (Option Fields) :=
  match p with
  | .token info kinds values => matchToken kinds values info.attrs.name fields
  | .node info types climb => matchNode options fuel info types climb fields
  | .sequence _ parts => matchAll options fuel tag parts fields
  | .alternatives info branches =>
    if info.attrs.name.isSome then matchTokens info.attrs.name fields branches
    else matchFirst options fuel tag branches fields
  | .block _ bracket inner => matchBlock options fuel tag bracket inner fields

theorem matchRule_succ (options : ParseOptions) (fuel : Nat) (tag : String) (p : Production)
    (fields : Fields) :
    matchRule options (fuel + 1) tag p fields =
      if !p.attrs.condition.all (·.holds fun name => (fields.lookup name).isSome) then
        pure (some fields)
      else do
        let start ← read Source.savepoint
        let mark ← mark
        match ← matchBody options fuel tag p fields with
        | some fields => return some fields
        | none =>
          if !p.attrs.optional && asserts options p then assertionFailure options p tag
          else
            backtrack start mark
            return if p.attrs.optional then some fields else none := by
  rw [matchRule]
  cases p with
  | alternatives info branches =>
      dsimp only [matchBody]
      cases info.attrs.name.isSome <;> rfl
  | _ => rfl

/-- Matches the contents of a block, all of them. -/
def matchContents (options : ParseOptions) (fuel : Nat) (tag : String) (inner : Production)
    (fields : Fields) : Parsing (Option Fields) := do
  let start ← read Source.savepoint
  match ← matchRule options fuel tag inner fields with
  | some fields =>
    read Source.skipTrivia
    if ← read Source.isExhausted then return some fields
    else
      read (Source.restore start)
      return none
  | none =>
    read (Source.restore start)
    return none

theorem matchBlock_succ (options : ParseOptions) (fuel : Nat) (tag : String) (bracket : Bracket)
    (inner : Production) (fields : Fields) :
    matchBlock options (fuel + 1) tag bracket inner fields = (do
      read Source.skipTrivia
      match ← read (Source.peek 0) with
      | none => return none
      | some t =>
        if t.kind ≠ bracket.tokenKind then return none
        else
          match (← read Source.nextCell).bind Cell.contents? with
          | none => return none
          | some contents => inside contents (matchContents options fuel tag inner fields)) := by
  rw [matchBlock]
  rfl

/-- What is to be shown of the functions of the parser at some fuel. -/
structure Refines (o : Outline) (fuel : Nat) : Prop where
  node {least : Nat} {s s' : ParseState} {tag : String} {r : Option NodeId} :
    s.Good o least → parseNode o.options fuel tag s = (.ok r, s') →
    s.Step o least s' ∧ NodeAnswer least s s' r (o.node fuel tag s.source.upcoming)
  any {least : Nat} {s s' : ParseState} {types : List String} {r : Option NodeId} :
    s.Good o least → parseAny o.options fuel types s = (.ok r, s') →
    s.Step o least s' ∧ NodeAnswer least s s' r (o.any fuel types s.source.upcoming)
  type {least : Nat} {s s' : ParseState} {tag : String} {r : Option NodeId} :
    s.Good o least → parseType o.options fuel tag s = (.ok r, s') →
    s.Step o least s' ∧ NodeAnswer least s s' r (o.type fuel tag s.source.upcoming)
  climbing {least : Nat} {s s' : ParseState} {operands : List String} {climb : Climb}
      {minimum : Nat} {r : Option NodeId} :
    s.Good o least → parseClimbing o.options fuel operands climb minimum s = (.ok r, s') →
    s.Step o least s' ∧
      NodeAnswer least s s' r (o.climbing fuel operands climb minimum s.source.upcoming)
  extending {least : Nat} {s s' : ParseState} {operands : List String} {climb : Climb}
      {minimum : Nat} {left id : NodeId} :
    s.Good o least → least ≤ left → left < s.forest.size →
    climbFrom o.options fuel operands climb minimum left s = (.ok id, s') →
    s.Step o least s' ∧ least ≤ id ∧ id < s'.forest.size ∧
      o.extending fuel operands climb minimum (s.forest.content left) s.source.upcoming =
        .found (s'.forest.content id) s'.source.upcoming
  rule {least : Nat} {s s' : ParseState} {tag : String} {p : Production} {fields : Fields} {parts : Parts}
      {r : Option Fields} :
    s.Good o least → Named fields parts →
    matchRule o.options fuel tag p fields s = (.ok r, s') →
    s.Step o least s' ∧
      FieldsAnswer least s' fields parts r
        (o.rule fuel p parts s.source.upcoming) ∧
      (r = none → s.Restored s')
  all {least : Nat} {s s' : ParseState} {tag : String} {ps : List Production} {fields : Fields} {parts : Parts}
      {r : Option Fields} :
    s.Good o least → Named fields parts →
    matchAll o.options fuel tag ps fields s = (.ok r, s') →
    s.Step o least s' ∧ FieldsAnswer least s' fields parts r
      (o.all fuel ps parts s.source.upcoming)
  first {least : Nat} {s s' : ParseState} {tag : String} {branches : List Production}
      {fields : Fields} {parts : Parts} {r : Option Fields} :
    s.Good o least → Named fields parts →
    matchFirst o.options fuel tag branches fields s = (.ok r, s') →
    s.Step o least s' ∧ FieldsAnswer least s' fields parts r
      (o.first fuel branches parts s.source.upcoming)
  block {least : Nat} {s s' : ParseState} {tag : String} {bracket : Bracket} {inner : Production}
      {fields : Fields} {parts : Parts} {r : Option Fields} :
    s.Good o least → Named fields parts →
    matchBlock o.options fuel tag bracket inner fields s = (.ok r, s') →
    s.Step o least s' ∧ FieldsAnswer least s' fields parts r
      (o.block fuel bracket inner parts s.source.upcoming)
  field {least : Nat} {s s' : ParseState} {info : RuleInfo} {types : List String}
      {climb : Option Climb} {fields : Fields} {parts : Parts} {r : Option Fields} :
    s.Good o least → matchNode o.options fuel info types climb fields s = (.ok r, s') →
    s.Step o least s' ∧ FieldsAnswer least s' fields parts r
      (o.field fuel info types climb parts s.source.upcoming)
  operand {least : Nat} {s s' : ParseState} {info : RuleInfo} {types : List String}
      {climb : Option Climb} {r : Option NodeId} :
    s.Good o least → matchOperand o.options fuel info types climb s = (.ok r, s') →
    s.Step o least s' ∧ NodeAnswer least s s' r (o.operand fuel info types climb s.source.upcoming)
  items {least : Nat} {s s' : ParseState} {info : RuleInfo} {types : List String}
      {climb : Option Climb} {arity : Arity} {sofar ids : List NodeId} :
    s.Good o least → (∀ id : Nat, id ∈ sofar → least ≤ id ∧ id < s.forest.size) →
    matchItems o.options fuel info types climb arity sofar s = (.ok ids, s') →
    s.Step o least s' ∧ (∀ id : Nat, id ∈ ids → least ≤ id ∧ id < s'.forest.size) ∧
      o.items fuel info types climb arity (sofar.map s.forest.content) s.source.upcoming =
        .found (ids.map s'.forest.content) s'.source.upcoming

/-- Without fuel nothing is answered. -/
theorem refines_zero (o : Outline) : Refines o 0 := by
  constructor
  all_goals
    intros
    rename_i h
    simp [parseNode, parseAny, parseType, parseClimbing, climbFrom, matchRule, matchAll, matchFirst,
      matchBlock, matchNode, matchOperand, matchItems, throw_eq_ok] at h

theorem applies_eq {fields : Fields} (h : Named fields parts) (p : Production) :
    Outline.applies p parts =
      p.attrs.condition.all (·.holds fun name => (fields.lookup name).isSome) := by
  simp [Outline.applies, h.isSome_lookup]

/-- Every way in which matching a rule can succeed as a computation. -/
theorem matchRule_ok {tag : String} {p : Production} {fields : Fields} {r : Option Fields}
    (h : s.Good o least) (hn : Named fields parts)
    (hp : matchRule o.options (fuel + 1) tag p fields s = (.ok r, s')) :
    (Outline.applies p parts = false ∧ r = some fields ∧ s' = s) ∨
      (Outline.applies p parts = true ∧
        ∃ s₁ s₂ matched, (read Source.savepoint s).2 = s₁ ∧ s.Step o least s₁ ∧ s.Restored s₁ ∧
          matchBody o.options fuel tag p fields s₁ = (.ok matched, s₂) ∧
          ((∃ fields', matched = some fields' ∧ r = some fields' ∧ s' = s₂) ∨
            (matched = none ∧ (p.attrs.optional || !asserts o.options p) = true ∧
              r = (if p.attrs.optional then some fields else none) ∧
              backtrack s.source.stream.position s₁.forest.size s₂ = (.ok (), s')))) := by
  rw [matchRule_succ] at hp
  rw [applies_eq hn]
  cases hc : p.attrs.condition.all (·.holds fun name => (fields.lookup name).isSome) with
  | false =>
      simp only [hc, Bool.not_false, if_true, pure_eq_ok] at hp
      exact .inl ⟨rfl, hp.1.symm, hp.2.symm⟩
  | true =>
      simp only [hc, Bool.not_true, Bool.false_eq_true, if_false, bind_eq_ok, mark_eq_ok] at hp
      obtain ⟨start, s₁, hsave, mark, s₂, ⟨rfl, rfl⟩, matched, s₃, hbody, hp⟩ := hp
      obtain ⟨step₁, restored₁, rfl⟩ := savepoint_step h hsave
      refine .inr ⟨rfl, s₁, s₃, matched, by rw [hsave], step₁, restored₁, hbody, ?_⟩
      cases matched with
      | some fields' =>
          simp only [pure_eq_ok] at hp
          exact .inl ⟨fields', rfl, hp.1.symm, hp.2.symm⟩
      | none =>
          refine .inr ⟨rfl, ?_⟩
          by_cases hassert : (!p.attrs.optional && asserts o.options p) = true
          · simp only [hassert, if_true] at hp
            exact absurd hp assertionFailure_ne_ok
          · simp only [hassert, Bool.false_eq_true, if_false, bind_eq_ok, pure_eq_ok] at hp
            obtain ⟨⟨⟩, s₄, hb, rfl, rfl⟩ := hp
            refine ⟨?_, rfl, hb⟩
            cases hopt : p.attrs.optional <;> simp_all

section succ

variable {fuel : Nat} (ih : Refines o fuel)
include ih

theorem node_succ {tag : String} {r : Option NodeId} (h : s.Good o least)
    (hp : parseNode o.options (fuel + 1) tag s = (.ok r, s')) :
    s.Step o least s' ∧ NodeAnswer least s s' r (o.node (fuel + 1) tag s.source.upcoming) := by
  simp only [parseNode, bind_eq_ok, get_eq_ok] at hp
  obtain ⟨a, t, ⟨rfl, rfl⟩, hp⟩ := hp
  rw [Outline.node, ← h.agrees.type? tag]
  cases ht : s.registry.type? tag with
  | none => simp only [ht, throw_eq_ok] at hp
  | some nodeType =>
      cases nodeType with
      | declared ruleOf =>
          simp only [ht] at hp
          exact ih.type h hp
      | climbing operands climb ruleOf =>
          simp only [ht, bind_eq_ok, mark_eq_ok] at hp
          obtain ⟨start, s₁, hsave, mark, s₂, ⟨rfl, rfl⟩, r₁, s₃, hclimb, hp⟩ := hp
          obtain ⟨step₁, restored₁, rfl⟩ := savepoint_step h hsave
          obtain ⟨step₃, answer⟩ := ih.climbing step₁.good hclimb
          rw [step₁.upcoming restored₁] at answer
          have hundone {s₄ : ParseState} (hb : backtrack s.source.stream.position
              s₁.forest.size s₃ = (.ok (), s₄)) : s.Step o least s₄ ∧ s.Restored s₄ :=
            backtrack_step step₁ restored₁ (ih.climbing step₁.good.raise hclimb).1 hb
          cases r₁ with
          | none =>
              simp only [bind_eq_ok, pure_eq_ok] at hp
              obtain ⟨⟨⟩, s₄, hb, rfl, rfl⟩ := hp
              obtain ⟨step, restored⟩ := hundone hb
              exact ⟨step, by simp [answer.1, Attempt.andThen], restored⟩
          | some id =>
              obtain ⟨hl, hid, heq⟩ := answer
              simp only [bind_eq_ok, get_eq_ok] at hp
              obtain ⟨a, t, ⟨rfl, rfl⟩, hp⟩ := hp
              by_cases htag : s₃.forest.tag id = climb.node
              · simp only [htag, if_true, pure_eq_ok] at hp
                obtain ⟨rfl, rfl⟩ := hp
                refine ⟨step₁.trans step₃, hl, hid, ?_⟩
                simp [heq, Attempt.andThen, Forest.tag_content, htag]
              · simp only [htag, if_false, bind_eq_ok, pure_eq_ok] at hp
                obtain ⟨⟨⟩, s₄, hb, rfl, rfl⟩ := hp
                obtain ⟨step, restored⟩ := hundone hb
                exact ⟨step, by simp [heq, Attempt.andThen, Forest.tag_content, htag], restored⟩

theorem any_succ {types : List String} {r : Option NodeId} (h : s.Good o least)
    (hp : parseAny o.options (fuel + 1) types s = (.ok r, s')) :
    s.Step o least s' ∧ NodeAnswer least s s' r (o.any (fuel + 1) types s.source.upcoming) := by
  cases types with
  | nil =>
      simp only [parseAny, pure_eq_ok] at hp
      obtain ⟨rfl, rfl⟩ := hp
      exact ⟨.refl h, rfl, rfl, rfl⟩
  | cons tag rest =>
      simp only [parseAny, bind_eq_ok] at hp
      obtain ⟨r₁, s₁, hnode, hp⟩ := hp
      obtain ⟨step₁, answer₁⟩ := ih.node h hnode
      rw [Outline.any]
      cases r₁ with
      | some id =>
          simp only [pure_eq_ok] at hp
          obtain ⟨rfl, rfl⟩ := hp
          obtain ⟨hl, hid, heq⟩ := answer₁
          exact ⟨step₁, hl, hid, by simp [heq, Attempt.orElse]⟩
      | none =>
          obtain ⟨hmis, restored₁⟩ := answer₁
          obtain ⟨step₂, answer₂⟩ := ih.any step₁.good hp
          rw [step₁.upcoming restored₁] at answer₂
          simp only [hmis, Attempt.orElse]
          refine ⟨step₁.trans step₂, ?_⟩
          cases r with
          | some id => exact answer₂
          | none => exact ⟨answer₂.1, restored₁.trans answer₂.2⟩

theorem type_succ {tag : String} {r : Option NodeId} (h : s.Good o least)
    (hp : parseType o.options (fuel + 1) tag s = (.ok r, s')) :
    s.Step o least s' ∧ NodeAnswer least s s' r (o.type (fuel + 1) tag s.source.upcoming) := by
  simp only [parseType, bind_eq_ok] at hp
  obtain ⟨sch, s₁, hschema, hp⟩ := hp
  obtain ⟨step₁, restored₁, hsch⟩ := schema_step h hschema
  simp only [Outline.type, hsch]
  cases hroot : sch.root with
  | none =>
      simp only [hroot, pure_eq_ok] at hp
      obtain ⟨rfl, rfl⟩ := hp
      exact ⟨step₁, rfl, restored₁⟩
  | some root =>
      simp only [hroot, bind_eq_ok, mark_eq_ok] at hp
      obtain ⟨start, s₂, hsave, mark, s₃, ⟨rfl, rfl⟩, r₁, s₄, hrule, hp⟩ := hp
      obtain ⟨step₂, restored₂, rfl⟩ := savepoint_step step₁.good hsave
      have step₁₂ := step₁.trans step₂
      have restored₁₂ := restored₁.trans restored₂
      have hnamed : Named [] [] := rfl
      obtain ⟨step₄, answer, -⟩ := ih.rule step₂.good hnamed hrule
      rw [step₁₂.upcoming restored₁₂] at answer
      cases r₁ with
      | some fields =>
          simp only [bind_eq_ok, pure_eq_ok] at hp
          obtain ⟨id, s₅, hbuild, rfl, rfl⟩ := hp
          obtain ⟨more, rfl, hmore, heq⟩ := answer
          obtain ⟨step₅, hsource, hl, hid, hcontent⟩ := build_step step₄.good hmore hbuild
          refine ⟨(step₁₂.trans step₄).trans step₅, hl, hid, ?_⟩
          simp only [heq, Attempt.map, Attempt.andThen, hcontent, hsource, List.nil_append]
      | none =>
          simp only [bind_eq_ok, pure_eq_ok] at hp
          obtain ⟨⟨⟩, s₅, hb, rfl, rfl⟩ := hp
          have hposition : s₁.source.stream.position = s.source.stream.position := restored₁.position
          rw [hposition] at hb
          obtain ⟨step, restored⟩ := backtrack_step step₁₂ restored₁₂
            (ih.rule step₂.good.raise hnamed hrule).1 hb
          refine ⟨step, ?_, restored⟩
          have hmis : o.rule fuel root [] s.source.upcoming = .mismatch := answer
          simp [hmis, Attempt.map, Attempt.andThen]

theorem climbing_succ {operands : List String} {climb : Climb} {minimum : Nat} {r : Option NodeId}
    (h : s.Good o least)
    (hp : parseClimbing o.options (fuel + 1) operands climb minimum s = (.ok r, s')) :
    s.Step o least s' ∧
      NodeAnswer least s s' r (o.climbing (fuel + 1) operands climb minimum s.source.upcoming) := by
  simp only [parseClimbing, bind_eq_ok] at hp
  obtain ⟨r₁, s₁, hany, hp⟩ := hp
  obtain ⟨step₁, answer₁⟩ := ih.any h hany
  rw [Outline.climbing]
  cases r₁ with
  | none =>
      simp only [pure_eq_ok] at hp
      obtain ⟨rfl, rfl⟩ := hp
      exact ⟨step₁, by simp [answer₁.1, Attempt.andThen], answer₁.2⟩
  | some left =>
      simp only [bind_eq_ok, pure_eq_ok] at hp
      obtain ⟨id, s₂, hfrom, rfl, rfl⟩ := hp
      obtain ⟨hl, hleft, heq⟩ := answer₁
      obtain ⟨step₂, hl₂, hid, hextended⟩ := ih.extending step₁.good hl hleft hfrom
      exact ⟨step₁.trans step₂, hl₂, hid, by simp [heq, Attempt.andThen, hextended]⟩

theorem extending_succ {operands : List String} {climb : Climb} {minimum : Nat} {left id : NodeId}
    (h : s.Good o least) (hl : least ≤ left) (hleft : left < s.forest.size)
    (hp : climbFrom o.options (fuel + 1) operands climb minimum left s = (.ok id, s')) :
    s.Step o least s' ∧ least ≤ id ∧ id < s'.forest.size ∧
      o.extending (fuel + 1) operands climb minimum (s.forest.content left) s.source.upcoming =
        .found (s'.forest.content id) s'.source.upcoming := by
  simp only [climbFrom, bind_eq_ok] at hp
  obtain ⟨r₁, s₁, hoperator, hp⟩ := hp
  obtain ⟨step₁, restored₁, hr₁⟩ := climbingOperator_step h hoperator
  rw [Outline.extending]
  cases hop : Outline.operator minimum s.source.upcoming with
  | none =>
      rw [hop, Option.map_none] at hr₁
      subst hr₁
      simp only [pure_eq_ok] at hp
      obtain ⟨rfl, rfl⟩ := hp
      refine ⟨step₁, hl, by rw [restored₁.forest]; exact hleft, ?_⟩
      simp [step₁.upcoming restored₁, restored₁.forest]
  | some x =>
      obtain ⟨t, info, rest⟩ := x
      rw [hop, Option.map_some] at hr₁
      subst hr₁
      simp only [bind_eq_ok, mark_eq_ok] at hp
      obtain ⟨start, s₂, hsave, mark, s₃, ⟨rfl, rfl⟩, ⟨⟩, s₄, hskip, _, s₅, hnext, r₂, s₆,
        hclimb, hp⟩ := hp
      obtain ⟨step₂, restored₂, rfl⟩ := savepoint_step step₁.good hsave
      obtain ⟨step₄, forest₄, hup₄⟩ := skipTrivia_step step₂.good hskip
      obtain ⟨step₅, forest₅, hup₅⟩ := next_step step₄.good hnext
      obtain ⟨tree, hsig, -⟩ := operator_some hop
      have step₁₂ := step₁.trans step₂
      have restored₁₂ := restored₁.trans restored₂
      have step₁₅ := (step₁₂.trans step₄).trans step₅
      have hrest : s₅.source.upcoming = rest := by
        rw [hup₅, hup₄, step₁₂.upcoming restored₁₂, hsig, List.tail_cons]
      obtain ⟨step₆, answer⟩ := ih.climbing step₅.good hclimb
      rw [hrest] at answer
      have step₁₆ := step₁₅.trans step₆
      cases r₂ with
      | none =>
          simp only [bind_eq_ok, pure_eq_ok] at hp
          obtain ⟨⟨⟩, s₇, hb, rfl, rfl⟩ := hp
          rw [restored₁.position] at hb
          have hraised : s₂.Step o s₂.forest.size s₆ := by
            have step₄ := (skipTrivia_step step₂.good.raise hskip).1
            have step₅ := (next_step step₄.good hnext).1
            exact (step₄.trans step₅).trans (ih.climbing step₅.good hclimb).1
          obtain ⟨step, restored⟩ := backtrack_step step₁₂ restored₁₂ hraised hb
          refine ⟨step, hl, by rw [restored.forest]; exact hleft, ?_⟩
          simp [answer.1, step.upcoming restored, restored.forest]
      | some right =>
          simp only [bind_eq_ok] at hp
          obtain ⟨whole, s₇, hbuild, hp⟩ := hp
          obtain ⟨hlright, hright, heq⟩ := answer
          have hfresh : s₆.forest.Fresh least [(climb.left, .node left),
              (climb.operator, .terminal (.ofToken t)), (climb.right, .node right)] := by
            intro child hchild
            simp only [Fields.children, FieldValue.children, List.flatMap_cons, List.flatMap_nil,
              List.append_nil, List.nil_append, List.singleton_append, List.mem_cons,
              List.not_mem_nil, or_false] at hchild
            rcases hchild with rfl | rfl
            · exact ⟨hl, Nat.lt_of_lt_of_le hleft step₁₆.grows.size⟩
            · exact ⟨hlright, hright⟩
          obtain ⟨step₇, hsource, hlwhole, hwhole, hcontent⟩ := build_step step₆.good hfresh hbuild
          obtain ⟨step₈, hlid, hid, hextended⟩ := ih.extending step₇.good hlwhole hwhole hp
          refine ⟨(step₁₆.trans step₇).trans step₈, hlid, hid, ?_⟩
          have hleftContent := step₁₆.grows.content h.descends hl hleft
          rw [hcontent, hsource] at hextended
          simpa only [heq, Fields.contents, List.map_cons, List.map_nil, FieldValue.content,
            hleftContent, Outline.joined] using hextended

theorem operand_succ {info : RuleInfo} {types : List String} {climb : Option Climb}
    {r : Option NodeId} (h : s.Good o least)
    (hp : matchOperand o.options (fuel + 1) info types climb s = (.ok r, s')) :
    s.Step o least s' ∧
      NodeAnswer least s s' r (o.operand (fuel + 1) info types climb s.source.upcoming) := by
  cases climb with
  | some climb => exact ih.climbing h hp
  | none => exact ih.any h hp

theorem all_succ {tag : String} {ps : List Production} {fields : Fields} {r : Option Fields}
    (h : s.Good o least) (hn : Named fields parts)
    (hp : matchAll o.options (fuel + 1) tag ps fields s = (.ok r, s')) :
    s.Step o least s' ∧ FieldsAnswer least s' fields parts r
      (o.all (fuel + 1) ps parts s.source.upcoming) := by
  cases ps with
  | nil =>
      simp only [matchAll, pure_eq_ok] at hp
      obtain ⟨rfl, rfl⟩ := hp
      exact ⟨.refl h, fieldsLeaving_same ..⟩
  | cons p rest =>
      simp only [matchAll, bind_eq_ok] at hp
      obtain ⟨r₁, s₁, hrule, hp⟩ := hp
      obtain ⟨step₁, answer₁, -⟩ := ih.rule h hn hrule
      rw [Outline.all]
      cases r₁ with
      | none =>
          simp only [pure_eq_ok] at hp
          obtain ⟨rfl, rfl⟩ := hp
          have hmis : o.rule fuel p parts s.source.upcoming =
            .mismatch := answer₁
          exact ⟨step₁, by simp [FieldsLeaving, hmis, Attempt.andThen]⟩
      | some fields₁ =>
          obtain ⟨more, rfl, hmore, heq⟩ := answer₁
          obtain ⟨step₂, answer₂⟩ :=
            ih.all step₁.good (hn.append more s₁.forest.content) hp
          refine ⟨step₁.trans step₂, ?_⟩
          simp only [heq, Attempt.andThen]
          cases r with
          | none => exact answer₂
          | some fields₂ =>
              obtain ⟨more₂, rfl, hmore₂, heq₂⟩ := answer₂
              refine ⟨more ++ more₂, by simp, (hmore.grow step₂.grows.size).append hmore₂, ?_⟩
              rw [heq₂, Fields.contents_append, step₂.grows.contents step₁.good.descends hmore,
                List.append_assoc]

theorem first_succ {tag : String} {branches : List Production} {fields : Fields}
    {r : Option Fields} (h : s.Good o least) (hn : Named fields parts)
    (hp : matchFirst o.options (fuel + 1) tag branches fields s = (.ok r, s')) :
    s.Step o least s' ∧ FieldsAnswer least s' fields parts r
      (o.first (fuel + 1) branches parts s.source.upcoming) := by
  cases branches with
  | nil =>
      simp only [matchFirst, pure_eq_ok] at hp
      obtain ⟨rfl, rfl⟩ := hp
      exact ⟨.refl h, rfl⟩
  | cons p rest =>
      simp only [matchFirst, bind_eq_ok] at hp
      obtain ⟨r₁, s₁, hrule, hp⟩ := hp
      obtain ⟨step₁, answer₁, hrestored⟩ := ih.rule h hn hrule
      rw [Outline.first]
      cases r₁ with
      | some fields₁ =>
          simp only [pure_eq_ok] at hp
          obtain ⟨rfl, rfl⟩ := hp
          obtain ⟨more, rfl, hmore, heq⟩ := answer₁
          exact ⟨step₁, more, rfl, hmore, by simp [heq, Attempt.orElse]⟩
      | none =>
          have restored := hrestored rfl
          have hmis : o.rule fuel p parts s.source.upcoming =
            .mismatch := answer₁
          obtain ⟨step₂, answer₂⟩ := ih.first step₁.good hn hp
          rw [step₁.upcoming restored] at answer₂
          exact ⟨step₁.trans step₂, by simpa only [hmis, Attempt.orElse] using answer₂⟩

theorem field_succ {info : RuleInfo} {types : List String} {climb : Option Climb} {fields : Fields}
    {r : Option Fields} (h : s.Good o least)
    (hp : matchNode o.options (fuel + 1) info types climb fields s = (.ok r, s')) :
    s.Step o least s' ∧ FieldsAnswer least s' fields parts r
      (o.field (fuel + 1) info types climb parts
        s.source.upcoming) := by
  rw [Outline.field]
  cases hname : info.attrs.name with
  | none =>
      simp only [matchNode, hname, pure_eq_ok] at hp
      obtain ⟨rfl, rfl⟩ := hp
      exact ⟨.refl h, rfl⟩
  | some name =>
      cases harity : info.attrs.arity with
      | none =>
          simp only [matchNode, hname, harity, bind_eq_ok] at hp
          obtain ⟨r₁, s₁, hoperand, hp⟩ := hp
          obtain ⟨step₁, answer₁⟩ := ih.operand h hoperand
          cases r₁ with
          | none =>
              simp only [pure_eq_ok] at hp
              obtain ⟨rfl, rfl⟩ := hp
              exact ⟨step₁, by simp [FieldsLeaving, answer₁.1, Attempt.map, Attempt.andThen]⟩
          | some id =>
              simp only [pure_eq_ok] at hp
              obtain ⟨rfl, rfl⟩ := hp
              obtain ⟨hl, hid, heq⟩ := answer₁
              refine ⟨step₁, [(name, .node id)], rfl, ?_, ?_⟩
              · intro child hchild
                obtain rfl : child = id := by simpa [Fields.children, FieldValue.children] using hchild
                exact ⟨hl, hid⟩
              · simp only [heq, Attempt.map, Attempt.andThen]
                rfl
      | some arity =>
          simp only [matchNode, hname, harity, bind_eq_ok] at hp
          obtain ⟨ids, s₁, hitems, hp⟩ := hp
          obtain ⟨step₁, hids, heq⟩ := ih.items h (by simp) hitems
          simp only [List.map_nil] at heq
          by_cases hfew : ids.length < arity.least
          · simp only [hfew, if_true, pure_eq_ok] at hp
            obtain ⟨rfl, rfl⟩ := hp
            exact ⟨step₁, by simp [FieldsLeaving, heq, Attempt.andThen, hfew]⟩
          · simp only [hfew, if_false, pure_eq_ok] at hp
            obtain ⟨rfl, rfl⟩ := hp
            refine ⟨step₁, [(name, .list ids)], rfl, ?_, ?_⟩
            · intro child hchild
              exact hids child (by simpa [Fields.children, FieldValue.children] using hchild)
            · simp only [heq, Attempt.andThen, List.length_map, hfew, if_false]
              rfl

theorem items_succ {info : RuleInfo} {types : List String} {climb : Option Climb} {arity : Arity}
    {sofar ids : List NodeId} (h : s.Good o least)
    (hsofar : ∀ id : Nat, id ∈ sofar → least ≤ id ∧ id < s.forest.size)
    (hp : matchItems o.options (fuel + 1) info types climb arity sofar s = (.ok ids, s')) :
    s.Step o least s' ∧ (∀ id : Nat, id ∈ ids → least ≤ id ∧ id < s'.forest.size) ∧
      o.items (fuel + 1) info types climb arity (sofar.map s.forest.content) s.source.upcoming =
        .found (ids.map s'.forest.content) s'.source.upcoming := by
  rw [Outline.items, List.length_map]
  by_cases hmore : arity.admitsMore sofar.length = true
  · simp only [matchItems, hmore, Bool.not_true, Bool.false_eq_true, if_false, bind_eq_ok,
      mark_eq_ok] at hp ⊢
    obtain ⟨start, s₁, hsave, mark, s₂, ⟨rfl, rfl⟩, b, s₃, hsep, hp⟩ := hp
    obtain ⟨step₁, restored₁, rfl⟩ := savepoint_step h hsave
    obtain ⟨step₃, forest₃, hrest⟩ := separate_step step₁.good hsep
    have hforest : s₃.forest = s.forest := forest₃.trans restored₁.forest
    rw [restored₁.forest, step₁.upcoming restored₁] at hrest
    rw [hrest]
    cases b with
    | false =>
        simp only [Bool.not_false, if_true, pure_eq_ok] at hp
        obtain ⟨rfl, rfl⟩ := hp
        exact ⟨step₁.trans step₃, by rw [hforest]; exact hsofar, by rw [hforest]⟩
    | true =>
        simp only [Bool.not_true, Bool.false_eq_true, if_false, bind_eq_ok] at hp
        obtain ⟨r₁, s₄, hoperand, hp⟩ := hp
        obtain ⟨step₄, answer⟩ := ih.operand step₃.good hoperand
        have step₁₄ := (step₁.trans step₃).trans step₄
        have hundone {s₅ : ParseState} (hb : backtrack s.source.stream.position
            s₁.forest.size s₄ = (.ok (), s₅)) : s.Step o least s₅ ∧ s.Restored s₅ := by
          have step₃ := (separate_step step₁.good.raise hsep).1
          exact backtrack_step step₁ restored₁
            (step₃.trans (ih.operand step₃.good hoperand).1) hb
        cases r₁ with
        | none =>
            simp only [bind_eq_ok, pure_eq_ok] at hp
            obtain ⟨⟨⟩, s₅, hb, rfl, rfl⟩ := hp
            obtain ⟨step, restored⟩ := hundone hb
            refine ⟨step, by rw [restored.forest]; exact hsofar, ?_⟩
            simp [answer.1, step.upcoming restored, restored.forest]
        | some id =>
            obtain ⟨hl, hid, heq⟩ := answer
            have hsofar₄ : ∀ item : Nat, item ∈ sofar → least ≤ item ∧ item < s₄.forest.size :=
              fun item hitem => ⟨(hsofar item hitem).1,
                Nat.lt_of_lt_of_le (hsofar item hitem).2 step₁₄.grows.size⟩
            have hcontents : sofar.map s₄.forest.content = sofar.map s.forest.content :=
              List.map_congr_left fun item hitem => step₁₄.grows.content h.descends
                (hsofar item hitem).1 (hsofar item hitem).2
            have hrepeats := Forest.repeats_eq step₄.good.descends info.attrs.singletons sofar
              hsofar₄ hl
            rw [hcontents] at hrepeats
            simp only [bind_eq_ok, get_eq_ok] at hp
            obtain ⟨a, t, ⟨rfl, rfl⟩, hp⟩ := hp
            simp only [heq, ← hrepeats]
            by_cases hrep : info.attrs.singletons.repeats s₄.forest sofar id = true
            · simp only [hrep, if_true, bind_eq_ok, pure_eq_ok] at hp
              obtain ⟨⟨⟩, s₅, hb, rfl, rfl⟩ := hp
              obtain ⟨step, restored⟩ := hundone hb
              refine ⟨step, by rw [restored.forest]; exact hsofar, ?_⟩
              simp [hrep, step.upcoming restored, restored.forest]
            · simp only [hrep, Bool.false_eq_true, if_false] at hp ⊢
              have hnew : ∀ item : Nat, item ∈ sofar ++ [id] →
                  least ≤ item ∧ item < s₄.forest.size := by
                intro item hitem
                rcases List.mem_append.1 hitem with hitem | hitem
                · exact hsofar₄ item hitem
                · exact List.mem_singleton.1 hitem ▸ ⟨hl, hid⟩
              obtain ⟨step₅, hids, heq₅⟩ := ih.items step₄.good hnew hp
              refine ⟨step₁₄.trans step₅, hids, ?_⟩
              rw [List.map_append, hcontents] at heq₅
              exact heq₅
  · simp only [matchItems, hmore, Bool.not_false, if_true, pure_eq_ok] at hp ⊢
    obtain ⟨rfl, rfl⟩ := hp
    exact ⟨.refl h, hsofar, rfl⟩

/-- What is matched inside a block. -/
theorem contents_step {tag : String} {inner : Production} {fields : Fields} {r : Option Fields}
    (h : s.Good o least) (hn : Named fields parts)
    (hp : matchContents o.options fuel tag inner fields s = (.ok r, s')) :
    s.Step o least s' ∧ ∀ rest, FieldsLeaving least rest s'.forest fields parts r
      (Outline.closed rest
        (o.rule fuel inner parts s.source.upcoming)) := by
  simp only [matchContents, bind_eq_ok] at hp
  obtain ⟨start, s₁, hsave, r₁, s₂, hrule, hp⟩ := hp
  obtain ⟨step₁, restored₁, rfl⟩ := savepoint_step h hsave
  obtain ⟨step₂, answer, -⟩ := ih.rule step₁.good hn hrule
  rw [step₁.upcoming restored₁] at answer
  have step₁₂ := step₁.trans step₂
  cases r₁ with
  | none =>
      simp only [bind_eq_ok, pure_eq_ok] at hp
      obtain ⟨⟨⟩, s₃, hrestore, rfl, rfl⟩ := hp
      refine ⟨step₁₂.trans (restore_step step₂.good hrestore).1, fun rest => ?_⟩
      rw [show o.rule fuel inner _ _ = .mismatch from answer]
      rfl
  | some fields₁ =>
      obtain ⟨more, rfl, hmore, heq⟩ := answer
      simp only [bind_eq_ok] at hp
      obtain ⟨⟨⟩, s₃, hskip, b, s₄, hex, hp⟩ := hp
      obtain ⟨step₃, forest₃, hup₃⟩ := skipTrivia_step step₂.good hskip
      obtain ⟨step₄, restored₄, rfl⟩ := isExhausted_step step₃.good hex
      have step₁₄ := (step₁₂.trans step₃).trans step₄
      have hforest : s₄.forest = s₂.forest := restored₄.forest.trans forest₃
      simp only [heq, Outline.closed, Attempt.andThen]
      rw [hup₃] at hp
      by_cases hempty : (TokenTree.significant s₂.source.upcoming).isEmpty = true
      · simp only [hempty, if_true, pure_eq_ok] at hp ⊢
        obtain ⟨rfl, rfl⟩ := hp
        exact ⟨step₁₄, fun rest => ⟨more, rfl, by rw [hforest]; exact hmore, by rw [hforest]⟩⟩
      · simp only [hempty, Bool.false_eq_true, if_false, bind_eq_ok, pure_eq_ok] at hp ⊢
        obtain ⟨⟨⟩, s₅, hrestore, rfl, rfl⟩ := hp
        exact ⟨step₁₄.trans (restore_step step₄.good hrestore).1, fun _ => rfl⟩

theorem block_succ {tag : String} {bracket : Bracket} {inner : Production} {fields : Fields}
    {r : Option Fields} (h : s.Good o least) (hn : Named fields parts)
    (hp : matchBlock o.options (fuel + 1) tag bracket inner fields s = (.ok r, s')) :
    s.Step o least s' ∧ FieldsAnswer least s' fields parts r
      (o.block (fuel + 1) bracket inner parts s.source.upcoming) := by
  simp only [matchBlock_succ, bind_eq_ok] at hp
  obtain ⟨⟨⟩, s₁, hskip, t, s₂, hpeek, hp⟩ := hp
  obtain ⟨step₁, forest₁, hup₁⟩ := skipTrivia_step h hskip
  obtain ⟨step₂, restored₂, rfl⟩ := peek_step step₁.good hpeek
  have hup₂ := step₂.upcoming restored₂
  have step₁₂ := step₁.trans step₂
  have hforest : s₂.forest = s.forest := restored₂.forest.trans forest₁
  rw [Outline.block]
  cases hsig : TokenTree.significant s.source.upcoming with
  | nil =>
      simp only [hup₁, hsig, List.head?_nil, Option.map_none, pure_eq_ok] at hp
      obtain ⟨rfl, rfl⟩ := hp
      exact ⟨step₁₂, rfl⟩
  | cons tree rest =>
      simp only [hup₁, hsig, List.head?_cons, Option.map_some] at hp
      by_cases hkind : tree.token.kind ≠ bracket.tokenKind
      · rw [if_pos hkind] at hp
        obtain ⟨rfl, rfl⟩ := pure_eq_ok.1 hp
        refine ⟨step₁₂, ?_⟩
        cases tree with
        | leaf t => rfl
        | block t contents =>
            have hkind : t.kind ≠ bracket.tokenKind := hkind
            simp [FieldsLeaving, hkind]
      · rw [if_neg hkind] at hp
        simp only [bind_eq_ok, read_eq_ok] at hp
        obtain ⟨cell, s₃, ⟨source, hnext, rfl⟩, hp⟩ := hp
        cases cell with
        | none =>
            obtain ⟨-, -, hnil⟩ := Source.nextCell_none step₂.good.ready hnext
            rw [hup₂, hup₁, hsig] at hnil
            cases hnil
        | some cell =>
            obtain ⟨keeps, -, hcons, hcurrent, hstart⟩ :=
              Source.nextCell_some step₂.good.ready hnext
            rw [hup₂, hup₁, hsig, List.cons.injEq] at hcons
            obtain ⟨rfl, rfl⟩ := hcons
            have step₃ := step_of_keeps step₂.good keeps
            cases cell with
            | leaf t =>
                simp only [Option.bind_some, Cell.contents?, pure_eq_ok] at hp
                obtain ⟨rfl, rfl⟩ := hp
                exact ⟨step₁₂.trans step₃, rfl⟩
            | block t contents =>
                have hkind : t.kind = bracket.tokenKind := Decidable.not_not.1 hkind
                simp only [Option.bind_some, Cell.contents?] at hp
                simp only [Source.treeOf, Cell.tree, hkind, ne_eq, not_true_eq_false, if_false]
                obtain ⟨below, hb⟩ := Source.behind_of_current hcurrent
                obtain ⟨u, hcontents, hleave⟩ := inside_step step₃.good hb hp
                have hview : (inBlock { s₂ with source } contents).source.upcoming =
                    (Stream.line source.feed.last source.feed.queue contents).trees := by
                  simp [inBlock, Source.upcoming, Source.line, (hstart contents rfl).1]
                obtain ⟨stepIn, answer⟩ :=
                  contents_step ih (good_inBlock step₃.good hb) hn hcontents
                rw [hview] at answer
                obtain ⟨step₄, position₄, forest₄⟩ := hleave stepIn
                refine ⟨(step₁₂.trans step₃).trans step₄, ?_⟩
                have hup₄ : s'.source.upcoming = source.upcoming := step₄.keeps.upcoming position₄
                have answer := answer source.upcoming
                cases r with
                | none => exact answer
                | some fields' =>
                    obtain ⟨more, rfl, hmore, heq⟩ := answer
                    exact ⟨more, rfl, by rw [forest₄]; exact hmore, by rw [hup₄, forest₄, heq]⟩

theorem body_step {tag : String} {p : Production} {fields : Fields} {r : Option Fields}
    (h : s.Good o least) (hn : Named fields parts)
    (hp : matchBody o.options fuel tag p fields s = (.ok r, s')) :
    s.Step o least s' ∧ FieldsAnswer least s' fields parts r
      (o.body fuel p parts s.source.upcoming) := by
  cases p with
  | token info kinds values =>
      obtain ⟨step, -, answer, -⟩ := matchToken_step parts h hp
      exact ⟨step, answer⟩
  | node info types climb => exact ih.field h hp
  | sequence info ps => exact ih.all h hn hp
  | alternatives info branches =>
      simp only [matchBody, Outline.body] at hp ⊢
      by_cases hname : info.attrs.name.isSome = true
      · simp only [hname, if_true] at hp ⊢
        obtain ⟨step, -, answer⟩ := matchTokens_step parts h hp
        exact ⟨step, answer⟩
      · simp only [hname, Bool.false_eq_true, if_false] at hp ⊢
        exact ih.first h hn hp
  | block info bracket inner => exact ih.block h hn hp

theorem rule_succ {tag : String} {p : Production} {fields : Fields} {r : Option Fields}
    (h : s.Good o least) (hn : Named fields parts)
    (hp : matchRule o.options (fuel + 1) tag p fields s = (.ok r, s')) :
    s.Step o least s' ∧
      FieldsAnswer least s' fields parts r
        (o.rule (fuel + 1) p parts s.source.upcoming) ∧
      (r = none → s.Restored s') := by
  rw [Outline.rule_succ]
  obtain ⟨happ, rfl, rfl⟩ | ⟨happ, s₁, s₂, matched, -, step₁, restored₁, hbody, hcases⟩ :=
    matchRule_ok h hn hp
  · rw [happ]
    exact ⟨.refl h, fieldsLeaving_same .., by simp⟩
  · obtain ⟨step₂, answer⟩ := body_step ih step₁.good hn hbody
    rw [step₁.upcoming restored₁] at answer
    simp only [happ, Bool.not_true, Bool.false_eq_true, if_false]
    obtain ⟨fields', rfl, rfl, rfl⟩ | ⟨rfl, hsoft, rfl, hb⟩ := hcases
    · obtain ⟨more, rfl, hmore, heq⟩ := answer
      exact ⟨step₁.trans step₂, ⟨more, rfl, hmore, by simp [heq, Attempt.orElse]⟩, by simp⟩
    · have hraised := (body_step ih step₁.good.raise hn hbody).1
      obtain ⟨step, restored⟩ := backtrack_step step₁ restored₁ hraised hb
      refine ⟨step, ?_, fun _ => restored⟩
      rw [show o.body fuel p _ _ = .mismatch from answer]
      cases hopt : p.attrs.optional with
      | true =>
          rw [← step.upcoming restored]
          exact fieldsLeaving_same ..
      | false =>
          simp only [hopt, Bool.false_or, Bool.not_eq_true'] at hsoft
          simp [FieldsLeaving, Attempt.orElse, hsoft]

end succ

/-- Whatever the parser answers is what its outline makes of the upcoming trees. -/
theorem refines (o : Outline) (fuel : Nat) : Refines o fuel := by
  induction fuel with
  | zero => exact refines_zero o
  | succ fuel ih =>
      exact {
        node := node_succ ih
        any := any_succ ih
        type := type_succ ih
        climbing := climbing_succ ih
        extending := extending_succ ih
        rule := rule_succ ih
        all := all_succ ih
        first := first_succ ih
        block := block_succ ih
        field := field_succ ih
        operand := operand_succ ih
        items := items_succ ih }

end Parsing

end DualSql
