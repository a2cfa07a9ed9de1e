import DualSql.Proofs.Grammar.Accepted
import DualSql.Proofs.Grammar.Writing
import DualSql.Proofs.Layout
import DualSql.Proofs.Spacing

/-! # Writing in one pass

A tree can be written while it is walked, with no layout in between. A list
that could be too long for its line is then walked twice: once on one line and
to one side, for its width alone, and once for its text. The placeholders are
counted back in between. The pass breaks off at a line that is too wide.

Main definitions: `Pass`, `Pass.passNode` and `Pass.serialize`. Main results:
`Pass.passNode_follows`, `Pass.serialize_outcome` and `Pass.serialize_options`. -/

namespace DualSql

/-- What changes while a tree is walked and written. -/
structure PassState where
  registry : Registry
  /-- The number of placeholders so far. -/
  binds : Nat := 0
  /-- The number of lists that are being measured. -/
  flat : Nat := 0
  writer : Writer := {}
  /-- The lexemes that were given to the writer, with the gaps before them. -/
  inks : List Ink := []

/-- A computation that walks a tree and writes it. -/
abbrev Pass := ExceptT Error (StateM PassState)

namespace PassState

/-- Follows moves. -/
def follow (indentWidth : UInt64) (s : PassState) (moves : List Motion) : PassState :=
  { s with
    writer := moves.foldl (Writer.move indentWidth) s.writer
    inks := s.inks ++ s.writer.inks indentWidth moves }

/-- The state in which a tree begins to be written. -/
def start (s : PassState) : PassState :=
  { s with binds := 0, writer := {}, inks := [] }

end PassState

namespace Pass

/-- Follows the moves that are due where the writer is, and breaks off if it fails. -/
def follow (o : FormatOptions) (moves : Writer → List Motion) : Pass PUnit := do
  modify fun s => s.follow o.indentWidth (moves s.writer)
  if (← get).writer.failed then throw .capacity

/-- The moves for a lexeme. -/
def lexemeMoves (text : String) (tight : Bool) : List Motion :=
  (if tight then [.stroke .tight] else []) ++ [.stroke (.text text)]

/-- Writes a lexeme. -/
def emit (o : FormatOptions) (text : String) (tight : Bool) : Pass PUnit :=
  follow o fun _ => lexemeMoves text tight

/-- Leaves out the blank before the next lexeme, if asked to. -/
def hold (o : FormatOptions) (tight : Bool) : Pass PUnit :=
  follow o fun _ => if tight then [.stroke .tight] else []

/-- Indents the lines from here on, if asked to. -/
def indent (o : FormatOptions) (asked : Bool) : Pass PUnit :=
  follow o fun w => if asked then [.level (w.level + 1)] else []

/-- Takes an indentation back, if there was one. -/
def dedent (o : FormatOptions) (asked : Bool) : Pass PUnit :=
  follow o fun w => if asked then [.level (w.level - 1)] else []

/-- Whether lines are begun: not while a list is being measured. -/
def isPretty (o : FormatOptions) : Pass Bool :=
  return o.pretty && (← get).flat == 0

/-- The width of what is written, on one line and to one side. -/
def measure (walk : Pass PUnit) : Pass Nat := fun s =>
  let (result, t) := walk { s with flat := s.flat + 1, writer := {}, inks := [] }
  (result.map fun _ => t.writer.column,
    { t with binds := s.binds, flat := t.flat - 1, writer := s.writer, inks := s.inks })

/-- The schema of a type. -/
def schema (tag : String) (d : Dialect) : Pass Schema := fun s =>
  let (result, registry) := s.registry.schema tag d
  (result, { s with registry })

/-- The spelling of a terminal, which counts if it is a placeholder. -/
def spell (o : FormatOptions) (d : Dialect) (t : Terminal) : Pass String := do
  if t.kind = .bindVariable then modify fun s => { s with binds := s.binds + 1 }
  match t.spelling o.keywordCase d (← get).binds with
  | .ok text => return text
  | .error e => throw (.render e)

/-- Writes the terminal in a field. -/
def passTerminal (o : FormatOptions) (d : Dialect) (frame : Frame) (info : RuleInfo)
    (name : String) : Pass PUnit :=
  match frame.node.fields.lookup name with
  | some (.terminal t) => do emit o (← spell o d t) info.attrs.tight
  | _ => throw (Rendering.missingField frame.node name)

/-- Writes items, each but the first after a separator, and the first one close
to what is before it if asked to. -/
def passItems (o : FormatOptions) (child : NodeId → Pass PUnit) (separator : Option String)
    (onLines tight first : Bool) : List NodeId → Pass PUnit
  | [] => pure ⟨⟩
  | id :: rest => do
    follow o fun _ => Layout.movesBefore onLines separator first
    hold o tight
    child id
    passItems o child separator onLines false false rest

/-- Whether a list is too long for what is left of its line. Its items are
written to one side for that. -/
def isTooLong (o : FormatOptions) (child : NodeId → Pass PUnit) (separator : Option String)
    (ids : List NodeId) : Pass Bool := do
  let column := (← get).writer.column
  let width ← measure (passItems o child separator false false true ids)
  return decide (column + width > o.lineWidth)

/-- Writes a list on lines of its own, if it is broken up, or else where it stands. -/
def passBroken (o : FormatOptions) (child : NodeId → Pass PUnit) (info : RuleInfo)
    (ids : List NodeId) (broken : Bool) : Pass PUnit := do
  indent o broken
  passItems o child info.attrs.separator broken (info.attrs.tight && !broken) true ids
  dedent o broken

/-- Writes a list. -/
def passList (o : FormatOptions) (child : NodeId → Pass PUnit) (info : RuleInfo)
    (ids : List NodeId) : Pass PUnit := do
  let pretty ← isPretty o
  if pretty && info.attrs.newline then
    passItems o child info.attrs.separator true false true ids
  else if pretty && ids.length > 1 then
    passBroken o child info ids (← isTooLong o child info.attrs.separator ids)
  else passBroken o child info ids false

/-- Writes the children in a field, given how to write a node. -/
def passChildren (o : FormatOptions) (child : Context → NodeId → Pass PUnit) (frame : Frame)
    (info : RuleInfo) (name : String) : Pass PUnit :=
  match frame.node.fields.lookup name with
  | some (.node id) => do
    hold o info.attrs.tight
    child (frame.childContext info name) id
  | some (.list ids) => passList o (child .free) info ids
  | _ => throw (Rendering.missingField frame.node name)

/-- Begins a line before a production and indents it, where its rule asks for that. -/
def arranged (o : FormatOptions) (attrs : RuleAttrs) (body : Pass PUnit) : Pass PUnit := do
  let pretty ← isPretty o
  follow o fun _ => if pretty && attrs.newline && attrs.arity.isNone then [.line] else []
  indent o (pretty && attrs.indent)
  body
  dedent o (pretty && attrs.indent)

mutual

/-- Writes a production, given how to write a node. -/
def passRule (o : FormatOptions) (d : Dialect) (child : Context → NodeId → Pass PUnit)
    (frame : Frame) (p : Production) : Pass PUnit :=
  if p.isSkipped frame.has then pure ⟨⟩
  else arranged o p.attrs <|
    match p with
    | .token info kinds values =>
      match info.attrs.name, kinds, values with
      | some name, _, _ => passTerminal o d frame info name
      | none, kind :: _, value :: _ =>
        emit o (fixedSpelling o.keywordCase kind value) info.attrs.tight
      | none, _, _ => pure ⟨⟩
    | .node info _ _ =>
      match info.attrs.name with
      | some name => passChildren o child frame info name
      | none => pure ⟨⟩
    | .sequence _ parts => passAll o d child frame parts
    | .alternatives info branches =>
      match info.attrs.name with
      | some name => passTerminal o d frame info name
      | none => passFirst o d child frame (info.fields.filter frame.has) branches
    | .block info bracket inner =>
      if info.attrs.optionalParens && !inner.info.fields.any frame.has then pure ⟨⟩
      else if info.attrs.optionalParens && o.minimalParens then
        passRule o d child { frame with exposed := true } inner
      else do
        emit o bracket.opener.toString info.attrs.tight
        passRule o d child { frame with context := .free, exposed := false } inner
        emit o bracket.closer.toString false

/-- Writes productions one after the other. -/
def passAll (o : FormatOptions) (d : Dialect) (child : Context → NodeId → Pass PUnit)
    (frame : Frame) : List Production → Pass PUnit
  | [] => pure ⟨⟩
  | p :: rest => do
    passRule o d child frame p
    passAll o d child frame rest

/-- Writes the first production that has a place for all present fields. -/
def passFirst (o : FormatOptions) (d : Dialect) (child : Context → NodeId → Pass PUnit)
    (frame : Frame) (present : List String) : List Production → Pass PUnit
  | [] => throw (Rendering.noAlternative d frame.node)
  | p :: rest =>
    if present.all p.info.fields.contains && p.fits frame.has then
      passRule o d child frame p
    else passFirst o d child frame present rest

end

/-- Writes a node by the production of its type, in brackets if it needs them. -/
def passShape (o : FormatOptions) (d : Dialect) (child : Context → NodeId → Pass PUnit)
    (node : Node) (context : Context) (operation : Option Operation) (root : Production) :
    Pass PUnit :=
  if Rendering.needsBrackets root operation context then do
    emit o "(" false
    passRule o d child { node, context := .free, operation } root
    emit o ")" false
  else passRule o d child { node, context, operation } root

/-- Writes a node, down to a depth. -/
def passNode (o : FormatOptions) (d : Dialect) (f : Forest) :
    Nat → Context → NodeId → Pass PUnit
  | 0, _, _ => throw .endless
  | depth + 1, context, id => do
    let node : Node := { tag := f.tag id, fields := f.fields id, parent := f.parent? id }
    match (← get).registry.type? node.tag with
    | none => throw (.grammar (.unknownType node.tag))
    | some nodeType =>
      match (← schema node.tag d).root with
      | none => throw (Rendering.noAlternative d node)
      | some root =>
        passShape o d (passNode o d f depth) node context
          (nodeType.climb?.map (Rendering.operation d f.dialect node)) root

/-- The text of the tree below a node. The count of the placeholders begins
anew, and so does the text. -/
def serialize (o : FormatOptions) (d : Dialect) (f : Forest) (id : NodeId) : Pass String := do
  modify PassState.start
  passNode o d f (f.size + 1) .free id
  return (← get).writer.toText

end Pass

/-! ### What one pass writes -/

namespace PassState

theorem follow_nil (indentWidth : UInt64) (s : PassState) : s.follow indentWidth [] = s := by
  simp [follow, Writer.inks]

theorem inks_append (indentWidth : UInt64) (w : Writer) (moves more : List Motion) :
    w.inks indentWidth (moves ++ more) =
      w.inks indentWidth moves ++
        (moves.foldl (Writer.move indentWidth) w).inks indentWidth more := by
  induction moves generalizing w with
  | nil => rfl
  | cons m moves ih =>
      cases m with
      | stroke stroke =>
          cases stroke with
          | text text =>
              rw [List.cons_append, Writer.inks, ih, Writer.inks]
              rfl
          | tight => exact ih _
      | line => exact ih _
      | level => exact ih _

theorem follow_append (indentWidth : UInt64) (s : PassState) (moves more : List Motion) :
    s.follow indentWidth (moves ++ more) =
      (s.follow indentWidth moves).follow indentWidth more := by
  simp [follow, inks_append]

end PassState

namespace Pass

variable {α β γ : Type} {o : FormatOptions} {pretty : Bool}
  {trail trail' : Writer → α → List Motion}
  {walk : Pass PUnit} {m : Rendering α} {m' : Rendering Layout}

/-- A pass ends in an error, and leaves no list half measured. It breaks off at a
line that is too wide. -/
def FailsWith (o : FormatOptions) (walk : Pass PUnit) (s : PassState) (e : Error) : Prop :=
  ∃ t, walk s = (.error e, t) ∧ t.flat = s.flat ∧ s.registry.Agrees t.registry ∧
    (e = .capacity → Writer.indentation? t.writer.level o.indentWidth = none)

theorem FailsWith.bind {s : PassState} {e : Error} (h : FailsWith o walk s e)
    (next : PUnit → Pass PUnit) : FailsWith o (walk >>= next) s e := by
  obtain ⟨t, ht, hflat, hregistry, hwide⟩ := h
  exact ⟨t, Fallible.bind_of_error ht, hflat, hregistry, hwide⟩

/-- An error behind something that succeeds. -/
theorem FailsWith.after {ask : Pass β} {s t : PassState} {b : β} {e : Error}
    (hask : ask s = (.ok b, t)) (hflat : t.flat = s.flat)
    (hregistry : s.registry.Agrees t.registry) (next : β → Pass PUnit)
    (h : FailsWith o (next b) t e) : FailsWith o (ask >>= next) s e := by
  obtain ⟨u, hu, hflat', hregistry', hwide⟩ := h
  exact ⟨u, (Fallible.bind_of_ok hask).trans hu, hflat'.trans hflat, hregistry.trans hregistry',
    hwide⟩

/-- What a pass leaves that follows a rendering: the same error, or the moves of
what is rendered and the same count. In the pretty form it can break off before. -/
def Outcome (o : FormatOptions) (pretty : Bool) (trail : Writer → α → List Motion)
    (walk : Pass PUnit) (s : PassState) : Except Error α × RenderState → Prop
  | (.error e, _) => e ≠ .capacity ∧
      (FailsWith o walk s e ∨ pretty = true ∧ FailsWith o walk s .capacity)
  | (.ok a, r) =>
      let w := (trail s.writer a).foldl (Writer.move o.indentWidth) s.writer
      (pretty = true ∧ w.failed = true ∧ FailsWith o walk s .capacity) ∨
        w.Steady pretty ∧ ∃ registry, s.registry.Agrees registry ∧
          walk s = (.ok ⟨⟩,
            { s.follow o.indentWidth (trail s.writer a) with binds := r.binds, registry })

theorem Outcome.congr {walk walk' : Pass PUnit} {s : PassState}
    {ended : Except Error α × RenderState} (h : Outcome o pretty trail walk s ended)
    (hwalk : walk' s = walk s) : Outcome o pretty trail walk' s ended := by
  rcases ended with ⟨e | a, r⟩ <;> simpa only [Outcome, FailsWith, hwalk] using h

/-- A pass follows a rendering from states with the same count and with
registries that agree, on lines or on one line. -/
def Follows (o : FormatOptions) (pretty : Bool) (trail : Writer → α → List Motion)
    (walk : Pass PUnit) (m : Rendering α) : Prop :=
  ∀ (s : PassState) (r : RenderState), s.binds = r.binds → r.registry.Agrees s.registry →
    (o.pretty && s.flat == 0) = pretty → s.writer.Steady pretty →
    r.registry.Agrees (m r).2.registry ∧ Outcome o pretty trail walk s (m r)

/-- Moves that are followed before anything is rendered. -/
theorem follows_follow {moves : Writer → List Motion} {a : α} (htrail : ∀ w, trail w a = moves w)
    (hmoves : ∀ w, Motion.Proper pretty (moves w)) :
    Follows o pretty trail (follow o moves) (pure a) := by
  intro s r hbinds hregistry _ hsteady
  refine ⟨.refl _, ?_⟩
  change _ ∨ _
  rw [htrail]
  have hrun : follow o moves s =
      (if ((moves s.writer).foldl (Writer.move o.indentWidth) s.writer).failed = true then
        throw .capacity else pure ⟨⟩ : Pass PUnit) (s.follow o.indentWidth (moves s.writer)) := by
    rw [follow, Fallible.modify_bind, Fallible.get_bind]
    rfl
  cases hfailed : ((moves s.writer).foldl (Writer.move o.indentWidth) s.writer).failed with
  | true =>
      rw [hfailed, if_pos rfl] at hrun
      cases pretty with
      | true =>
          exact .inl ⟨rfl, rfl, _, hrun, rfl, .refl _,
            fun _ => (hmoves _).wide_of_failed hsteady.going hfailed⟩
      | false =>
          rw [(hsteady.foldl ((hmoves _).line rfl)).going] at hfailed
          cases hfailed
  | false =>
      rw [hfailed, if_neg Bool.false_ne_true] at hrun
      refine .inr ⟨⟨hfailed, ?_⟩, s.registry, .refl _, by rw [hrun, ← hbinds]; rfl⟩
      rintro rfl
      exact (hsteady.foldl ((hmoves _).line rfl)).line rfl

theorem follows_pure {a : α} (htrail : ∀ w, trail w a = []) :
    Follows o pretty trail (pure ⟨⟩) (pure a) := by
  intro s r hbinds _ _ hsteady
  refine ⟨.refl _, ?_⟩
  change _ ∨ _
  rw [htrail, PassState.follow_nil, ← hbinds]
  exact .inr ⟨hsteady, s.registry, .refl _, rfl⟩

theorem follows_throw {e : Error} (he : e ≠ .capacity) :
    Follows o pretty trail (throw e) (throw e) :=
  fun s _ _ _ _ _ => ⟨.refl _, he, .inl ⟨s, rfl, rfl, .refl _, fun h => absurd h he⟩⟩

theorem Follows.ite {c : Prop} [Decidable c] {walk' : Pass PUnit} {m' : Rendering α}
    (h : c → Follows o pretty trail walk m) (h' : ¬c → Follows o pretty trail walk' m') :
    Follows o pretty trail (if c then walk else walk') (if c then m else m') := by
  split
  next hc => exact h hc
  next hc => exact h' hc

/-- One pass after the other. -/
theorem Follows.seq {trail₂ : Writer → β → List Motion} {trail₃ : Writer → γ → List Motion}
    {walk₂ : Pass PUnit} {n : Rendering β} (h : Follows o pretty trail walk m)
    (h₂ : Follows o pretty trail₂ walk₂ n) (combine : α → β → γ)
    (htrail : ∀ w a b, trail₃ w (combine a b) =
      trail w a ++ trail₂ ((trail w a).foldl (Writer.move o.indentWidth) w) b) :
    Follows o pretty trail₃ (do walk; walk₂)
      (do let a ← m; let b ← n; pure (combine a b)) := by
  intro s r hbinds hregistry hpretty hsteady
  obtain ⟨hagrees, hfirst⟩ := h s r hbinds hregistry hpretty hsteady
  rcases hm : m r with ⟨e | a, r₁⟩
  · rw [hm] at hagrees hfirst
    rw [Fallible.bind_of_error hm]
    exact ⟨hagrees, hfirst.imp_right (.imp (·.bind _) (.imp_right (·.bind _)))⟩
  · rw [hm] at hagrees hfirst
    rw [Fallible.bind_of_ok hm]
    rcases hfirst with ⟨hp, hfailed, hfails⟩ | ⟨hsteady', registry, hr, hwalk⟩
    -- The first pass broke off, and the second rendering is run all the same.
    · obtain ⟨hagrees₂, hsecond⟩ := h₂ { s with binds := r₁.binds } r₁ rfl
        (hagrees.symm.trans hregistry) hpretty hsteady
      rcases hn : n r₁ with ⟨e | b, r₂⟩
      · rw [hn] at hagrees₂ hsecond
        rw [Fallible.bind_of_error hn]
        exact ⟨hagrees.trans hagrees₂, hsecond.1, .inr ⟨hp, hfails.bind _⟩⟩
      · rw [hn] at hagrees₂
        rw [Fallible.bind_of_ok hn]
        refine ⟨hagrees.trans hagrees₂, .inl ⟨hp, ?_, hfails.bind _⟩⟩
        rw [htrail, List.foldl_append]
        exact Writer.failed_foldl hfailed _
    · obtain ⟨hagrees₂, hsecond⟩ := h₂
        { s.follow o.indentWidth (trail s.writer a) with binds := r₁.binds, registry } r₁ rfl
        (hagrees.symm.trans (hregistry.trans hr)) hpretty hsteady'
      have hafter {e : Error} := FailsWith.after (o := o) (e := e) hwalk rfl hr fun _ => walk₂
      rcases hn : n r₁ with ⟨e | b, r₂⟩
      · rw [hn] at hagrees₂ hsecond
        rw [Fallible.bind_of_error hn]
        exact ⟨hagrees.trans hagrees₂, hsecond.imp_right (.imp hafter (.imp_right hafter))⟩
      · rw [hn] at hagrees₂ hsecond
        rw [Fallible.bind_of_ok hn]
        refine ⟨hagrees.trans hagrees₂, ?_⟩
        change _ ∨ _
        rw [htrail, List.foldl_append]
        refine hsecond.imp (.imp_right (.imp_right hafter)) ?_
        rintro ⟨hsteady₂, registry₂, hr₂, hwalk₂⟩
        refine ⟨hsteady₂, registry₂, hr.trans hr₂, (Fallible.bind_of_ok hwalk).trans ?_⟩
        rw [hwalk₂, PassState.follow_append]
        rfl

/-- What a rendering never gives need not be followed. -/
theorem Follows.congr (h : Follows o pretty trail walk m)
    (htrail : ∀ w a r, (m r).1 = .ok a → trail' w a = trail w a) :
    Follows o pretty trail' walk m := by
  intro s r hbinds hregistry hpretty hsteady
  obtain ⟨hagrees, hwalk⟩ := h s r hbinds hregistry hpretty hsteady
  refine ⟨hagrees, ?_⟩
  rcases hm : m r with ⟨e | a, r₁⟩
  · rwa [hm] at hwalk
  · rw [hm] at hwalk
    simpa only [Outcome, htrail _ _ r (congrArg Prod.fst hm)] using hwalk

/-- A pass with nothing to follow after it. -/
theorem Follows.map {trail₂ : Writer → β → List Motion} {f : α → β}
    (h : Follows o pretty trail walk m) (htrail : ∀ w a, trail₂ w (f a) = trail w a) :
    Follows o pretty trail₂ walk (do let a ← m; pure (f a)) := by
  intro s r hbinds hregistry hpretty hsteady
  obtain ⟨hagrees, hwalk⟩ := h s r hbinds hregistry hpretty hsteady
  rcases hm : m r with ⟨e | a, r₁⟩
  · rw [hm] at hagrees hwalk
    rw [Fallible.bind_of_error hm]
    exact ⟨hagrees, hwalk⟩
  · rw [hm] at hagrees hwalk
    rw [Fallible.bind_of_ok hm]
    refine ⟨hagrees, ?_⟩
    change _ ∨ _
    rwa [htrail]

/-- Moves before a pass. -/
theorem Follows.after (h : Follows o pretty trail walk m) (moves : Writer → List Motion)
    (hproper : ∀ w, Motion.Proper pretty (moves w))
    (htrail : ∀ w a, trail' w a =
      moves w ++ trail ((moves w).foldl (Writer.move o.indentWidth) w) a) :
    Follows o pretty trail' (do follow o moves; walk) m := by
  have hmoves : Follows o pretty (fun w _ => moves w) (follow o moves) (pure PUnit.unit) :=
    follows_follow (fun _ => rfl) hproper
  have hseq := hmoves.seq h (fun _ a => a) fun w _ a => htrail w a
  rwa [pure_bind, bind_pure] at hseq

/-- Moves behind a pass. -/
theorem Follows.before (h : Follows o pretty trail walk m) (moves : Writer → List Motion)
    (hproper : ∀ w, Motion.Proper pretty (moves w))
    (htrail : ∀ w a, trail' w a =
      trail w a ++ moves ((trail w a).foldl (Writer.move o.indentWidth) w)) :
    Follows o pretty trail' (do walk; follow o moves) m := by
  have hmoves : Follows o pretty (fun w _ => moves w) (follow o moves) (pure PUnit.unit) :=
    follows_follow (fun _ => rfl) hproper
  have hseq := h.seq hmoves (fun a _ => a) fun w a _ => htrail w a
  simpa only [pure_bind, bind_pure] using hseq

/-- Both computations learn the same and go on. -/
def Shares (ask : Pass β) (m : Rendering β) : Prop :=
  ∀ (s : PassState) (r : RenderState), s.binds = r.binds → r.registry.Agrees s.registry →
    r.registry.Agrees (m r).2.registry ∧ (m r).1 ≠ .error .capacity ∧
    ∃ registry, s.registry.Agrees registry ∧
      ask s = ((m r).1, { s with binds := (m r).2.binds, registry })

theorem Shares.bind {ask : Pass β} {n : Rendering β} {walk : β → Pass PUnit}
    {m : β → Rendering α} (h : Shares ask n) (hwalk : ∀ b, Follows o pretty trail (walk b) (m b)) :
    Follows o pretty trail (ask >>= walk) (n >>= m) := by
  intro s r hbinds hregistry hpretty hsteady
  obtain ⟨hagrees, hnever, registry, hr, hask⟩ := h s r hbinds hregistry
  rcases hn : n r with ⟨e | b, r₁⟩
  · rw [hn] at hagrees hnever hask
    rw [Fallible.bind_of_error hn]
    have he : e ≠ .capacity := fun he => hnever (congrArg Except.error he)
    exact ⟨hagrees, he, .inl ⟨_, Fallible.bind_of_error hask, rfl, hr, fun h => absurd h he⟩⟩
  · rw [hn] at hagrees hask
    rw [Fallible.bind_of_ok hn]
    obtain ⟨hagrees₂, houtcome⟩ := hwalk b { s with binds := r₁.binds, registry } r₁ rfl
      (hagrees.symm.trans (hregistry.trans hr)) hpretty hsteady
    have hafter {e : Error} := FailsWith.after (o := o) (e := e) hask rfl hr walk
    refine ⟨hagrees.trans hagrees₂, ?_⟩
    generalize m b r₁ = ended at houtcome
    rcases ended with ⟨e | a, r₂⟩
    · exact houtcome.imp_right (.imp hafter (.imp_right hafter))
    · refine houtcome.imp (.imp_right (.imp_right hafter)) ?_
      rintro ⟨hsteady₂, registry₂, hr₂, ht⟩
      exact ⟨hsteady₂, registry₂, hr.trans hr₂, (Fallible.bind_of_ok hask).trans ht⟩

theorem shares_schema (tag : String) (d : Dialect) :
    Shares (schema tag d) (Rendering.schema tag d) := by
  intro s r hbinds hregistry
  refine ⟨Registry.agrees_schema r.registry tag d, ?_, (s.registry.schema tag d).2,
    Registry.agrees_schema s.registry tag d, ?_⟩
  · intro hcapacity
    obtain ⟨e, he⟩ := Registry.grammar_of_schema hcapacity
    cases he
  change ((s.registry.schema tag d).1, _) = ((r.registry.schema tag d).1, _)
  rw [hregistry.schemas]
  exact congrArg _ (by rw [hbinds]; rfl)

/-- What a pass learns from its state has to agree with what the rendering learns. -/
theorem Follows.get {walk : PassState → Pass PUnit} {m : RenderState → Rendering α}
    (h : ∀ s r, r.registry.Agrees s.registry → Follows o pretty trail (walk s) (m r)) :
    Follows o pretty trail (get >>= walk) (get >>= m) :=
  fun s r hbinds hregistry hpretty hsteady =>
    h s r hregistry s r hbinds hregistry hpretty hsteady

theorem shares_spell (o : FormatOptions) (d : Dialect) (t : Terminal) :
    Shares (spell o d t) (Rendering.spell o d t) := by
  rintro ⟨registry, binds, flat, writer, inks⟩ r hbinds _
  obtain rfl : binds = r.binds := hbinds
  by_cases hkind : t.kind = .bindVariable
  · simp only [spell, Rendering.spell, if_pos hkind, Fallible.modify_bind, Fallible.get_bind]
    refine ⟨?_, ?_, registry, .refl _, ?_⟩
    · cases t.spelling o.keywordCase d (r.binds + 1) <;> exact .refl _
    · cases t.spelling o.keywordCase d (r.binds + 1) <;> exact nofun
    · cases t.spelling o.keywordCase d (r.binds + 1) <;> rfl
  · simp only [spell, Rendering.spell, if_neg hkind, Fallible.get_bind]
    refine ⟨?_, ?_, registry, .refl _, ?_⟩
    · cases t.spelling o.keywordCase d r.binds <;> exact .refl _
    · cases t.spelling o.keywordCase d r.binds <;> exact nofun
    · cases t.spelling o.keywordCase d r.binds <;> rfl

/-- Whether lines are begun is known. -/
theorem Follows.isPretty {walk : Bool → Pass PUnit} (h : Follows o pretty trail (walk pretty) m) :
    Follows o pretty trail (isPretty o >>= walk) m := by
  intro s r hbinds hregistry hpretty hsteady
  have hrun : (Pass.isPretty o >>= walk) s = walk pretty s := by
    rw [← hpretty]
    rfl
  obtain ⟨hagrees, houtcome⟩ := h s r hbinds hregistry hpretty hsteady
  exact ⟨hagrees, houtcome.congr hrun⟩

/-! ### Each function of the pass -/

variable {d : Dialect} {frame : Frame} {child : NodeId → Pass PUnit} {rchild : NodeId → Rendering Layout}

theorem proper_lexeme (text : String) (tight : Bool) :
    Motion.Proper pretty (lexemeMoves text tight) := by
  cases tight <;> exact ⟨by simp [lexemeMoves], by simp [lexemeMoves]⟩

theorem follows_emit (text : String) (tight : Bool) :
    Follows o pretty (Layout.trail o pretty) (emit o text tight) (pure (.token text tight)) := by
  refine follows_follow (fun w => ?_) fun _ => proper_lexeme text tight
  cases pretty <;> cases tight <;> rfl

theorem passTerminal_follows (info : RuleInfo) (name : String) :
    Follows o pretty (Layout.trail o pretty) (passTerminal o d frame info name)
      (Rendering.renderTerminal o d frame info name) := by
  unfold passTerminal Rendering.renderTerminal
  cases frame.node.fields.lookup name with
  | none => exact follows_throw nofun
  | some value =>
      cases value with
      | terminal t =>
          exact (shares_spell o d t).bind fun text => follows_emit text info.attrs.tight
      | node | list => exact follows_throw nofun

theorem proper_hold (tight : Bool) :
    Motion.Proper pretty (if tight then [.stroke .tight] else []) := by
  cases tight <;> exact ⟨by simp, by simp⟩

theorem proper_level (asked : Bool) (level : Nat) :
    Motion.Proper pretty (if asked then [.level level] else []) := by
  cases asked <;> exact ⟨by simp, by simp⟩

/-- An item with what is written before it. -/
theorem passItem_follows {onLines : Bool} (hlines : onLines = true → pretty = true)
    (hchild : ∀ id, Follows o pretty (Layout.trail o pretty) (child id) (rchild id))
    (separator : Option String) (tight first : Bool) (id : NodeId) :
    Follows o pretty
      (fun w l =>
        let before := Layout.movesBefore onLines separator first ++
          if tight then [.stroke .tight] else []
        before ++ Layout.trail o pretty (before.foldl (Writer.move o.indentWidth) w) l)
      (do
        follow o fun _ => Layout.movesBefore onLines separator first
        hold o tight
        child id)
      (rchild id) := by
  have hheld := (hchild id).after _ (fun _ => proper_hold tight) fun _ _ => rfl
  refine hheld.after _ (fun _ => Layout.proper_movesBefore hlines separator first) fun w l => ?_
  dsimp only
  rw [List.foldl_append, List.append_assoc]

/-- Items follow what is rendered for each. -/
theorem passItems_follows (onLines : Bool) (hlines : onLines = true → pretty = true)
    (hchild : ∀ id, Follows o pretty (Layout.trail o pretty) (child id) (rchild id))
    (separator : Option String) (first : Bool) (ids : List NodeId) :
    Follows o pretty (Layout.trailItems o pretty onLines separator first)
      (passItems o child separator onLines false first ids) (ids.mapM rchild) := by
  induction ids generalizing first with
  | nil =>
      refine follows_pure fun w => ?_
      cases pretty <;> rfl
  | cons id ids ih =>
      have hitem := passItem_follows hlines hchild separator false first id
      have hitems := hitem.seq (ih false) List.cons
        fun w item rest => (Layout.trailItems_cons o hlines separator first w item rest).trans (by
          simp only [Bool.false_eq_true, if_false, List.append_nil, List.foldl_append,
            List.append_assoc])
      rw [List.mapM_cons, passItems]
      simpa only [bind_assoc] using hitems

/-- Items of which the first one stands close to what is before it. -/
theorem heldItems_follows
    (hchild : ∀ id, Follows o pretty (Layout.trail o pretty) (child id) (rchild id))
    (separator : Option String) (id : NodeId) (ids : List NodeId) :
    Follows o pretty
      (fun w parts => .stroke .tight ::
        Layout.trailItems o pretty false separator true { w with tight := true } parts)
      (passItems o child separator false true true (id :: ids)) ((id :: ids).mapM rchild) := by
  have hlines : false = true → pretty = true := nofun
  have hitems : Follows o pretty
      (fun w parts => .stroke .tight ::
        Layout.trailItems o pretty false separator true { w with tight := true } parts) _ _ :=
    (passItem_follows hlines hchild separator true true id).seq
      (passItems_follows false hlines hchild separator false ids) List.cons
      fun w item rest => congrArg (Motion.stroke .tight :: ·)
        (Layout.trailItems_cons o hlines separator true { w with tight := true } item rest)
  rw [List.mapM_cons, passItems]
  simpa only [bind_assoc] using hitems

theorem length_of_mapM {ids : List NodeId} {parts : List Layout} {r : RenderState}
    (h : (ids.mapM rchild r).1 = .ok parts) : parts.length = ids.length := by
  induction ids generalizing parts r with
  | nil =>
      obtain rfl : [] = parts := Except.ok.inj h
      rfl
  | cons id ids ih =>
      rw [List.mapM_cons] at h
      obtain ⟨part, r₁, -, hrest⟩ := Fallible.bind_eq_ok.1 (Prod.ext h rfl)
      obtain ⟨rest, r₂, hrest, hparts⟩ := Fallible.bind_eq_ok.1 hrest
      rw [← (Fallible.pure_eq_ok.1 hparts).1, List.length_cons, List.length_cons,
        ih (congrArg Prod.fst hrest)]

theorem passBroken_follows (broken : Bool) (hbroken : broken = true → pretty = true)
    (hchild : ∀ id, Follows o pretty (Layout.trail o pretty) (child id) (rchild id))
    (info : RuleInfo) (ids : List NodeId) :
    Follows o pretty
      (Layout.trailList o pretty broken info.attrs.tight info.attrs.separator)
      (passBroken o child info ids broken) (ids.mapM rchild) := by
  have hitems := passItems_follows broken hbroken hchild info.attrs.separator true ids
  unfold passBroken
  cases broken with
  | true =>
      obtain rfl := hbroken rfl
      rw [Bool.not_true, Bool.and_false]
      refine (hitems.before _ (fun _ => proper_level true _) fun _ _ => rfl).after _
        (fun _ => proper_level true _) fun w parts => ?_
      rw [Layout.level_foldl_trailItems]
      rfl
  | false =>
      have hplain {walk : Pass PUnit} {trail : Writer → List Layout → List Motion}
          (h : Follows o pretty trail walk (ids.mapM rchild)) :
          Follows o pretty trail (do indent o false; walk; dedent o false) (ids.mapM rchild) :=
        (h.before _ (fun _ => proper_level false 0) fun _ _ => (List.append_nil _).symm).after _
          (fun _ => proper_level false 0) fun _ _ => rfl
      rw [Bool.not_false, Bool.and_true]
      refine hplain ?_
      cases htight : info.attrs.tight with
      | false => exact hitems
      | true =>
          cases ids with
          | nil =>
              refine Follows.congr hitems fun w parts r hparts => ?_
              obtain rfl := List.length_eq_zero_iff.1 (length_of_mapM hparts)
              rfl
          | cons id ids =>
              refine (heldItems_follows hchild info.attrs.separator id ids).congr
                fun w parts r hparts => ?_
              cases parts with
              | nil => exact absurd (length_of_mapM hparts) nofun
              | cons => rfl

/-- A list is measured as wide as it is on one line. -/
theorem isTooLong_outcome
    (hchild : ∀ id, Follows o false (Layout.trail o false) (child id) (rchild id))
    (separator : Option String) (ids : List NodeId) {s : PassState} {r : RenderState}
    (hbinds : s.binds = r.binds) (hregistry : r.registry.Agrees s.registry) :
    match (ids.mapM rchild r).1 with
    | .error e => e ≠ .capacity ∧ ∃ t, isTooLong o child separator ids s = (.error e, t) ∧
        t.flat = s.flat ∧ s.registry.Agrees t.registry
    | .ok parts => ∃ registry, s.registry.Agrees registry ∧
        isTooLong o child separator ids s =
          (.ok (decide (s.writer.column + Layout.flatWidth o.indentWidth separator parts >
            o.lineWidth)), { s with registry }) := by
  have hitems := passItems_follows false nofun hchild separator true ids
  obtain ⟨-, houtcome⟩ := hitems { s with flat := s.flat + 1, writer := {}, inks := [] } r hbinds
    hregistry (by simp) (Writer.steady_start false)
  rcases hm : ids.mapM rchild r with ⟨e | parts, r₁⟩
  · rw [hm] at houtcome
    obtain ⟨hnever, ⟨t, ht, hflat, ht', -⟩ | ⟨hpretty, -⟩⟩ := houtcome
    case inr => cases hpretty
    have hmeasure : measure (passItems o child separator false false true ids) s =
        (.error e, { t with
          binds := s.binds, flat := t.flat - 1, writer := s.writer, inks := s.inks }) := by
      rw [measure, ht]
      rfl
    refine ⟨hnever,
      { t with binds := s.binds, flat := t.flat - 1, writer := s.writer, inks := s.inks }, ?_,
      Nat.sub_eq_of_eq_add hflat, ht'⟩
    rw [isTooLong, Fallible.get_bind, Fallible.bind_of_error hmeasure]
  · rw [hm] at houtcome
    obtain ⟨hpretty, -⟩ | ⟨-, registry, hr, ht⟩ := houtcome
    case inl => cases hpretty
    have hwidth : ((Layout.trailItems o false false separator true {} parts).foldl
        (Writer.move o.indentWidth) {}).column =
          Layout.flatWidth o.indentWidth separator parts := by
      rw [Layout.flatWidth, Layout.writeFlatItems_eq]
      exact congrArg Writer.column List.foldl_map
    have hmeasure : measure (passItems o child separator false false true ids) s =
        (.ok (Layout.flatWidth o.indentWidth separator parts), { s with registry }) := by
      rw [measure, ht, ← hwidth]
      rfl
    refine ⟨registry, hr, ?_⟩
    rw [isTooLong, Fallible.get_bind, Fallible.bind_of_ok hmeasure]
    rfl

/-- A list that is measured first is broken up where its layout is. -/
theorem passMeasured_follows
    (hchild : ∀ pretty id, Follows o pretty (Layout.trail o pretty) (child id) (rchild id))
    (info : RuleInfo) {ids : List NodeId} (hmany : ids.length > 1) :
    Follows o true
      (fun w parts => Layout.trailList o true (Layout.isBroken o w info.attrs.separator parts)
        info.attrs.tight info.attrs.separator w parts)
      (do passBroken o child info ids (← isTooLong o child info.attrs.separator ids))
      (ids.mapM rchild) := by
  intro s r hbinds hregistry hpretty hsteady
  have hlong := isTooLong_outcome (hchild false) info.attrs.separator ids hbinds hregistry
  have hbroken (broken : Bool) := passBroken_follows (o := o) broken (fun _ => rfl)
    (hchild true) info ids
  refine ⟨(hbroken true s r hbinds hregistry hpretty hsteady).1, ?_⟩
  rcases hm : ids.mapM rchild r with ⟨e | parts, r₁⟩
  · rw [hm] at hlong
    obtain ⟨hnever, t, ht, hflat, ht'⟩ := hlong
    exact ⟨hnever, .inl ⟨t, Fallible.bind_of_error ht, hflat, ht', fun h => absurd h hnever⟩⟩
  · rw [hm] at hlong
    obtain ⟨registry, hr, ht⟩ := hlong
    obtain ⟨-, houtcome⟩ := hbroken (Layout.isBroken o s.writer info.attrs.separator parts)
      { s with registry } r hbinds (hregistry.trans hr) hpretty hsteady
    rw [hm] at houtcome
    have hlength : parts.length > 1 := length_of_mapM (congrArg Prod.fst hm) ▸ hmany
    have hsame : decide (s.writer.column +
        Layout.flatWidth o.indentWidth info.attrs.separator parts > o.lineWidth) =
          Layout.isBroken o s.writer info.attrs.separator parts := by
      rw [Layout.isBroken, decide_eq_true hlength, Bool.true_and]
    rw [hsame] at ht
    refine houtcome.imp (.imp_right (.imp_right (.after ht rfl hr _))) ?_
    rintro ⟨hsteady₂, registry₂, hr₂, ht₂⟩
    exact ⟨hsteady₂, registry₂, hr.trans hr₂, (Fallible.bind_of_ok ht).trans ht₂⟩

theorem passList_follows
    (hchild : ∀ pretty id, Follows o pretty (Layout.trail o pretty) (child id) (rchild id))
    (info : RuleInfo) (ids : List NodeId) :
    Follows o pretty (Layout.trail o pretty) (passList o child info ids) (do
      let parts ← ids.mapM rchild
      pure (.list info.attrs.newline info.attrs.tight info.attrs.separator parts)) := by
  refine Follows.isPretty ?_
  by_cases hlines : (pretty && info.attrs.newline) = true
  · rw [if_pos hlines]
    refine (passItems_follows true (fun _ => (Bool.and_eq_true_iff.1 hlines).1) (hchild pretty)
      info.attrs.separator true ids).map fun w parts => ?_
    rw [Layout.trail_list, if_pos hlines]
  · rw [if_neg hlines]
    by_cases hmany : (pretty && decide (ids.length > 1)) = true
    · rw [if_pos hmany]
      obtain ⟨rfl, hlength⟩ : pretty = true ∧ ids.length > 1 := by simpa using hmany
      refine (passMeasured_follows hchild info hlength).map fun w parts => ?_
      rw [Layout.trail_list, if_neg hlines, Bool.true_and]
    · rw [if_neg hmany]
      have hbroken := passBroken_follows false nofun (hchild pretty) info ids
      have hlist : Follows o pretty (fun w parts => Layout.trail o pretty w
          (.list info.attrs.newline info.attrs.tight info.attrs.separator parts))
          (passBroken o child info ids false) (ids.mapM rchild) := by
        refine hbroken.congr fun w parts r hparts => ?_
        have hstands : (pretty && Layout.isBroken o w info.attrs.separator parts) = false := by
          rw [Layout.isBroken, length_of_mapM hparts, ← Bool.and_assoc,
            Bool.eq_false_iff.2 hmany, Bool.false_and]
        rw [Layout.trail_list, if_neg hlines, hstands]
      exact hlist.map fun _ _ => rfl

variable {walkChild : Context → NodeId → Pass PUnit}
  {renderChild : Context → NodeId → Rendering Layout}

/-- Writing a node follows rendering it, in whatever context and on lines or not. -/
def FollowsNodes (o : FormatOptions) (walkChild : Context → NodeId → Pass PUnit)
    (renderChild : Context → NodeId → Rendering Layout) : Prop :=
  ∀ pretty context id,
    Follows o pretty (Layout.trail o pretty) (walkChild context id) (renderChild context id)

theorem passChildren_follows (hchild : FollowsNodes o walkChild renderChild) (info : RuleInfo)
    (name : String) :
    Follows o pretty (Layout.trail o pretty) (passChildren o walkChild frame info name)
      (Rendering.renderChildren renderChild frame info name) := by
  unfold passChildren Rendering.renderChildren
  cases frame.node.fields.lookup name with
  | none => exact follows_throw nofun
  | some value =>
      cases value with
      | terminal => exact follows_throw nofun
      | list ids => exact passList_follows (fun pretty id => hchild pretty .free id) info ids
      | node id =>
          refine ((hchild pretty (frame.childContext info name) id).after
            (fun _ => if info.attrs.tight then [.stroke .tight] else [])
            (fun _ => proper_hold _) fun _ _ => rfl).map fun w body => ?_
          cases info.attrs.tight with
          | false => rfl
          | true =>
              rw [if_pos rfl, if_pos rfl, Layout.trail_sequence, Layout.trailAll_cons,
                Layout.trail_tight, Layout.trailAll_cons, Layout.trailAll_nil, List.append_nil]

/-- The moves around an indented production. -/
theorem nested_follows (asked : Bool) (h : Follows o pretty (Layout.trail o pretty) walk m') :
    Follows o pretty (fun w l => Layout.trail o pretty w (if asked then .nested l else l))
      (do indent o (pretty && asked); walk; dedent o (pretty && asked)) m' := by
  cases hboth : pretty && asked with
  | false =>
      have hplain := h.before _ (fun _ => proper_level false 0) fun _ _ => (List.append_nil _).symm
      refine hplain.after _ (fun _ => proper_level false 0) fun w l => ?_
      cases asked with
      | false => rfl
      | true =>
          rw [Bool.and_true] at hboth
          rw [hboth]
          rfl
  | true =>
      obtain ⟨rfl, rfl⟩ := Bool.and_eq_true_iff.1 hboth
      refine (h.before _ (fun _ => proper_level true _) fun _ _ => rfl).after _
        (fun _ => proper_level true _) fun w l => ?_
      rw [Layout.level_foldl_trail]
      rfl

/-- Lines and levels around a production follow those around its layout. -/
theorem arranged_follows (attrs : RuleAttrs)
    (h : Follows o pretty (Layout.trail o pretty) walk m') :
    Follows o pretty (Layout.trail o pretty) (arranged o attrs walk)
      (do let body ← m'; pure (Rendering.arrange attrs body)) := by
  refine Follows.isPretty (((nested_follows attrs.indent h).after _ (fun w => ?_)
    fun _ _ => rfl).map fun w l => ?_)
  · exact ⟨by rintro rfl; simp, by simp⟩
  rw [Rendering.arrange]
  cases hline : attrs.newline && attrs.arity.isNone with
  | false =>
      rw [Bool.and_assoc, hline, Bool.and_false]
      rfl
  | true =>
      rw [Bool.and_assoc, hline, Bool.and_true, if_pos rfl, Layout.trail_sequence,
        Layout.trailAll_cons, Layout.trail_line, Layout.trailAll_cons, Layout.trailAll_nil,
        List.append_nil]

/-- A text in brackets. -/
theorem bracketed_follows (opener closer : String) (tight : Bool)
    (h : Follows o pretty (Layout.trail o pretty) walk m') :
    Follows o pretty (Layout.trail o pretty)
      (do emit o opener tight; walk; emit o closer false)
      (do let body ← m'; pure (.sequence [.token opener tight, body, .lexeme closer])) := by
  refine ((h.before _ (fun _ => proper_lexeme closer false) fun _ _ => rfl).after _
    (fun _ => proper_lexeme opener tight) fun _ _ => rfl).map fun w l => ?_
  have hopener : Layout.trail o pretty w (.token opener tight) = lexemeMoves opener tight := by
    cases pretty <;> cases tight <;> rfl
  rw [Layout.trail_sequence, Layout.trailAll_cons, hopener, Layout.trailAll_cons,
    Layout.trailAll_cons, Layout.trail_lexeme, Layout.trailAll_nil]
  rfl

mutual

/-- Writing a production follows rendering it. -/
theorem passRule_follows (hchild : FollowsNodes o walkChild renderChild) (frame : Frame)
    (p : Production) :
    Follows o pretty (Layout.trail o pretty) (passRule o d walkChild frame p)
      (Rendering.renderRule o d renderChild frame p) := by
  have hempty : Follows o pretty (Layout.trail o pretty) (pure ⟨⟩) (pure .empty) :=
    follows_pure fun w => (Layout.trail_sequence o pretty w []).trans (Layout.trailAll_nil o pretty w)
  rw [Rendering.renderRule_eq, passRule.eq_def]
  refine Follows.ite (fun _ => hempty) fun _ => arranged_follows p.attrs ?_
  match p with
  | .token info kinds values =>
      rcases info with ⟨⟨_ | name⟩, path, fields⟩
      · cases kinds with
        | nil => exact hempty
        | cons kind kinds =>
            cases values with
            | nil => exact hempty
            | cons value values => exact follows_emit _ _
      · exact passTerminal_follows _ name
  | .node info types climb =>
      rcases info with ⟨⟨_ | name⟩, path, fields⟩
      · exact hempty
      · exact passChildren_follows hchild _ name
  | .sequence info parts =>
      exact (passAll_follows hchild frame parts).map fun w parts => Layout.trail_sequence _ _ _ _
  | .alternatives info branches =>
      rcases info with ⟨⟨_ | name⟩, path, fields⟩
      · exact passFirst_follows hchild frame _ branches
      · exact passTerminal_follows _ name
  | .block info bracket inner =>
      refine Follows.ite (fun _ => hempty) fun _ =>
        Follows.ite (fun _ => passRule_follows hchild _ inner) fun _ => ?_
      exact bracketed_follows _ _ _ (passRule_follows hchild _ inner)

theorem passAll_follows (hchild : FollowsNodes o walkChild renderChild) (frame : Frame)
    (ps : List Production) :
    Follows o pretty (Layout.trailAll o pretty) (passAll o d walkChild frame ps)
      (Rendering.renderAll o d renderChild frame ps) := by
  match ps with
  | [] => exact follows_pure fun w => Layout.trailAll_nil o pretty w
  | p :: rest =>
      rw [passAll, Rendering.renderAll]
      exact (passRule_follows hchild frame p).seq (passAll_follows hchild frame rest) List.cons
        fun w part rest => Layout.trailAll_cons o pretty w part rest

theorem passFirst_follows (hchild : FollowsNodes o walkChild renderChild) (frame : Frame)
    (present : List String) (ps : List Production) :
    Follows o pretty (Layout.trail o pretty) (passFirst o d walkChild frame present ps)
      (Rendering.renderFirst o d renderChild frame present ps) := by
  match ps with
  | [] => exact follows_throw nofun
  | p :: rest =>
      rw [passFirst, Rendering.renderFirst]
      exact Follows.ite (fun _ => passRule_follows hchild frame p) fun _ =>
        passFirst_follows hchild frame present rest

end

theorem passShape_follows (hchild : FollowsNodes o walkChild renderChild) (node : Node)
    (context : Context) (operation : Option Operation) (root : Production) :
    Follows o pretty (Layout.trail o pretty)
      (passShape o d walkChild node context operation root)
      (Rendering.renderShape o d renderChild node context operation root) :=
  Follows.ite (fun _ => bracketed_follows "(" ")" false (passRule_follows hchild _ root))
    fun _ => passRule_follows hchild _ root

/-- Writing a node follows rendering it. -/
theorem passNode_follows (o : FormatOptions) (d : Dialect) (f : Forest) (depth : Nat) :
    FollowsNodes o (passNode o d f depth) (Rendering.renderNode o d f depth) := by
  induction depth with
  | zero => exact fun _ _ _ => follows_throw (by rintro ⟨⟩)
  | succ depth ih =>
      intro pretty context id
      rw [passNode, Rendering.renderNode]
      refine Follows.get fun s r hagrees => ?_
      dsimp only
      rw [hagrees.type?]
      cases r.registry.type? (f.tag id) with
      | none => exact follows_throw (by rintro ⟨⟩)
      | some nodeType =>
          refine (shares_schema (f.tag id) d).bind fun schema => ?_
          cases schema.root with
          | none => exact follows_throw (by rintro ⟨⟩)
          | some root => exact passShape_follows ih _ context _ root

/-! ### Layout options -/

/-- A tree is written in one pass as it is rendered and then printed. If it cannot
be rendered the pass fails with the same error, unless a line before was too wide,
at which the writer then stands. -/
theorem serialize_outcome (o : FormatOptions) (d : Dialect) (f : Forest) (id : NodeId)
    {s : PassState} (hflat : s.flat = 0) :
    match (Rendering.render o d f id { registry := s.registry }).1 with
    | .error e => e ≠ .capacity ∧ ∃ e' t, serialize o d f id s = (.error e', t) ∧ t.flat = 0 ∧
        (e' = e ∨ o.pretty = true ∧ e' = .capacity ∧
          Writer.indentation? t.writer.level o.indentWidth = none)
    | .ok l => ∃ t, serialize o d f id s = (l.print o, t) ∧ t.flat = 0 ∧
        (l.fits o = true → t.inks = l.inks o) ∧
        (l.fits o = false → Writer.indentation? t.writer.level o.indentWidth = none) := by
  obtain ⟨-, houtcome⟩ := passNode_follows o d f (f.size + 1) o.pretty .free id
    s.start { registry := s.registry } rfl (.refl _) (by simp [PassState.start, hflat])
    (Writer.steady_start o.pretty)
  have hfails {e : Error} (h : FailsWith o (passNode o d f (f.size + 1) .free id) s.start e) :
      ∃ t, serialize o d f id s = (.error e, t) ∧ t.flat = 0 ∧
        (e = .capacity → Writer.indentation? t.writer.level o.indentWidth = none) := by
    obtain ⟨t, ht, hflat', -, hwide⟩ := h
    exact ⟨t, by rw [serialize, Fallible.modify_bind, Fallible.bind_of_error ht],
      hflat'.trans hflat, hwide⟩
  rw [Rendering.render]
  rcases hm : Rendering.renderNode o d f (f.size + 1) .free id { registry := s.registry } with
    ⟨e | l, r⟩
  · rw [hm] at houtcome
    obtain ⟨hnever, hfailed | ⟨hpretty, hfailed⟩⟩ := houtcome
    · obtain ⟨t, ht, hflat', -⟩ := hfails hfailed
      exact ⟨hnever, e, t, ht, hflat', .inl rfl⟩
    · obtain ⟨t, ht, hflat', hwide⟩ := hfails hfailed
      exact ⟨hnever, _, t, ht, hflat', .inr ⟨hpretty, rfl, hwide rfl⟩⟩
  · rw [hm] at houtcome
    change (_ ∧ ((Layout.trail o o.pretty {} l).foldl (Writer.move o.indentWidth) {}).failed = _ ∧
      _) ∨ ((Layout.trail o o.pretty {} l).foldl (Writer.move o.indentWidth) {}).Steady _ ∧ _
      at houtcome
    rw [← Layout.write_eq] at houtcome
    obtain ⟨-, hfailed, hcapacity⟩ | ⟨hsteady, registry, -, ht⟩ := houtcome
    · have hfits : l.fits o = false := by rw [Layout.fits, hfailed, Bool.not_true]
      obtain ⟨t, ht, hflat', hwide⟩ := hfails hcapacity
      refine ⟨t, ht.trans ?_, hflat', fun h => absurd (hfits.symm.trans h) Bool.false_ne_true,
        fun _ => hwide rfl⟩
      rw [Layout.print_eq_error.2 ⟨hfits, rfl⟩]
    · have hfits : l.fits o = true := by rw [Layout.fits, hsteady.going, Bool.not_false]
      refine ⟨{ s.start.follow o.indentWidth (Layout.trail o o.pretty {} l) with
        binds := r.binds, registry }, ?_, hflat, fun _ => rfl,
        fun h => absurd (h.symm.trans hfits) Bool.false_ne_true⟩
      rw [serialize, Fallible.modify_bind, Fallible.bind_of_ok ht, Fallible.get_bind,
        Layout.print_eq_ok.2 ⟨hfits, rfl⟩, Layout.toText, Layout.write_eq]
      rfl

end Pass

namespace Rendering

variable {o o' : FormatOptions} {d : Dialect}

theorem renderTerminal_congr (hcase : o.keywordCase = o'.keywordCase) (frame : Frame)
    (info : RuleInfo) (name : String) :
    renderTerminal o d frame info name = renderTerminal o' d frame info name := by
  simp only [renderTerminal, spell, hcase]

mutual

/-- Of the choices in writing a tree the layout depends on brackets and letter
case only. -/
theorem renderRule_congr (hparens : o.minimalParens = o'.minimalParens)
    (hcase : o.keywordCase = o'.keywordCase) (child : Context → NodeId → Rendering Layout)
    (frame : Frame) (p : Production) :
    renderRule o d child frame p = renderRule o' d child frame p := by
  rw [renderRule_eq, renderRule_eq]
  have hbody : renderBody o d child frame p = renderBody o' d child frame p := by
    match p with
    | .token info kinds values =>
        simp only [renderBody, renderTerminal_congr hcase, hcase]
    | .node info types climb => rfl
    | .sequence info parts =>
        simp only [renderBody, renderAll_congr hparens hcase child frame parts]
    | .alternatives info branches =>
        simp only [renderBody, renderTerminal_congr hcase,
          renderFirst_congr hparens hcase child frame _ branches]
    | .block info bracket inner =>
        simp only [renderBody, hparens, renderRule_congr hparens hcase child _ inner]
  rw [hbody]

theorem renderAll_congr (hparens : o.minimalParens = o'.minimalParens)
    (hcase : o.keywordCase = o'.keywordCase) (child : Context → NodeId → Rendering Layout)
    (frame : Frame) (ps : List Production) :
    renderAll o d child frame ps = renderAll o' d child frame ps := by
  match ps with
  | [] => rfl
  | p :: rest =>
      rw [renderAll, renderAll, renderRule_congr hparens hcase child frame p,
        renderAll_congr hparens hcase child frame rest]

theorem renderFirst_congr (hparens : o.minimalParens = o'.minimalParens)
    (hcase : o.keywordCase = o'.keywordCase) (child : Context → NodeId → Rendering Layout)
    (frame : Frame) (present : List String) (ps : List Production) :
    renderFirst o d child frame present ps = renderFirst o' d child frame present ps := by
  match ps with
  | [] => rfl
  | p :: rest =>
      rw [renderFirst, renderFirst, renderRule_congr hparens hcase child frame p,
        renderFirst_congr hparens hcase child frame present rest]

end

theorem renderNode_congr (hparens : o.minimalParens = o'.minimalParens)
    (hcase : o.keywordCase = o'.keywordCase) (f : Forest) (depth : Nat) :
    renderNode o d f depth = renderNode o' d f depth := by
  induction depth with
  | zero => rfl
  | succ depth ih =>
      funext context id
      simp only [renderNode, ih, renderRule_congr hparens hcase]

end Rendering

namespace Pass

/-- A pass breaks off in the pretty form only, at a line that is too wide, and of what
can be rendered a line at one of its levels is. -/
theorem wide_of_capacity (o : FormatOptions) (d : Dialect) (f : Forest) (id : NodeId)
    {s t : PassState} (hflat : s.flat = 0) (h : serialize o d f id s = (.error .capacity, t)) :
    o.pretty = true ∧ Writer.indentation? t.writer.level o.indentWidth = none ∧
      ∀ l, (Rendering.render o d f id { registry := s.registry }).1 = .ok l →
        ∃ level ≤ l.depth, Writer.indentation? level o.indentWidth = none := by
  have hrun := serialize_outcome o d f id hflat
  rw [h] at hrun
  cases hrender : (Rendering.render o d f id { registry := s.registry }).1 with
  | error e =>
      rw [hrender] at hrun
      obtain ⟨hnever, e', t', ht, -, rfl | ⟨hpretty, -, hwide⟩⟩ := hrun
      · obtain ⟨he, rfl⟩ := Prod.mk.inj ht
        exact absurd (Except.error.inj he).symm hnever
      · obtain ⟨-, rfl⟩ := Prod.mk.inj ht
        exact ⟨hpretty, hwide, nofun⟩
  | ok l =>
      rw [hrender] at hrun
      obtain ⟨t', ht, -, -, hwide⟩ := hrun
      obtain ⟨hprint, rfl⟩ := Prod.mk.inj ht
      have hfits := (Layout.print_eq_error.1 hprint.symm).1
      obtain ⟨hpretty, hlevel⟩ := Layout.exists_wide_of_fits hfits
      refine ⟨hpretty, hwide hfits, fun l' hl' => ?_⟩
      obtain rfl := Except.ok.inj hl'
      exact hlevel

/-- Choices about lines and blanks change nothing but what stands between
lexemes. With either choice a tree fails to be written with the same error, or
the same lexemes are given to the writer; where one of them stands behind a
blank on one line, a blank or a line end stands before it in the pretty form.
Only a line of the pretty form that is too wide breaks the writing off, and the
writer is left at its level. -/
theorem serialize_options {o o' : FormatOptions} (hparens : o.minimalParens = o'.minimalParens)
    (hcase : o.keywordCase = o'.keywordCase) (d : Dialect) (f : Forest) (id : NodeId)
    {s : PassState} (hflat : s.flat = 0) :
    (∀ q ∈ [o, o'], ∀ t, serialize q d f id s = (.error .capacity, t) → q.pretty = true ∧
      Writer.indentation? t.writer.level q.indentWidth = none ∧
      ∀ l, (Rendering.render q d f id { registry := s.registry }).1 = .ok l →
        ∃ level ≤ l.depth, Writer.indentation? level q.indentWidth = none) ∧
    ((serialize o d f id s).1 ≠ .error .capacity → (serialize o' d f id s).1 ≠ .error .capacity →
      (∃ e t t', serialize o d f id s = (.error e, t) ∧ serialize o' d f id s = (.error e, t') ∧
        (Rendering.render o d f id { registry := s.registry }).1 = .error e ∧
        (Rendering.render o' d f id { registry := s.registry }).1 = .error e) ∨
      ∃ l t t', serialize o d f id s = (.ok (l.toText o), t) ∧
        serialize o' d f id s = (.ok (l.toText o'), t') ∧
        (Rendering.render o d f id { registry := s.registry }).1 = .ok l ∧
        (Rendering.render o' d f id { registry := s.registry }).1 = .ok l ∧
        t.inks.map Ink.text = t'.inks.map Ink.text ∧
        Ink.Write t.inks (l.toText o) ∧ Ink.Write t'.inks (l.toText o') ∧
        (o.pretty = false → o'.pretty = true →
          List.Forall₂ Ink.Spaced (Ink.visible [] t.inks) (Ink.visible [] t'.inks))) := by
  refine ⟨fun q _ t => wide_of_capacity q d f id hflat, fun hwhole hwhole' => ?_⟩
  have hsame : Rendering.render o d f id = Rendering.render o' d f id := by
    rw [Rendering.render, Rendering.render, Rendering.renderNode_congr hparens hcase]
  have hrun := serialize_outcome o d f id hflat
  have hrun' := serialize_outcome o' d f id hflat
  rw [hsame] at hrun ⊢
  cases hrender : (Rendering.render o' d f id { registry := s.registry }).1 with
  | error e =>
      rw [hrender] at hrun hrun'
      obtain ⟨-, e₁, t, ht, -, rfl | ⟨-, rfl, -⟩⟩ := hrun
      · obtain ⟨-, e₂, t', ht', -, rfl | ⟨-, rfl, -⟩⟩ := hrun'
        · exact .inl ⟨_, t, t', ht, ht', rfl, rfl⟩
        · exact absurd (congrArg Prod.fst ht') hwhole'
      · exact absurd (congrArg Prod.fst ht) hwhole
  | ok l =>
      rw [hrender] at hrun hrun'
      obtain ⟨t, ht, -, hinks, -⟩ := hrun
      obtain ⟨t', ht', -, hinks', -⟩ := hrun'
      have hfits {q : FormatOptions} {t : PassState} (hq : serialize q d f id s = (l.print q, t))
          (hwhole : (serialize q d f id s).1 ≠ .error .capacity) : l.fits q = true := by
        by_contra hwide
        rw [hq] at hwhole
        exact hwhole (Layout.print_eq_error.2 ⟨Bool.eq_false_iff.2 hwide, rfl⟩)
      replace hinks := hinks (hfits ht hwhole)
      replace hinks' := hinks' (hfits ht' hwhole')
      rw [Layout.print_eq_ok.2 ⟨hfits ht hwhole, rfl⟩] at ht
      rw [Layout.print_eq_ok.2 ⟨hfits ht' hwhole', rfl⟩] at ht'
      refine .inr ⟨l, t, t', ht, ht', rfl, rfl, ?_⟩
      rw [hinks, hinks']
      exact ⟨(l.text_inks o).trans (l.text_inks o').symm, l.inks_write o, l.inks_write o',
        fun ho ho' => Layout.visible_inks ho ho' l⟩

/-- Lines are too wide for a machine word of which the first bit is set. -/
def overwide : FormatOptions :=
  { pretty := true, indentWidth := 0xFFFFFFFFFFFFFFFF, lineWidth := 8 }

/-- A list that stands on one line, that is broken up, and that is to be indented further
than it can be. -/
theorem serialize_list : ∃ t, Tree.parse .mysql "select a, b" = .ok t ∧
    (serialize {} .mysql t.forest t.root { registry := Standard.registry }).1 =
      .ok "SELECT a, b" ∧
    (serialize { pretty := true, lineWidth := 8 } .mysql t.forest t.root
      { registry := Standard.registry }).1 = .ok "SELECT\n    a,\n    b" ∧
    (serialize overwide .mysql t.forest t.root { registry := Standard.registry }).1 =
      .error .capacity := by
  -- The kernel parses the text once for all of these.
  have hfacts : ((Tree.parse .mysql "select a, b").toOption.any fun t =>
      decide ((serialize {} .mysql t.forest t.root { registry := Standard.registry }).1 =
        .ok "SELECT a, b") &&
      decide ((serialize { pretty := true, lineWidth := 8 } .mysql t.forest t.root
        { registry := Standard.registry }).1 = .ok "SELECT\n    a,\n    b") &&
      decide ((serialize overwide .mysql t.forest t.root { registry := Standard.registry }).1 =
        .error .capacity)) = true := by
    unfold Tree.parse Tree.parseAs Tree.parseChunks Tree.parseSource
    rw [Standard.registry_eq]
    decide +kernel
  cases ht : Tree.parse .mysql "select a, b" with
  | error e =>
      rw [ht] at hfacts
      cases hfacts
  | ok t =>
      rw [ht] at hfacts
      simp only [Except.toOption, Option.any_some, Bool.and_eq_true, decide_eq_true_eq] at hfacts
      exact ⟨t, rfl, hfacts.1.1, hfacts.1.2, hfacts.2⟩

/-- A list that stands on one line or is broken up. -/
theorem serialize_options_list :
    ∃ t s s', Tree.parse .mysql "select a, b" = .ok t ∧
      serialize {} .mysql t.forest t.root { registry := Standard.registry } =
        (.ok "SELECT a, b", s) ∧
      serialize { pretty := true, lineWidth := 8 } .mysql t.forest t.root
        { registry := Standard.registry } = (.ok "SELECT\n    a,\n    b", s') ∧
      s.inks.map Ink.text = s'.inks.map Ink.text ∧
      List.Forall₂ Ink.Spaced (Ink.visible [] s.inks) (Ink.visible [] s'.inks) := by
  obtain ⟨t, ht, hflat, hpretty, -⟩ := serialize_list
  rcases (@serialize_options {} { pretty := true, lineWidth := 8 } rfl rfl .mysql t.forest t.root
      { registry := Standard.registry } rfl).2 (by rw [hflat]; nofun) (by rw [hpretty]; nofun) with
    ⟨e, s, s', hs, -⟩ | ⟨l, s, s', hs, hs', -, -, htexts, -, -, hgaps⟩
  · rw [hs] at hflat
    cases hflat
  · rw [hs] at hflat
    rw [hs'] at hpretty
    exact ⟨t, s, s', ht, Except.ok.inj hflat ▸ hs, Except.ok.inj hpretty ▸ hs', htexts,
      hgaps rfl rfl⟩

/-- On one line a list is written; in the pretty form it is not, where a level is to be
indented further than a text can be long. -/
theorem wide_indentation_breaks_off :
    ∃ t, Tree.parse .mysql "select a, b" = .ok t ∧
      (serialize {} .mysql t.forest t.root { registry := Standard.registry }).1 =
        .ok "SELECT a, b" ∧
      (serialize overwide .mysql t.forest t.root { registry := Standard.registry }).1 =
        .error .capacity := by
  obtain ⟨t, ht, hflat, -, hwide⟩ := serialize_list
  exact ⟨t, ht, hflat, hwide⟩

end Pass

end DualSql
