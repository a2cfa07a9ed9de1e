import DualSql.Grammar.Rendering
import DualSql.Proofs.Fallible
import DualSql.Proofs.Grammar.Cache
import DualSql.Proofs.Grammar.Outline

/-! # What is written for a tree

Rendering without a forest, without a cache and without a count of the
placeholders: a function from a tree to the pieces that are written for it.
Rendering a node writes the pieces of its tree, one lexeme for each.

Main definitions: `Piece` and the functions of `Writing`, one for each function
of the renderer. Main result: `Writing.renderNode_writes`.

## Implementation notes

Only rendering with the default choices is followed: keywords in upper case,
and no brackets left out. -/

namespace DualSql

/-- A piece of what is written: a text, or a placeholder that is yet to be
numbered. -/
inductive Piece where
  | text (text : String)
  | placeholder (value : String)
  deriving DecidableEq

namespace Piece

/-- The lexemes of pieces after some placeholders. -/
def spell (d : Dialect) (binds : Nat) : List Piece → Except RenderError (List String)
  | [] => .ok []
  | text s :: rest => (spell d binds rest).map (s :: ·)
  | placeholder value :: rest =>
    match bindSpelling d (binds + 1) value with
    | .error e => .error e
    | .ok s => (spell d (binds + 1) rest).map (s :: ·)

/-- The number of placeholders. -/
def binds (pieces : List Piece) : Nat :=
  pieces.countP fun p => p matches placeholder _

theorem binds_append (a b : List Piece) : binds (a ++ b) = binds a + binds b :=
  List.countP_append ..

theorem spell_append {d : Dialect} {n : Nat} {a b : List Piece} {texts : List String}
    (h : spell d n (a ++ b) = .ok texts) :
    ∃ xs ys, spell d n a = .ok xs ∧ spell d (n + binds a) b = .ok ys ∧ texts = xs ++ ys := by
  induction a generalizing n texts with
  | nil => exact ⟨[], texts, rfl, h, rfl⟩
  | cons p a ih =>
      cases p with
      | text s =>
          rw [List.cons_append, spell] at h
          cases hrest : spell d n (a ++ b) with
          | error e =>
              rw [hrest] at h
              cases h
          | ok rest =>
              rw [hrest] at h
              cases h
              obtain ⟨xs, ys, hx, hy, rfl⟩ := ih hrest
              refine ⟨s :: xs, ys, by rw [spell, hx]; rfl, ?_, rfl⟩
              simpa [binds] using hy
      | placeholder value =>
          rw [List.cons_append, spell] at h
          cases hs : bindSpelling d (n + 1) value with
          | error e =>
              rw [hs] at h
              cases h
          | ok s =>
              rw [hs] at h
              cases hrest : spell d (n + 1) (a ++ b) with
              | error e =>
                  rw [hrest] at h
                  cases h
              | ok rest =>
                  rw [hrest] at h
                  cases h
                  obtain ⟨xs, ys, hx, hy, rfl⟩ := ih hrest
                  refine ⟨s :: xs, ys, by rw [spell, hs, hx]; rfl, ?_, rfl⟩
                  have hcount : n + binds (placeholder value :: a) = n + 1 + binds a := by
                    simp only [binds, List.countP_cons, if_true]
                    omega
                  rwa [hcount]

end Piece

/-- The piece that is written for a terminal. -/
def Terminal.piece (d : Dialect) (t : Terminal) : Piece :=
  if t.kind = .bindVariable then .placeholder t.value
  else
    match t.spelling .upper d 0 with
    | .ok text => .text text
    | .error _ => .text ""

/-- The spelling of a terminal that is no placeholder does not depend on its place. -/
theorem Terminal.spelling_of_ne {d : Dialect} {t : Terminal} (h : t.kind ≠ .bindVariable)
    (position : Nat) : ∃ text, t.spelling .upper d position = .ok text ∧ t.piece d = .text text := by
  obtain ⟨kind, value, quoted, modifier, place⟩ := t
  cases kind <;> first | exact absurd rfl h | exact ⟨_, rfl, rfl⟩

/-- The tree that is being written and what its parts need to know. -/
structure Scene where
  fields : Parts
  context : Context
  operation : Option Operation

namespace Scene

/-- Whether the tree has a field. -/
def has (scene : Scene) (name : String) : Bool :=
  (scene.fields.lookup name).isSome

/-- The context of the child in a field. -/
def childContext (scene : Scene) (info : RuleInfo) (name : String) : Context :=
  ({ node := ⟨"", [], none⟩, context := scene.context, operation := scene.operation } :
    Frame).childContext info name

end Scene

namespace Writing

/-- The pieces of items with a separator between them. -/
def between (separator : Option String) : List (List Piece) → List Piece
  | [] => []
  | first :: rest => first ++ rest.flatMap fun item => (separator.map Piece.text).toList ++ item

/-- The pieces of items, given those of each. -/
def items (child : Content → Option (List Piece)) (separator : Option String)
    (xs : List Content) : Option (List Piece) :=
  (xs.mapM child).map (between separator)

variable (d : Dialect) (child : Context → Content → Option (List Piece))

/-- The piece of the terminal in a field. -/
def terminal (scene : Scene) (name : String) : Option (List Piece) :=
  match scene.fields.lookup name with
  | some (.terminal t) => some [t.piece d]
  | _ => none

/-- The pieces of the children in a field. -/
def children (scene : Scene) (info : RuleInfo) (name : String) : Option (List Piece) :=
  match scene.fields.lookup name with
  | some (.node tag fields) => child (scene.childContext info name) (.node tag fields)
  | some (.list xs) => items (child .free) info.attrs.separator xs
  | _ => none

mutual

/-- The pieces of a production. -/
def rule (scene : Scene) (p : Production) : Option (List Piece) :=
  if p.isSkipped scene.has then some []
  else
    match p with
    | .token info kinds values =>
      match info.attrs.name, kinds, values with
      | some name, _, _ => terminal d scene name
      | none, kind :: _, value :: _ => some [.text (fixedSpelling .upper kind value)]
      | none, _, _ => some []
    | .node info _ _ =>
      match info.attrs.name with
      | some name => children child scene info name
      | none => some []
    | .sequence _ parts => all scene parts
    | .alternatives info branches =>
      match info.attrs.name with
      | some name => terminal d scene name
      | none => first scene (info.fields.filter scene.has) branches
    | .block info bracket inner =>
      if info.attrs.optionalParens && !inner.info.fields.any scene.has then some []
      else
        (rule { scene with context := .free } inner).map fun body =>
          .text bracket.opener.toString :: (body ++ [.text bracket.closer.toString])

/-- The pieces of productions one after the other. -/
def all (scene : Scene) : List Production → Option (List Piece)
  | [] => some []
  | p :: rest => do return (← rule scene p) ++ (← all scene rest)

/-- The pieces of the first production that has a place for all present fields. -/
def first (scene : Scene) (present : List String) : List Production → Option (List Piece)
  | [] => none
  | p :: rest =>
    if present.all p.info.fields.contains && p.fits scene.has then rule scene p
    else first scene present rest

end

/-- The pieces of a production that is not passed over. -/
def body (scene : Scene) (p : Production) : Option (List Piece) :=
  match p with
  | .token info kinds values =>
    match info.attrs.name, kinds, values with
    | some name, _, _ => terminal d scene name
    | none, kind :: _, value :: _ => some [.text (fixedSpelling .upper kind value)]
    | none, _, _ => some []
  | .node info _ _ =>
    match info.attrs.name with
    | some name => children child scene info name
    | none => some []
  | .sequence _ parts => all d child scene parts
  | .alternatives info branches =>
    match info.attrs.name with
    | some name => terminal d scene name
    | none => first d child scene (info.fields.filter scene.has) branches
  | .block info bracket inner =>
    if info.attrs.optionalParens && !inner.info.fields.any scene.has then some []
    else
      (rule d child { scene with context := .free } inner).map fun body =>
        .text bracket.opener.toString :: (body ++ [.text bracket.closer.toString])

theorem rule_eq (scene : Scene) (p : Production) :
    rule d child scene p =
      if p.isSkipped scene.has then some [] else body d child scene p := by
  rw [rule.eq_def]
  cases p <;> rfl

/-- The pieces of a tree by the production of its type, in brackets if it needs
them. -/
def shape (fields : Parts) (context : Context) (operation : Option Operation)
    (root : Production) : Option (List Piece) :=
  if Rendering.needsBrackets root operation context then
    (rule d child ⟨fields, .free, operation⟩ root).map fun body =>
      .text "(" :: (body ++ [.text ")"])
  else rule d child ⟨fields, context, operation⟩ root

end Writing

namespace Outline

/-- How a tree of a climbing type combines its operands. -/
def operation (d : Dialect) (fields : Parts) (climb : Climb) : Operation :=
  match fields.lookup climb.operator with
  | some (.terminal t) =>
    match Rendering.operatorInfo? d d (some (.terminal t)) with
    | some info => ⟨climb, info.precedence, info.associativity⟩
    | none => ⟨climb, Vocabulary.otherLevel, .left⟩
  | _ => ⟨climb, Vocabulary.otherLevel, .left⟩

/-- The pieces of a tree, down to a depth. -/
def write (o : Outline) : Nat → Context → Content → Option (List Piece)
  | depth + 1, context, .node tag fields =>
    match o.registry.type? tag, (o.registry.schema tag o.options.dialect).1 with
    | some nodeType, .ok schema =>
      schema.root.bind <| Writing.shape o.options.dialect (o.write depth) fields context
        (nodeType.climb?.map (operation o.options.dialect fields))
    | _, _ => none
  | _, _, _ => none

end Outline

namespace Rendering

/-- What is written for a production that is not passed over. -/
def renderBody (o : FormatOptions) (d : Dialect) (child : Context → NodeId → Rendering Layout)
    (frame : Frame) (p : Production) : Rendering Layout :=
  match p with
  | .token info kinds values =>
    match info.attrs.name, kinds, values with
    | some name, _, _ => renderTerminal o d frame info name
    | none, kind :: _, value :: _ =>
      pure (.token (fixedSpelling o.keywordCase kind value) info.attrs.tight)
    | none, _, _ => pure .empty
  | .node info _ _ =>
    match info.attrs.name with
    | some name => renderChildren child frame info name
    | none => pure .empty
  | .sequence _ parts => do pure (.sequence (← renderAll o d child frame parts))
  | .alternatives info branches =>
    match info.attrs.name with
    | some name => renderTerminal o d frame info name
    | none => renderFirst o d child frame (info.fields.filter frame.has) branches
  | .block info bracket inner =>
    if info.attrs.optionalParens && !inner.info.fields.any frame.has then pure .empty
    else if info.attrs.optionalParens && o.minimalParens then
      renderRule o d child { frame with exposed := true } inner
    else do
      let body ← renderRule o d child { frame with context := .free, exposed := false } inner
      pure (.sequence [.token bracket.opener.toString info.attrs.tight, body,
        .lexeme bracket.closer.toString])

/-- Writes a node by the production of its type, in brackets if it needs them. -/
def renderShape (o : FormatOptions) (d : Dialect) (child : Context → NodeId → Rendering Layout)
    (node : Node) (context : Context) (operation : Option Operation) (root : Production) :
    Rendering Layout := do
  if needsBrackets root operation context then
    let body ← renderRule o d child { node, context := .free, operation } root
    return .sequence [.lexeme "(", body, .lexeme ")"]
  else renderRule o d child { node, context, operation } root

theorem renderRule_eq (o : FormatOptions) (d : Dialect)
    (child : Context → NodeId → Rendering Layout) (frame : Frame) (p : Production) :
    renderRule o d child frame p =
      if p.isSkipped frame.has then pure .empty
      else (do
        let body ← renderBody o d child frame p
        pure (arrange p.attrs body)) := by
  cases p with
  | token info kinds values =>
      rw [renderRule]
      rcases info with ⟨⟨_ | name⟩, path, fields⟩
      · cases kinds <;> cases values <;> rfl
      · rfl
  | node info types climb =>
      rw [renderRule, renderBody]
      rcases info with ⟨⟨_ | name⟩, path, fields⟩ <;> rfl
  | sequence info parts =>
      rw [renderRule, renderBody]
      simp only [bind_assoc]
  | alternatives info branches =>
      rw [renderRule, renderBody]
      rcases info with ⟨⟨_ | name⟩, path, fields⟩ <;> rfl
  | block info bracket inner =>
      rw [renderRule, renderBody]
      split
      · rfl
      · dsimp only
        split
        · rfl
        · split
          · rfl
          · simp only [bind_assoc]

end Rendering

/-! ### Rendering writes the pieces of a tree -/

namespace Writing

open Fallible

variable {o : Outline} {α β γ : Type} {f : α → List String} {g : β → List String}
  {h : γ → List String} {m : Rendering α} {n : Rendering β} {p q : List Piece}

/-- A computation writes pieces if it succeeds wherever they can be spelled,
and gives their lexemes. -/
def Writes (o : Outline) (view : α → List String) (m : Rendering α) (pieces : List Piece) : Prop :=
  ∀ (s : RenderState) (texts : List String), o.registry.Agrees s.registry →
    Piece.spell o.options.dialect s.binds pieces = .ok texts →
    ∃ a s', m s = (.ok a, s') ∧ view a = texts ∧ s'.binds = s.binds + Piece.binds pieces ∧
      o.registry.Agrees s'.registry

theorem writes_nil {a : α} (hf : f a = []) : Writes o f (pure a) [] := by
  intro s texts agrees hs
  cases hs
  exact ⟨a, s, rfl, hf, rfl, agrees⟩

theorem writes_text {a : α} {text : String} (hf : f a = [text]) :
    Writes o f (pure a) [.text text] := by
  intro s texts agrees hs
  cases hs
  exact ⟨a, s, rfl, hf, rfl, agrees⟩

theorem Writes.andThen (hm : Writes o f m p) (hn : Writes o g n q) (c : α → β → γ)
    (hc : ∀ a b, h (c a b) = f a ++ g b) :
    Writes o h (do let a ← m; let b ← n; pure (c a b)) (p ++ q) := by
  intro s texts agrees hs
  obtain ⟨xs, ys, hx, hy, rfl⟩ := Piece.spell_append hs
  obtain ⟨a, s₁, hm, rfl, hbinds₁, agrees₁⟩ := hm s xs agrees hx
  rw [← hbinds₁] at hy
  obtain ⟨b, s₂, hn, rfl, hbinds₂, agrees₂⟩ := hn s₁ ys agrees₁ hy
  refine ⟨c a b, s₂, ?_, hc a b, ?_, agrees₂⟩
  · simp only [bind_eq_ok, pure_eq_ok]
    exact ⟨a, s₁, hm, b, s₂, hn, rfl, rfl⟩
  · rw [hbinds₂, hbinds₁, Piece.binds_append]
    omega

theorem Writes.map (hm : Writes o f m p) (c : α → β) (hc : ∀ a, g (c a) = f a) :
    Writes o g (do let a ← m; pure (c a)) p := by
  intro s texts agrees hs
  obtain ⟨a, s₁, hm, rfl, hbinds, agrees₁⟩ := hm s texts agrees hs
  refine ⟨c a, s₁, ?_, hc a, hbinds, agrees₁⟩
  simp only [bind_eq_ok, pure_eq_ok]
  exact ⟨a, s₁, hm, rfl, rfl⟩

/-- Text around what is written. -/
theorem Writes.wrap (hm : Writes o f m p) {before after : String} (c : α → β)
    (hc : ∀ a, g (c a) = before :: (f a ++ [after])) :
    Writes o g (do let a ← m; pure (c a)) (.text before :: (p ++ [.text after])) := by
  intro s texts agrees hs
  obtain ⟨xs, rest, hx, hrest, rfl⟩ := Piece.spell_append (a := [.text before]) hs
  obtain ⟨ys, zs, hy, hz, rfl⟩ := Piece.spell_append hrest
  cases hx
  cases hz
  obtain ⟨a, s₁, hm, rfl, hbinds, agrees₁⟩ := hm s ys agrees hy
  refine ⟨c a, s₁, ?_, hc a, ?_, agrees₁⟩
  · simp only [bind_eq_ok, pure_eq_ok]
    exact ⟨a, s₁, hm, rfl, rfl⟩
  · rw [hbinds]
    simp [Piece.binds]

/-- Text before what is written, if there is any. -/
theorem Writes.led (hm : Writes o f m p) (before : Option String) :
    Writes o (fun a => before.toList ++ f a) m ((before.map Piece.text).toList ++ p) := by
  cases before with
  | none => exact hm
  | some text =>
      intro s texts agrees hs
      obtain ⟨xs, ys, hx, hy, rfl⟩ := Piece.spell_append (a := [.text text]) hs
      cases hx
      obtain ⟨a, s₁, hm, rfl, hbinds, agrees₁⟩ := hm s ys agrees hy
      exact ⟨a, s₁, hm, rfl, by simpa [Piece.binds] using hbinds, agrees₁⟩

/-! ### Lexemes of layouts -/

theorem lexemes_token (text : String) (tight : Bool) :
    (Layout.token text tight).lexemes = [text] := by
  cases tight <;> simp [Layout.token, Layout.lexemes, Layout.lexemesAll]

theorem lexemes_arrange (attrs : RuleAttrs) (body : Layout) :
    (Rendering.arrange attrs body).lexemes = body.lexemes := by
  unfold Rendering.arrange
  cases attrs.indent <;> cases attrs.newline && attrs.arity.isNone <;>
    simp [Layout.lexemes, Layout.lexemesAll]

/-! ### The functions of the renderer -/

section refinement

variable {forest : Forest} {frame : Frame} {scene : Scene}
  {child : Context → Content → Option (List Piece)}
  {render : Context → NodeId → Rendering Layout}

/-- A frame and a scene show the same tree. -/
structure Shows (forest : Forest) (frame : Frame) (scene : Scene) : Prop where
  fields : scene.fields = frame.node.fields.contents forest.content
  context : scene.context = frame.context
  operation : scene.operation = frame.operation
  closed : frame.exposed = false

theorem Shows.has (hs : Shows forest frame scene) : frame.has = scene.has := by
  funext name
  simp [Frame.has, Scene.has, hs.fields, Forest.lookup_contents]

theorem Shows.childContext (hs : Shows forest frame scene) (info : RuleInfo) (name : String) :
    frame.childContext info name = scene.childContext info name := by
  simp only [Frame.childContext, Scene.childContext, hs.context, hs.operation, hs.closed]

theorem Shows.free (hs : Shows forest frame scene) :
    Shows forest { frame with context := .free, exposed := false } { scene with context := .free } :=
  ⟨hs.fields, rfl, hs.operation, rfl⟩

theorem spell_writes (t : Terminal) :
    Writes o (fun text => [text]) (Rendering.spell {} o.options.dialect t)
      [t.piece o.options.dialect] := by
  intro s texts agrees hs
  by_cases hkind : t.kind = .bindVariable
  · rw [Terminal.piece, if_pos hkind, Piece.spell] at hs
    cases htext : bindSpelling o.options.dialect (s.binds + 1) t.value with
    | error e =>
        rw [htext] at hs
        cases hs
    | ok text =>
        rw [htext] at hs
        cases hs
        refine ⟨text, { s with binds := s.binds + 1 }, ?_, rfl, ?_, agrees⟩
        · have hspelling : t.spelling .upper o.options.dialect (s.binds + 1) = .ok text := by
            simp only [Terminal.spelling, hkind, htext]
          simp only [Rendering.spell, hkind, if_true, bind_eq_ok, modify_eq_ok, get_eq_ok]
          refine ⟨⟨⟩, { s with binds := s.binds + 1 }, rfl, _, _, ⟨rfl, rfl⟩, ?_⟩
          simp only [hspelling, pure_eq_ok, and_self]
        · simp [Terminal.piece, hkind, Piece.binds]
  · obtain ⟨text, hspelling, hpiece⟩ := Terminal.spelling_of_ne (d := o.options.dialect) hkind s.binds
    rw [hpiece] at hs
    cases hs
    refine ⟨text, s, ?_, rfl, by simp [hpiece, Piece.binds], agrees⟩
    simp only [Rendering.spell, hkind, if_false, bind_eq_ok, get_eq_ok]
    refine ⟨s, s, ⟨rfl, rfl⟩, ?_⟩
    simp only [hspelling, pure_eq_ok, and_self]

theorem terminal_writes (hs : Shows forest frame scene) {info : RuleInfo} {name : String}
    {pieces : List Piece} (hw : terminal o.options.dialect scene name = some pieces) :
    Writes o Layout.lexemes
      (Rendering.renderTerminal {} o.options.dialect frame info name) pieces := by
  unfold terminal at hw
  rw [hs.fields, Forest.lookup_contents] at hw
  unfold Rendering.renderTerminal
  cases hl : frame.node.fields.lookup name with
  | none => simp [hl] at hw
  | some value =>
      cases value with
      | terminal t =>
          obtain rfl : [t.piece o.options.dialect] = pieces := by
            simpa [hl, FieldValue.content] using hw
          exact (spell_writes t).map _ fun text => lexemes_token text _
      | node id => simp [hl, FieldValue.content, Forest.content, Forest.contentTo] at hw
      | list ids => simp [hl, FieldValue.content] at hw

/-- Writing items with something before each. -/
theorem mapM_writes {xs : List NodeId} {parts : List (List Piece)} (separator : Option String)
    (hchild : ∀ id pieces, child .free (forest.content id) = some pieces →
      Writes o Layout.lexemes (render .free id) pieces)
    (hw : (xs.map forest.content).mapM (child .free) = some parts) :
    Writes o (Layout.lexemesBetween separator false) (xs.mapM (render .free))
      (parts.flatMap fun item => (separator.map Piece.text).toList ++ item) := by
  induction xs generalizing parts with
  | nil =>
      obtain rfl : [] = parts := by simpa using hw
      exact writes_nil rfl
  | cons x xs ih =>
      simp only [List.map_cons, List.mapM_cons, Option.bind_eq_bind, Option.bind_eq_some_iff] at hw
      obtain ⟨item, hitem, rest, hrest, hparts⟩ := hw
      obtain rfl : item :: rest = parts := by simpa using hparts
      rw [List.mapM_cons, List.flatMap_cons]
      refine ((hchild x item hitem).led separator).andThen (ih hrest) List.cons fun a b => ?_
      simp [Layout.lexemesBetween]

theorem list_writes {xs : List NodeId} {pieces : List Piece} (info : RuleInfo)
    (hchild : ∀ id pieces, child .free (forest.content id) = some pieces →
      Writes o Layout.lexemes (render .free id) pieces)
    (hw : items (child .free) info.attrs.separator (xs.map forest.content) = some pieces) :
    Writes o Layout.lexemes
      (do
        let layouts ← xs.mapM (render .free)
        pure (.list info.attrs.newline info.attrs.tight info.attrs.separator layouts))
      pieces := by
  obtain ⟨parts, hparts, rfl⟩ := Option.map_eq_some_iff.1 hw
  cases xs with
  | nil =>
      obtain rfl : [] = parts := by simpa using hparts
      exact Writes.map (f := Layout.lexemesBetween info.attrs.separator true) (writes_nil rfl) _ fun _ => rfl
  | cons x xs =>
      simp only [List.map_cons, List.mapM_cons, Option.bind_eq_bind,
        Option.bind_eq_some_iff] at hparts
      obtain ⟨item, hitem, rest, hrest, hparts⟩ := hparts
      obtain rfl : item :: rest = parts := by simpa using hparts
      have hall := (hchild x item hitem).andThen (mapM_writes info.attrs.separator hchild hrest)
        (h := Layout.lexemesBetween info.attrs.separator true) List.cons fun a b => by
          simp [Layout.lexemesBetween]
      rw [List.mapM_cons]
      exact hall.map _ fun _ => rfl

theorem children_writes (hs : Shows forest frame scene) {info : RuleInfo} {name : String}
    {pieces : List Piece}
    (hchild : ∀ context id pieces, child context (forest.content id) = some pieces →
      Writes o Layout.lexemes (render context id) pieces)
    (hw : children child scene info name = some pieces) :
    Writes o Layout.lexemes (Rendering.renderChildren render frame info name) pieces := by
  unfold children at hw
  rw [hs.fields, Forest.lookup_contents] at hw
  unfold Rendering.renderChildren
  cases hl : frame.node.fields.lookup name with
  | none => simp [hl] at hw
  | some value =>
      cases value with
      | terminal t => simp [hl, FieldValue.content] at hw
      | node id =>
          have hcontent : child (scene.childContext info name) (forest.content id) = some pieces := by
            simpa [hl, FieldValue.content, Forest.content, Forest.contentTo] using hw
          rw [hs.childContext]
          refine (hchild _ id pieces hcontent).map _ fun body => ?_
          cases info.attrs.tight <;> simp [Layout.lexemes, Layout.lexemesAll]
      | list ids =>
          refine list_writes info (hchild .free) ?_
          simpa [hl, FieldValue.content] using hw

/-- A production that is passed over writes nothing. -/
theorem writes_unless {attrs : RuleAttrs} {skipped : Bool} {body : Rendering Layout}
    {written : Option (List Piece)} {pieces : List Piece}
    (hw : (if skipped then some [] else written) = some pieces)
    (hbody : written = some pieces → Writes o Layout.lexemes body pieces) :
    Writes o Layout.lexemes
      (if skipped then pure Layout.empty
      else do
        let body ← body
        pure (Rendering.arrange attrs body)) pieces := by
  cases skipped with
  | true =>
      obtain rfl : [] = pieces := by simpa using hw
      exact writes_nil rfl
  | false => exact (hbody hw).map _ fun body => lexemes_arrange attrs body

theorem token_writes (hs : Shows forest frame scene) {info : RuleInfo} {kinds : List TokenKind}
    {values : List String} {pieces : List Piece}
    (hw : body o.options.dialect child scene (.token info kinds values) = some pieces) :
    Writes o Layout.lexemes
      (Rendering.renderBody {} o.options.dialect render frame (.token info kinds values)) pieces := by
  rcases info with ⟨⟨_ | name⟩, path, fields⟩
  · cases kinds with
    | nil =>
        cases hw
        exact writes_nil rfl
    | cons kind kinds =>
        cases values with
        | nil =>
            cases hw
            exact writes_nil rfl
        | cons value values =>
            cases hw
            exact writes_text (lexemes_token _ _)
  · exact terminal_writes hs hw

mutual

/-- Rendering a production writes its pieces. -/
theorem rule_writes {frame : Frame} {scene : Scene} (hs : Shows forest frame scene)
    {pieces : List Piece}
    (hchild : ∀ context id pieces, child context (forest.content id) = some pieces →
      Writes o Layout.lexemes (render context id) pieces) (p : Production)
    (hw : rule o.options.dialect child scene p = some pieces) :
    Writes o Layout.lexemes (Rendering.renderRule {} o.options.dialect render frame p) pieces := by
  rw [rule_eq] at hw
  rw [Rendering.renderRule_eq, hs.has]
  refine writes_unless hw fun hw => ?_
  match p with
  | .token info kinds values => exact token_writes hs hw
  | .node info types climb =>
      simp only [body, Rendering.renderBody] at hw ⊢
      split
      next name hname =>
        rw [hname] at hw
        exact children_writes hs hchild hw
      next hname =>
        rw [hname] at hw
        cases hw
        exact writes_nil rfl
  | .sequence info parts =>
      exact (all_writes hs hchild parts hw).map _ fun _ => rfl
  | .alternatives info branches =>
      simp only [body, Rendering.renderBody] at hw ⊢
      split
      next name hname =>
        rw [hname] at hw
        exact terminal_writes hs hw
      next hname =>
        rw [hname] at hw
        rw [hs.has]
        exact first_writes hs hchild _ branches hw
  | .block info bracket inner =>
      simp only [body, Rendering.renderBody, hs.has] at hw ⊢
      split
      next hempty =>
        rw [if_pos hempty] at hw
        cases hw
        exact writes_nil rfl
      next hempty =>
        rw [if_neg hempty] at hw
        obtain ⟨inside, hinside, rfl⟩ := Option.map_eq_some_iff.1 hw
        simp only [Bool.and_false, Bool.false_eq_true, if_false]
        refine (rule_writes hs.free hchild inner hinside).wrap _ fun a => ?_
        simp [Layout.lexemes, Layout.lexemesAll, lexemes_token]

theorem all_writes {frame : Frame} {scene : Scene} (hs : Shows forest frame scene)
    {pieces : List Piece}
    (hchild : ∀ context id pieces, child context (forest.content id) = some pieces →
      Writes o Layout.lexemes (render context id) pieces) (ps : List Production)
    (hw : all o.options.dialect child scene ps = some pieces) :
    Writes o Layout.lexemesAll
      (Rendering.renderAll {} o.options.dialect render frame ps) pieces := by
  match ps with
  | [] =>
      obtain rfl : [] = pieces := by simpa [all] using hw
      exact writes_nil rfl
  | p :: rest =>
      simp only [all, Option.bind_eq_bind, Option.bind_eq_some_iff, Option.pure_def,
        Option.some.injEq] at hw
      obtain ⟨first, hfirst, others, hothers, rfl⟩ := hw
      rw [Rendering.renderAll]
      exact (rule_writes hs hchild p hfirst).andThen (all_writes hs hchild rest hothers) List.cons
        fun _ _ => rfl

theorem first_writes {frame : Frame} {scene : Scene} (hs : Shows forest frame scene)
    {pieces : List Piece}
    (hchild : ∀ context id pieces, child context (forest.content id) = some pieces →
      Writes o Layout.lexemes (render context id) pieces) (present : List String)
    (ps : List Production) (hw : first o.options.dialect child scene present ps = some pieces) :
    Writes o Layout.lexemes
      (Rendering.renderFirst {} o.options.dialect render frame present ps) pieces := by
  match ps with
  | [] => simp [first] at hw
  | p :: rest =>
      rw [first] at hw
      rw [Rendering.renderFirst, hs.has]
      split
      next hfits =>
        rw [if_pos hfits] at hw
        exact rule_writes hs hchild p hw
      next hfits =>
        rw [if_neg hfits] at hw
        exact first_writes hs hchild present rest hw

end

theorem operation_contents (d : Dialect) (node : Node) (climb : Climb) :
    Rendering.operation d d node climb =
      Outline.operation d (node.fields.contents forest.content) climb := by
  simp only [Rendering.operation, Outline.operation, Forest.lookup_contents]
  cases node.fields.lookup climb.operator with
  | none => rfl
  | some value => cases value <;> rfl

theorem shape_writes {node : Node} {context : Context} {operation : Option Operation}
    {root : Production} {pieces : List Piece}
    (hchild : ∀ context id pieces, child context (forest.content id) = some pieces →
      Writes o Layout.lexemes (render context id) pieces)
    (hw : shape o.options.dialect child (node.fields.contents forest.content) context operation
      root = some pieces) :
    Writes o Layout.lexemes
      (Rendering.renderShape {} o.options.dialect render node context operation root) pieces := by
  unfold shape at hw
  unfold Rendering.renderShape
  split
  next hbrackets =>
    rw [if_pos hbrackets] at hw
    obtain ⟨body, hbody, rfl⟩ := Option.map_eq_some_iff.1 hw
    refine (rule_writes ⟨rfl, rfl, rfl, rfl⟩ hchild root hbody).wrap _ fun a => ?_
    simp [Layout.lexemes, Layout.lexemesAll]
  next hbrackets =>
    rw [if_neg hbrackets] at hw
    exact rule_writes ⟨rfl, rfl, rfl, rfl⟩ hchild root hw

/-- Rendering a node writes the pieces of its tree. -/
theorem renderNode_writes (hd : forest.Descends 0) (hdialect : forest.dialect = o.options.dialect)
    {depth : Nat} {context : Context} {id : NodeId} {pieces : List Piece}
    (hw : o.write depth context (forest.content id) = some pieces) :
    Writes o Layout.lexemes
      (Rendering.renderNode {} o.options.dialect forest depth context id) pieces := by
  induction depth generalizing context id pieces with
  | zero => simp [Outline.write] at hw
  | succ depth ih =>
      rw [Forest.content_eq hd (Nat.zero_le id), Outline.write] at hw
      split at hw
      next nodeType schema htype hschema =>
        obtain ⟨root, hroot, hw⟩ := Option.bind_eq_some_iff.1 hw
        -- The schema is asked for first, which changes nothing but the cache.
        intro s texts agrees hs
        let node : Node :=
          { tag := forest.tag id, fields := forest.fields id, parent := forest.parent? id }
        let s₁ : RenderState :=
          { s with registry := (s.registry.schema node.tag o.options.dialect).2 }
        have hasked : Rendering.schema node.tag o.options.dialect s = (.ok schema, s₁) :=
          Prod.ext ((agrees.schemas node.tag o.options.dialect).trans hschema) rfl
        have hoperation : Rendering.operation o.options.dialect forest.dialect node =
            Outline.operation o.options.dialect (node.fields.contents forest.content) := by
          funext climb
          rw [hdialect, operation_contents]
        have hwrites : Writes o Layout.lexemes
            (Rendering.renderShape {} o.options.dialect
              (Rendering.renderNode {} o.options.dialect forest depth) node context
              (nodeType.climb?.map (Outline.operation o.options.dialect
                (node.fields.contents forest.content))) root) pieces := by
          refine shape_writes ?_ hw
          intro context id pieces h
          exact ih h
        obtain ⟨layout, s', hrun, hlexemes, hbinds, agrees'⟩ :=
          hwrites s₁ texts (agrees.trans (Registry.agrees_schema ..)) hs
        refine ⟨layout, s', ?_, hlexemes, hbinds, agrees'⟩
        simp only [Rendering.renderNode, bind_eq_ok, get_eq_ok]
        refine ⟨s, s, ⟨rfl, rfl⟩, ?_⟩
        simp only [agrees.type?, htype, bind_eq_ok]
        refine ⟨schema, s₁, hasked, ?_⟩
        simp only [hroot]
        rw [hoperation]
        exact hrun
      next => cases hw

end refinement

end Writing

end DualSql
