import DualSql.Proofs.Grammar.Unparsing

/-! # Brackets that are left out

The choices in writing a tree decide where brackets stand and where blanks
stand, and nothing else: apart from brackets a tree is written with the same
lexemes in the same order whatever the choices. Brackets also keep the words
of a phrase apart, and where they are left out as redundant two words can be
read as one operator.

Main definition: `Layout.unbracketed`. Main results: `Tree.layout_unbracketed`
and `Tree.minimal_layout_of_parseAs`. -/

namespace DualSql

/-- Whether a lexeme is a bracket. -/
def isBracket (text : String) : Bool :=
  [Bracket.paren, .square, .curly].any fun b =>
    text == b.opener.toString || text == b.closer.toString

theorem isBracket_opener (b : Bracket) : isBracket b.opener.toString = true := by
  cases b <;> decide

theorem isBracket_closer (b : Bracket) : isBracket b.closer.toString = true := by
  cases b <;> decide

/-- The lexemes that are no brackets. -/
def unbracket (texts : List String) : List String :=
  texts.filter fun text => !isBracket text

theorem unbracket_append (a b : List String) : unbracket (a ++ b) = unbracket a ++ unbracket b :=
  List.filter_append a b

theorem unbracket_wrapped (b : Bracket) (body : List String) :
    unbracket (b.opener.toString :: (body ++ [b.closer.toString])) = unbracket body := by
  have hcloser : unbracket [b.closer.toString] = [] := by
    rw [unbracket, List.filter_cons_of_neg (by rw [isBracket_closer]; decide), List.filter_nil]
  rw [unbracket, List.filter_cons_of_neg (by rw [isBracket_opener]; decide)]
  change unbracket (body ++ [b.closer.toString]) = unbracket body
  rw [unbracket_append, hcloser, List.append_nil]

namespace Layout

/-- The lexemes of a layout that are no brackets. -/
def unbracketed (l : Layout) : List String :=
  unbracket l.lexemes

theorem unbracketed_led (body : Layout) : (sequence [.tight, body]).unbracketed = body.unbracketed := by
  simp only [unbracketed, lexemes, lexemesAll, List.nil_append, List.append_nil]

/-- Brackets around a layout do not count. -/
theorem unbracketed_wrapped (b : Bracket) (opening : Layout)
    (h : opening.lexemes = [b.opener.toString]) (body : Layout) :
    (sequence [opening, body, .lexeme b.closer.toString]).unbracketed = body.unbracketed := by
  simp only [unbracketed, lexemes, lexemesAll, h, List.append_nil, List.singleton_append]
  exact unbracket_wrapped b body.lexemes

theorem unbracketed_arrange {a b : Layout} (h : a.unbracketed = b.unbracketed)
    (attrs : RuleAttrs) :
    (Rendering.arrange attrs a).unbracketed = (Rendering.arrange attrs b).unbracketed := by
  rw [unbracketed, unbracketed, Writing.lexemes_arrange, Writing.lexemes_arrange]
  exact h

/-- Items that are alike are alike with separators between them. -/
theorem unbracket_between (separator : Option String) {as bs : List Layout}
    (h : as.map unbracketed = bs.map unbracketed) (first : Bool) :
    unbracket (lexemesBetween separator first as) =
      unbracket (lexemesBetween separator first bs) := by
  induction as generalizing bs first with
  | nil =>
      obtain rfl := List.map_eq_nil_iff.1 h.symm
      rfl
  | cons a as ih =>
      obtain ⟨b, bs, rfl, hb, hbs⟩ := List.map_eq_cons_iff.1 h.symm
      simp only [lexemesBetween, unbracket_append, ih hbs.symm false]
      congr 2
      exact hb.symm

end Layout

namespace Rendering

variable {α β ω ψ : Type} {f : α → ω} {g : β → ψ}

/-- Computations whose outcomes look the same: what a view shows of the result,
the error, and the state that is left. -/
def Alike (f : α → ω) (m n : Rendering α) : Prop :=
  ∀ s, (m s).1.map f = (n s).1.map f ∧ (m s).2 = (n s).2

theorem Alike.refl (m : Rendering α) : Alike f m m :=
  fun _ => ⟨rfl, rfl⟩

theorem Alike.symm {m n : Rendering α} (h : Alike f m n) : Alike f n m :=
  fun s => ⟨(h s).1.symm, (h s).2.symm⟩

theorem Alike.trans {m n p : Rendering α} (h : Alike f m n) (h' : Alike f n p) : Alike f m p :=
  fun s => ⟨(h s).1.trans (h' s).1, (h s).2.trans (h' s).2⟩

theorem alike_pure {a b : α} (hab : f a = f b) : Alike f (pure a) (pure b) :=
  fun _ => ⟨congrArg Except.ok hab, rfl⟩

/-- First steps that are alike fail alike, or both go on from one state. -/
theorem Alike.bind {m n : Rendering α} (hm : Alike f m n) {k l : α → Rendering β}
    (hk : ∀ a b, f a = f b → Alike g (k a) (l b)) : Alike g (m >>= k) (n >>= l) := by
  intro s
  obtain ⟨hresult, hstate⟩ := hm s
  rw [Fallible.bind_apply, Fallible.bind_apply]
  rcases hleft : m s with ⟨rm, s₁⟩
  rcases hright : n s with ⟨rn, s₂⟩
  rw [hleft, hright] at hresult hstate
  obtain rfl : s₁ = s₂ := hstate
  cases rm with
  | error e =>
      cases rn with
      | error e' =>
          obtain rfl : e = e' := Except.error.inj hresult
          exact ⟨rfl, rfl⟩
      | ok b => cases hresult
  | ok a =>
      cases rn with
      | error e' => cases hresult
      | ok b => exact hk a b (Except.ok.inj hresult) s₁

theorem Alike.map {m n : Rendering α} (hm : Alike f m n) {c c' : α → β}
    (hc : ∀ a b, f a = f b → g (c a) = g (c' b)) :
    Alike g (do let a ← m; pure (c a)) (do let b ← n; pure (c' b)) :=
  hm.bind fun a b hab => alike_pure (hc a b hab)

theorem alike_ite {condition : Bool} {m m' n n' : Rendering α} (hm : Alike f m n)
    (hn : Alike f m' n') :
    Alike f (if condition then m else m') (if condition then n else n') := by
  cases condition with
  | true => exact hm
  | false => exact hn

/-- What is put into brackets looks as it does without them. -/
theorem wrapped_alike (b : Bracket) {opening : Layout}
    (h : opening.lexemes = [b.opener.toString]) (m : Rendering Layout) :
    Alike Layout.unbracketed
      (do let body ← m; pure (.sequence [opening, body, .lexeme b.closer.toString])) m := by
  have hbind := (Alike.refl (f := Layout.unbracketed) m).bind (l := pure) fun a b' hab =>
    alike_pure ((Layout.unbracketed_wrapped b opening h a).trans hab)
  rwa [bind_pure] at hbind

/-! ### Each function of the renderer

The frames of both computations show the same node. The operators around it
decide its brackets alone. -/

section functions

variable {o o' : FormatOptions} {d : Dialect} {frame frame' : Frame}
  {child child' : Context → NodeId → Rendering Layout}

theorem renderTerminal_eq_of_case (hcase : o.keywordCase = o'.keywordCase)
    (hnode : frame.node = frame'.node) (info : RuleInfo) (name : String) :
    renderTerminal o d frame info name = renderTerminal o' d frame' info name := by
  simp only [renderTerminal, spell, hnode, hcase]

theorem mapM_alike (hchild : ∀ c c' id, Alike Layout.unbracketed (child c id) (child' c' id))
    (ids : List NodeId) :
    Alike (List.map Layout.unbracketed) (ids.mapM (child .free)) (ids.mapM (child' .free)) := by
  induction ids with
  | nil => exact Alike.refl _
  | cons id ids ih =>
      rw [List.mapM_cons, List.mapM_cons]
      refine (hchild .free .free id).bind fun a b hab => ih.map fun as bs habs => ?_
      rw [List.map_cons, List.map_cons, hab, habs]

theorem renderChildren_alike
    (hchild : ∀ c c' id, Alike Layout.unbracketed (child c id) (child' c' id))
    (hnode : frame.node = frame'.node) (info : RuleInfo) (name : String) :
    Alike Layout.unbracketed (renderChildren child frame info name)
      (renderChildren child' frame' info name) := by
  unfold renderChildren
  rw [hnode]
  cases frame'.node.fields.lookup name with
  | none => exact Alike.refl _
  | some value =>
      cases value with
      | terminal t => exact Alike.refl _
      | node id =>
          refine (hchild _ _ id).map fun a b hab => ?_
          cases info.attrs.tight with
          | false => exact hab
          | true => rw [if_pos rfl, if_pos rfl, Layout.unbracketed_led, Layout.unbracketed_led, hab]
      | list ids =>
          exact (mapM_alike hchild ids).map fun as bs habs =>
            Layout.unbracket_between info.attrs.separator habs true

/-- A region is written as what is inside it, if it is written at all. -/
theorem renderBlock_alike (o : FormatOptions) (child : Context → NodeId → Rendering Layout)
    (frame : Frame) {info : RuleInfo} (bracket : Bracket) {inner : Production}
    (h : ¬(info.attrs.optionalParens && !inner.info.fields.any frame.has) = true) :
    ∃ inside : Frame, inside.node = frame.node ∧
      Alike Layout.unbracketed (renderBody o d child frame (.block info bracket inner))
        (renderRule o d child inside inner) := by
  rw [renderBody, if_neg h]
  by_cases hdropped : (info.attrs.optionalParens && o.minimalParens) = true
  · rw [if_pos hdropped]
    exact ⟨{ frame with exposed := true }, rfl, Alike.refl _⟩
  · rw [if_neg hdropped]
    exact ⟨{ frame with context := .free, exposed := false }, rfl,
      wrapped_alike bracket (Writing.lexemes_token _ _) _⟩

mutual

/-- A production is written alike whatever the operators around the node. -/
theorem renderRule_alike (hcase : o.keywordCase = o'.keywordCase)
    (hchild : ∀ c c' id, Alike Layout.unbracketed (child c id) (child' c' id))
    {frame frame' : Frame} (hnode : frame.node = frame'.node) (p : Production) :
    Alike Layout.unbracketed (renderRule o d child frame p) (renderRule o' d child' frame' p) := by
  have hhas : frame.has = frame'.has := by
    funext name
    rw [Frame.has, Frame.has, hnode]
  rw [renderRule_eq, renderRule_eq, hhas]
  refine alike_ite (Alike.refl _) (Alike.map ?_ fun a b hab => Layout.unbracketed_arrange hab _)
  match p with
  | .token info kinds values =>
      rcases info with ⟨⟨_ | name⟩, path, fields⟩
      · cases kinds <;> cases values <;> simp only [renderBody, hcase] <;> exact Alike.refl _
      · simp only [renderBody, renderTerminal_eq_of_case hcase hnode]
        exact Alike.refl _
  | .node info types climb =>
      simp only [renderBody]
      split
      next name _ => exact renderChildren_alike hchild hnode info name
      next => exact Alike.refl _
  | .sequence info parts =>
      exact (renderAll_alike hcase hchild hnode parts).map fun as bs habs => habs
  | .alternatives info branches =>
      simp only [renderBody, hhas]
      split
      next name _ =>
        rw [renderTerminal_eq_of_case hcase hnode]
        exact Alike.refl _
      next => exact renderFirst_alike hcase hchild hnode _ branches
  | .block info bracket inner =>
      by_cases hempty : (info.attrs.optionalParens && !inner.info.fields.any frame.has) = true
      · simp only [renderBody, ← hhas, if_pos hempty]
        exact Alike.refl _
      · obtain ⟨inside, hinside, halike⟩ := renderBlock_alike o child frame bracket hempty
        rw [hhas] at hempty
        obtain ⟨inside', hinside', halike'⟩ := renderBlock_alike o' child' frame' bracket hempty
        have hsame : inside.node = inside'.node := hinside.trans (hnode.trans hinside'.symm)
        exact (halike.trans (renderRule_alike hcase hchild hsame inner)).trans halike'.symm

theorem renderAll_alike (hcase : o.keywordCase = o'.keywordCase)
    (hchild : ∀ c c' id, Alike Layout.unbracketed (child c id) (child' c' id))
    {frame frame' : Frame} (hnode : frame.node = frame'.node) (ps : List Production) :
    Alike (fun parts => unbracket (Layout.lexemesAll parts)) (renderAll o d child frame ps)
      (renderAll o' d child' frame' ps) := by
  match ps with
  | [] => exact Alike.refl _
  | p :: rest =>
      rw [renderAll, renderAll]
      refine (renderRule_alike hcase hchild hnode p).bind fun a b hab =>
        (renderAll_alike hcase hchild hnode rest).map fun as bs habs => ?_
      simp only [Layout.lexemesAll, unbracket_append, habs]
      exact congrArg (· ++ _) hab

theorem renderFirst_alike (hcase : o.keywordCase = o'.keywordCase)
    (hchild : ∀ c c' id, Alike Layout.unbracketed (child c id) (child' c' id))
    {frame frame' : Frame} (hnode : frame.node = frame'.node) (present : List String)
    (ps : List Production) :
    Alike Layout.unbracketed (renderFirst o d child frame present ps)
      (renderFirst o' d child' frame' present ps) := by
  match ps with
  | [] =>
      rw [renderFirst, renderFirst, hnode]
      exact Alike.refl _
  | p :: rest =>
      have hhas : frame.has = frame'.has := by
        funext name
        rw [Frame.has, Frame.has, hnode]
      rw [renderFirst, renderFirst, hhas]
      exact alike_ite (renderRule_alike hcase hchild hnode p)
        (renderFirst_alike hcase hchild hnode present rest)

end

end functions

/-- By the production of its type a node is written as that production is,
with brackets around it or without. -/
theorem renderShape_alike {o o' : FormatOptions} (hcase : o.keywordCase = o'.keywordCase)
    {d : Dialect} {child child' : Context → NodeId → Rendering Layout}
    (hchild : ∀ c c' id, Alike Layout.unbracketed (child c id) (child' c' id)) (node : Node)
    (context context' : Context) (operation : Option Operation) (root : Production) :
    Alike Layout.unbracketed (renderShape o d child node context operation root)
      (renderShape o' d child' node context' operation root) := by
  have hplain (o : FormatOptions) (child : Context → NodeId → Rendering Layout)
      (context : Context) : ∃ frame : Frame, frame.node = node ∧
        Alike Layout.unbracketed (renderShape o d child node context operation root)
          (renderRule o d child frame root) := by
    rw [renderShape]
    by_cases hbrackets : needsBrackets root operation context = true
    · rw [if_pos hbrackets]
      exact ⟨{ node, context := .free, operation }, rfl, wrapped_alike .paren rfl _⟩
    · rw [if_neg hbrackets]
      exact ⟨{ node, context, operation }, rfl, Alike.refl _⟩
  obtain ⟨frame, hframe, halike⟩ := hplain o child context
  obtain ⟨frame', hframe', halike'⟩ := hplain o' child' context'
  have hrule := renderRule_alike (d := d) hcase hchild (hframe.trans hframe'.symm) root
  exact (halike.trans hrule).trans halike'.symm

/-- A node is written alike whatever the choices and the operators around it. -/
theorem renderNode_alike {o o' : FormatOptions} (hcase : o.keywordCase = o'.keywordCase)
    (d : Dialect) (f : Forest) (depth : Nat) (context context' : Context) (id : NodeId) :
    Alike Layout.unbracketed (renderNode o d f depth context id)
      (renderNode o' d f depth context' id) := by
  induction depth generalizing context context' id with
  | zero => exact Alike.refl _
  | succ depth ih =>
      have hshape := renderShape_alike (d := d) hcase ih
      rw [renderNode, renderNode]
      refine (Alike.refl (f := fun s => s) get).bind fun s s' hs => ?_
      obtain rfl : s = s' := hs
      dsimp only
      split
      next => exact Alike.refl _
      next nodeType _ =>
        refine (Alike.refl (f := fun s => s) _).bind fun schema schema' hschema => ?_
        obtain rfl : schema = schema' := hschema
        split
        next => exact Alike.refl _
        next root _ => exact hshape _ context context' _ root

end Rendering

namespace Tree

variable {d : Dialect} {types : List String} {sql : String} {t : Tree}

/-- A tree is written with the same lexemes apart from brackets whatever the
choices, or not at all. -/
theorem layout_unbracketed (t : Tree) (d : Dialect) (o o' : FormatOptions)
    (hcase : o.keywordCase = o'.keywordCase) :
    (t.layout d o).map Layout.unbracketed = (t.layout d o').map Layout.unbracketed :=
  (Rendering.renderNode_alike hcase d t.forest _ .free .free t.root _).1

/-- A text that is parsed can be written without redundant brackets, and apart
from brackets the lexemes are those of its tokens. -/
theorem minimal_layout_of_parseAs (h : parseAs d types sql = .ok t) :
    ∃ layout texts, t.layout d { minimalParens := true } = .ok layout ∧
      Event.spellings d 0 (lexEvents d (.ofDialect d) [sql]).1 = .ok texts ∧
      layout.unbracketed = unbracket texts := by
  obtain ⟨plain, hplain, hspell⟩ := (accepted_of_parseAs h).exists_layout
  have hsame := t.layout_unbracketed d { minimalParens := true } {} rfl
  rw [hplain] at hsame
  cases hminimal : t.layout d { minimalParens := true } with
  | error e =>
      rw [hminimal] at hsame
      cases hsame
  | ok layout =>
      rw [hminimal] at hsame
      exact ⟨layout, _, rfl, hspell, Except.ok.inj hsame⟩

/-- Whether what is written for the tree of a text without redundant brackets
is parsed to the same tree, apart from nodes for brackets. -/
def regroups? (d : Dialect) (sql : String) : Option Bool := do
  let t ← (parse d sql).toOption
  let text ← (t.toSqlWith d { minimalParens := true }).toOption
  let u ← (parse d text).toOption
  return (t.forest.content t.root).unwrapped.same (u.forest.content u.root).unwrapped

/-- Brackets keep two words from being read as one phrase: the comparison with
a negation is written as the operator IS NOT once they are left out. -/
theorem negated_operand_merges :
    rereads? .postgres "select a is (not b)" = some true ∧
      regroups? .postgres "select a is (not b)" = some false := by
  unfold rereads? regroups? parse parseAs parseChunks parseSource toSql toSqlWith layout
  rw [Standard.registry_eq]
  decide +kernel

end Tree

end DualSql
