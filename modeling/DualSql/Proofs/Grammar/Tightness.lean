import DualSql.Proofs.Grammar.Bracketing
import DualSql.Proofs.Grammar.Provenance
import DualSql.Proofs.Grammar.Rereading
import DualSql.Proofs.Grammar.Terminals
import DualSql.Proofs.Joints

/-! # Where blanks are left out by the grammar

The productions ask for a blank to be left out in two places: before an opening
bracket, and between a sign and its operand. Nothing else that is written for a
tree stands close to what is before it for the sake of the grammar.

Main definitions: `Stroke.Snug` and `Rendering.Yields`. Main results:
`Rendering.renderNode_snug` and, for trees that a text is parsed to,
`Tree.snug_layout`. -/

namespace DualSql

namespace Stroke

/-- Every blank that is left out is left out before an opening bracket or behind
a sign. -/
def Snug (strokes : List Stroke) : Prop :=
  ∀ before after, strokes = before ++ .tight :: after →
    after.head? = some (.text "(") ∨ ∃ sign : Sign, before.getLast? = some (.text sign.symbol)

variable {strokes more : List Stroke}

theorem snug_nil : Snug [] := by
  intro before after h
  cases before <;> cases h

theorem snug_text (text : String) : Snug [.text text] := by
  intro before after h
  rcases before with - | ⟨stroke, - | ⟨stroke', before⟩⟩ <;> cases h

theorem snug_bracket : Snug [.tight, .text "("] := by
  intro before after h
  rcases before with - | ⟨stroke, - | ⟨stroke', - | ⟨stroke'', before⟩⟩⟩ <;> cases h
  exact .inl rfl

theorem snug_sign (sign : Sign) : Snug [.text sign.symbol, .tight] := by
  intro before after h
  rcases before with - | ⟨stroke, - | ⟨stroke', - | ⟨stroke'', before⟩⟩⟩ <;> cases h
  exact .inr ⟨sign, rfl⟩

theorem Snug.append (h : Snug strokes) (h' : Snug more) : Snug (strokes ++ more) := by
  intro before after heq
  rcases List.append_eq_append_iff.1 heq with ⟨between, rfl, hmore⟩ | ⟨between, hstrokes, hafter⟩
  · refine (h' between after hmore).imp_right fun ⟨sign, hsign⟩ => ⟨sign, ?_⟩
    rw [List.getLast?_append, hsign]
    rfl
  · cases between with
    | nil =>
        rw [List.append_nil] at hstrokes
        refine (h' [] after hafter.symm).imp_right fun ⟨sign, hsign⟩ => ?_
        cases hsign
    | cons stroke between =>
        obtain ⟨rfl, rfl⟩ : Stroke.tight = stroke ∧ after = between ++ more := by
          simpa using hafter
        refine (h before between hstrokes).imp_left fun hhead => ?_
        rw [List.head?_append, hhead]
        rfl

end Stroke

namespace Layout

/-- A layout that leaves out no blanks but those the grammar asks for. -/
def Snug (l : Layout) : Prop :=
  Stroke.Snug l.strokes

theorem snug_empty : empty.Snug :=
  Stroke.snug_nil

theorem snug_token (text : String) : (token text false).Snug :=
  Stroke.snug_text text

theorem strokes_arrange (attrs : RuleAttrs) (body : Layout) :
    (Rendering.arrange attrs body).strokes = body.strokes := by
  unfold Rendering.arrange
  cases attrs.indent <;> cases attrs.newline && attrs.arity.isNone <;>
    simp [strokes, strokesAll]

theorem Snug.arrange {body : Layout} (h : body.Snug) (attrs : RuleAttrs) :
    (Rendering.arrange attrs body).Snug := by
  rw [Snug, strokes_arrange]
  exact h

/-- Brackets around a layout, the first with or without the blank before it. -/
theorem Snug.wrap {opening body : Layout} (hopening : opening.Snug) (h : body.Snug)
    (closer : String) : (sequence [opening, body, .lexeme closer]).Snug := by
  have hclosed := hopening.append (h.append (Stroke.snug_text closer))
  simpa [Snug, strokes, strokesAll] using hclosed

theorem snug_between {items : List Layout} (h : ∀ item ∈ items, item.Snug)
    (separator : Option String) (first : Bool) :
    Stroke.Snug (strokesBetween separator first items) := by
  induction items generalizing first with
  | nil => exact Stroke.snug_nil
  | cons item items ih =>
      obtain ⟨hitem, hitems⟩ := List.forall_mem_cons.1 h
      have hbefore : Stroke.Snug (if first then [] else (separator.map Stroke.text).toList) := by
        cases first with
        | true => exact Stroke.snug_nil
        | false =>
            cases separator with
            | none => exact Stroke.snug_nil
            | some text => exact Stroke.snug_text text
      exact (hbefore.append hitem).append (ih hitems false)

end Layout

namespace Production

mutual

/-- Whether a production leaves out no blanks but those before a bracket. -/
def isLoose : Production → Bool
  | token info _ _ | node info _ _ => !info.attrs.tight
  | sequence _ parts => isLooseAll parts
  | alternatives info branches => !info.attrs.tight && isLooseAll branches
  | block info bracket inner => (!info.attrs.tight || bracket == .paren) && inner.isLoose

/-- Whether several productions leave out no blanks but those before a bracket. -/
def isLooseAll : List Production → Bool
  | [] => true
  | p :: rest => p.isLoose && isLooseAll rest

end

end Production

namespace Rendering

open Fallible

variable {r : Registry} {o : FormatOptions} {d : Dialect} {α β : Type} {P Q : α → Prop}
  {R : β → Prop} {m : Rendering α}

/-- Whatever a computation gives has a property, if it succeeds. -/
def Yields (r : Registry) (P : α → Prop) (m : Rendering α) : Prop :=
  ∀ s a s', r.Agrees s.registry → m s = (.ok a, s') → P a ∧ r.Agrees s'.registry

theorem yields_pure {a : α} (h : P a) : Yields r P (pure a) := by
  intro s b s' agrees hrun
  obtain ⟨rfl, rfl⟩ := pure_eq_ok.1 hrun
  exact ⟨h, agrees⟩

theorem yields_throw (e : Error) : Yields r P (throw e) := by
  intro s a s' _ hrun
  exact (throw_eq_ok.1 hrun).elim

theorem Yields.bind (hm : Yields r P m) {k : α → Rendering β} (hk : ∀ a, P a → Yields r R (k a)) :
    Yields r R (m >>= k) := by
  intro s b s' agrees hrun
  obtain ⟨a, s₁, hfirst, hrest⟩ := bind_eq_ok.1 hrun
  obtain ⟨ha, agrees₁⟩ := hm s a s₁ agrees hfirst
  exact hk a ha s₁ b s' agrees₁ hrest

theorem Yields.map (hm : Yields r P m) {c : α → β} (hc : ∀ a, P a → R (c a)) :
    Yields r R (do let a ← m; pure (c a)) :=
  hm.bind fun a ha => yields_pure (hc a ha)

theorem Yields.mono (hm : Yields r P m) (h : ∀ a, P a → Q a) : Yields r Q m := by
  intro s a s' agrees hrun
  exact (hm s a s' agrees hrun).imp_left (h a)

theorem spell_yields (t : Terminal) :
    Yields r (fun text => ∃ binds, t.spelling o.keywordCase d binds = .ok text) (spell o d t) := by
  intro s text s' agrees hrun
  obtain ⟨hspelling, rfl⟩ := spell_eq_ok hrun
  exact ⟨⟨_, hspelling⟩, agrees⟩

variable {frame : Frame} {render : Context → NodeId → Rendering Layout}

theorem renderTerminal_yields (info : RuleInfo) (name : String) :
    Yields r (fun l => ∃ t binds text, frame.node.fields.lookup name = some (.terminal t) ∧
      t.spelling o.keywordCase d binds = .ok text ∧ l = .token text info.attrs.tight)
      (renderTerminal o d frame info name) := by
  rw [renderTerminal]
  split
  next t hlookup =>
    refine (spell_yields t).map fun text hwritten => ?_
    obtain ⟨binds, hspelling⟩ := hwritten
    exact ⟨t, binds, text, hlookup, hspelling, rfl⟩
  next => exact yields_throw _

theorem renderTerminal_snug {info : RuleInfo} (h : info.attrs.tight = false) (name : String) :
    Yields r Layout.Snug (renderTerminal o d frame info name) := by
  refine (renderTerminal_yields info name).mono ?_
  rintro l ⟨t, binds, text, -, -, rfl⟩
  rw [h]
  exact Layout.snug_token text

/-- Children that are written with no blanks left out but those the grammar asks for. -/
def SnugChildren (r : Registry) (fields : Fields) (render : Context → NodeId → Rendering Layout) :
    Prop :=
  ∀ context, ∀ id ∈ fields.children, Yields r Layout.Snug (render context id)

theorem mapM_snug (ids : List NodeId) (h : ∀ id ∈ ids, Yields r Layout.Snug (render .free id)) :
    Yields r (fun ls => ∀ l ∈ ls, l.Snug) (ids.mapM (render .free)) := by
  induction ids with
  | nil => exact yields_pure nofun
  | cons id ids ih =>
      obtain ⟨hid, hids⟩ := List.forall_mem_cons.1 h
      rw [List.mapM_cons]
      exact hid.bind fun l hl => (ih hids).map fun ls hls => List.forall_mem_cons.2 ⟨hl, hls⟩

/-- Children are written as they are, with or without the blank before them. -/
theorem renderChildren_yields (hchild : SnugChildren r frame.node.fields render) (info : RuleInfo)
    (name : String) :
    Yields r (fun l => ∃ strokes, Stroke.Snug strokes ∧
      (l.strokes = strokes ∨ info.attrs.tight = true ∧ l.strokes = .tight :: strokes))
      (renderChildren render frame info name) := by
  rw [renderChildren]
  split
  next id hlookup =>
    have hid : id ∈ frame.node.fields.children :=
      List.mem_flatMap.2 ⟨_, mem_of_lookup hlookup, List.mem_singleton_self id⟩
    refine (hchild _ id hid).map fun l hl => ⟨l.strokes, hl, ?_⟩
    cases info.attrs.tight with
    | false => exact .inl rfl
    | true => exact .inr ⟨rfl, by simp [Layout.strokes, Layout.strokesAll]⟩
  next ids hlookup =>
    have hids : ∀ id ∈ ids, id ∈ frame.node.fields.children := fun id hid =>
      List.mem_flatMap.2 ⟨_, mem_of_lookup hlookup, hid⟩
    refine (mapM_snug ids fun id hid => hchild .free id (hids id hid)).map fun ls hls =>
      ⟨_, Layout.snug_between hls info.attrs.separator true, ?_⟩
    rw [Layout.strokes]
    cases htight : info.attrs.tight with
    | false => exact .inl rfl
    | true =>
        cases ls with
        | nil => exact .inl rfl
        | cons l ls => exact .inr ⟨rfl, rfl⟩
  next => exact yields_throw _

theorem renderChildren_snug (hchild : SnugChildren r frame.node.fields render) {info : RuleInfo}
    (h : info.attrs.tight = false) (name : String) :
    Yields r Layout.Snug (renderChildren render frame info name) := by
  refine (renderChildren_yields hchild info name).mono ?_
  rintro l ⟨strokes, hstrokes, hl | ⟨htight, -⟩⟩
  · rwa [Layout.Snug, hl]
  · cases h.symm.trans htight

mutual

/-- A loose production leaves out no blanks but those before a bracket. -/
theorem renderRule_snug {frame : Frame} (hchild : SnugChildren r frame.node.fields render)
    (p : Production) (hloose : p.isLoose = true) :
    Yields r Layout.Snug (renderRule o d render frame p) := by
  rw [renderRule_eq]
  split
  next => exact yields_pure Layout.snug_empty
  next =>
    refine Yields.map (P := Layout.Snug) ?_ fun body hbody => hbody.arrange p.attrs
    match p with
    | .token info kinds values =>
        have htight : info.attrs.tight = false := by simpa [Production.isLoose] using hloose
        rcases info with ⟨⟨_ | name⟩, path, fields⟩
        · cases kinds <;> cases values <;>
            first | exact yields_pure Layout.snug_empty | skip
          exact yields_pure (htight ▸ Layout.snug_token _)
        · exact renderTerminal_snug htight name
    | .node info types climb =>
        have htight : info.attrs.tight = false := by simpa [Production.isLoose] using hloose
        simp only [renderBody]
        split
        next name _ => exact renderChildren_snug hchild htight name
        next => exact yields_pure Layout.snug_empty
    | .sequence info parts =>
        exact (renderAll_snug hchild parts hloose).map fun parts hparts => hparts
    | .alternatives info branches =>
        obtain ⟨htight, hbranches⟩ := Bool.and_eq_true_iff.1 hloose
        simp only [renderBody]
        split
        next name _ => exact renderTerminal_snug (by simpa using htight) name
        next => exact renderFirst_snug hchild _ branches hbranches
    | .block info bracket inner =>
        obtain ⟨htight, hinner⟩ := Bool.and_eq_true_iff.1 hloose
        have hopening : (Layout.token bracket.opener.toString info.attrs.tight).Snug := by
          cases hinfo : info.attrs.tight with
          | false => exact Layout.snug_token _
          | true =>
              rw [hinfo, Bool.not_true, Bool.false_or, beq_iff_eq] at htight
              rw [htight]
              exact Stroke.snug_bracket
        simp only [renderBody]
        split
        next => exact yields_pure Layout.snug_empty
        next =>
          split
          next => exact renderRule_snug (by exact hchild) inner hinner
          next =>
            exact (renderRule_snug (by exact hchild) inner hinner).map fun body hbody =>
              hopening.wrap hbody _

theorem renderAll_snug {frame : Frame} (hchild : SnugChildren r frame.node.fields render)
    (ps : List Production) (hloose : Production.isLooseAll ps = true) :
    Yields r (fun ls => Stroke.Snug (Layout.strokesAll ls)) (renderAll o d render frame ps) := by
  match ps with
  | [] => exact yields_pure Stroke.snug_nil
  | p :: rest =>
      obtain ⟨hp, hrest⟩ := Bool.and_eq_true_iff.1 hloose
      rw [renderAll]
      exact (renderRule_snug hchild p hp).bind fun l hl =>
        (renderAll_snug hchild rest hrest).map fun ls hls => Stroke.Snug.append hl hls

theorem renderFirst_snug {frame : Frame} (hchild : SnugChildren r frame.node.fields render)
    (present : List String) (ps : List Production) (hloose : Production.isLooseAll ps = true) :
    Yields r Layout.Snug (renderFirst o d render frame present ps) := by
  match ps with
  | [] => exact yields_throw _
  | p :: rest =>
      obtain ⟨hp, hrest⟩ := Bool.and_eq_true_iff.1 hloose
      rw [renderFirst]
      split
      · exact renderRule_snug hchild p hp
      · exact renderFirst_snug hchild present rest hrest

end

/-- A node is written as its production is, with brackets around it or without. -/
theorem renderShape_snug {node : Node} {root : Production} (operation : Option Operation)
    (h : ∀ context, Yields r Layout.Snug (renderRule o d render { node, context, operation } root))
    (context : Context) :
    Yields r Layout.Snug (renderShape o d render node context operation root) := by
  rw [renderShape]
  split
  · have hopening : (Layout.lexeme "(").Snug := Stroke.snug_text "("
    exact (h .free).map fun body hbody => hopening.wrap hbody ")"
  · exact h context

/-- A sign is written as it is, whatever the case of keywords. -/
theorem spelling_sign {t : Terminal} {sign : Sign} {c : KeywordCase} {binds : Nat} {text : String}
    (hkind : t.kind = .operator) (hvalue : t.value = sign.symbol)
    (h : t.spelling c d binds = .ok text) : text = sign.symbol := by
  have hfixed : fixedSpelling c .operator sign.symbol = sign.symbol := by
    cases sign <;> rfl
  rw [Terminal.spelling, hkind, hvalue] at h
  exact (Except.ok.inj h).symm.trans hfixed

/-- A sign and its operand are written next to each other. -/
theorem renderSigned_snug {node : Node} (hchild : SnugChildren r node.fields render)
    {info first second : RuleInfo} {kinds : List TokenKind} {values types : List String}
    {climb : Option Climb} {name : String} (hfirst : first.attrs = { name := some name })
    (hsign : ∀ t, node.fields.lookup name = some (.terminal t) →
      t.kind = .operator ∧ ∃ sign : Sign, t.value = sign.symbol)
    (context : Context) (operation : Option Operation) :
    Yields r Layout.Snug (renderRule o d render { node, context, operation }
      (.sequence info [.token first kinds values, .node second types climb])) := by
  have hoperator : Yields r (fun l => ∃ sign : Sign, l.strokes = [.text sign.symbol])
      (renderRule o d render { node, context, operation } (.token first kinds values)) := by
    obtain ⟨attrs, path, fields⟩ := first
    obtain rfl : attrs = { name := some name } := hfirst
    rw [renderRule_eq]
    refine (renderTerminal_yields _ name).map ?_
    rintro l ⟨t, binds, text, hlookup, hspelling, rfl⟩
    obtain ⟨hkind, sign, hvalue⟩ := hsign t hlookup
    exact ⟨sign, by rw [spelling_sign hkind hvalue hspelling]; rfl⟩
  have hoperand : Yields r (fun l => ∃ strokes, Stroke.Snug strokes ∧
      (l.strokes = strokes ∨ l.strokes = .tight :: strokes))
      (renderRule o d render { node, context, operation } (.node second types climb)) := by
    rw [renderRule_eq]
    split
    next => exact yields_pure ⟨[], Stroke.snug_nil, .inl rfl⟩
    next =>
      refine Yields.map (P := fun l => ∃ strokes, Stroke.Snug strokes ∧
        (l.strokes = strokes ∨ l.strokes = .tight :: strokes)) ?_ fun body hbody => ?_
      · rw [renderBody]
        split
        next name _ =>
          refine (renderChildren_yields hchild second name).mono ?_
          rintro l ⟨strokes, hstrokes, hl⟩
          exact ⟨strokes, hstrokes, hl.imp_right And.right⟩
        next => exact yields_pure ⟨[], Stroke.snug_nil, .inl rfl⟩
      · rwa [Layout.strokes_arrange]
  rw [renderRule_eq]
  split
  next => exact yields_pure Layout.snug_empty
  next =>
    refine Yields.map (P := Layout.Snug) ?_ fun body hbody => hbody.arrange _
    have hoperands : Yields r (fun ls => ∃ strokes, Stroke.Snug strokes ∧
        (Layout.strokesAll ls = strokes ∨ Layout.strokesAll ls = .tight :: strokes))
        (renderAll o d render { node, context, operation } [.node second types climb]) := by
      simp only [renderAll, pure_bind]
      refine hoperand.map ?_
      rintro l ⟨strokes, hstrokes, hl⟩
      exact ⟨strokes, hstrokes, by simpa [Layout.strokesAll] using hl⟩
    have hall : Yields r (fun ls => Stroke.Snug (Layout.strokesAll ls))
        (renderAll o d render { node, context, operation }
          [.token first kinds values, .node second types climb]) := by
      rw [renderAll]
      refine hoperator.bind fun l ⟨sign, hl⟩ => hoperands.map ?_
      rintro ls ⟨strokes, hstrokes, hls | hls⟩ <;> rw [Layout.strokesAll, hl, hls]
      · exact (Stroke.snug_text sign.symbol).append hstrokes
      · exact (Stroke.snug_sign sign).append hstrokes
    exact hall.map fun ls hls => hls

end Rendering

/-! ### Trees of the standard grammar -/

/-- Trees in which what stands before the operand of a negation is a sign. -/
abbrev Content.Signed : Content → Prop :=
  Each fun tag fields => tag = "NegateExpr" → ∀ t, fields.lookup "operator" = some (.terminal t) →
    t.kind = .operator ∧ ∃ sign : Sign, t.value = sign.symbol

namespace Registry

/-- Whether the types leave out no blanks but those before a bracket, one type aside. -/
def isLoose (r : Registry) (d : Dialect) (exempt : String) : Bool :=
  r.types.all fun entry => entry.1 == exempt ||
    match (r.schema entry.1 d).1 with
    | .ok schema => schema.root.all Production.isLoose
    | .error _ => true

/-- Whether a field of a type holds nothing but operators with one of the given texts. -/
def isSigned (r : Registry) (d : Dialect) (tag field : String) (texts : List String) : Bool :=
  (r.schema tag d).1.toOption.all fun schema =>
    schema.shapes.all fun shape => shape.all fun f =>
      f.name != field || f.kind == .terminal [.operator] texts

theorem loose_of_isLoose {r : Registry} {d : Dialect} {exempt tag : String} {schema : Schema}
    {root : Production} (h : r.isLoose d exempt = true) (hne : tag ≠ exempt)
    (hschema : (r.schema tag d).1 = .ok schema) (hroot : schema.root = some root) :
    root.isLoose = true := by
  obtain ⟨nodeType, htype⟩ := exists_type_of_schema hschema
  have hentry := List.all_eq_true.1 h _ (mem_types htype)
  simpa [hne, hschema, hroot] using hentry

end Registry

namespace Standard

/-- The texts of the signs. -/
def signTexts : List String :=
  ["-", "+", "~", "!"]

/-- The facts are checked together, since they look at the same schemas. -/
theorem isLoose_isSigned : ∀ d ∈ Dialect.all,
    (extend {}).isLoose d "NegateExpr" = true ∧
      (extend {}).isSigned d "NegateExpr" "operator" signTexts = true := by
  decide +kernel

theorem isLoose (d : Dialect) : (extend {}).isLoose d "NegateExpr" = true :=
  (isLoose_isSigned d d.mem_all).1

theorem exists_sign {text : String} (h : text ∈ signTexts) : ∃ sign : Sign, text = sign.symbol := by
  simp only [signTexts, List.mem_cons, List.not_mem_nil, or_false] at h
  rcases h with rfl | rfl | rfl | rfl
  exacts [⟨.minus, rfl⟩, ⟨.plus, rfl⟩, ⟨.tilde, rfl⟩, ⟨.bang, rfl⟩]

/-- In every shape of a negation the operator is one of the signs. -/
theorem negate_operator {d : Dialect} {schema : Schema} {shape : Shape} {field : FieldSchema}
    (hschema : ((extend {}).schema "NegateExpr" d).1 = .ok schema) (hshape : shape ∈ schema.shapes)
    (hfield : field ∈ shape) (hname : field.name = "operator") :
    field.kind = .terminal [.operator] signTexts := by
  have hshapes := (isLoose_isSigned d d.mem_all).2
  rw [Registry.isSigned, hschema] at hshapes
  have hkind := List.all_eq_true.1 (List.all_eq_true.1 hshapes shape hshape) field hfield
  simpa [hname] using hkind

/-- What stands before the operand of a negation that fits its shapes is a sign. -/
theorem signed_of_shaped {d : Dialect} {x : Content} (h : x.Shaped (readable d).toOutline) :
    x.Signed := by
  refine Content.Each.mono (fun tag fields => ?_) h
  rintro ⟨schema, shape, hschema, hshape, hfits⟩ rfl t hlookup
  obtain ⟨field, hfield, hname, hadmits⟩ := Outline.admits_of_fits hfits _ (mem_of_lookup hlookup)
  rw [negate_operator hschema hshape hfield hname] at hadmits
  obtain ⟨t', ht', hread⟩ := hadmits
  obtain rfl : t = t' := Content.terminal.inj ht'
  let u : Token := { kind := (t.reread d).kind, value := t.value, position := t.position }
  have hfits : Parsing.fits [.operator] signTexts u = true :=
    Structured.fits_of_readTerminal? hread rfl rfl
  obtain ⟨hkind, hvalue⟩ := Bool.and_eq_true_iff.1 hfits
  have hkind' : (t.reread d).kind = .operator := by simpa using hkind
  obtain ⟨v, hv, his⟩ := List.any_eq_true.1 hvalue
  obtain ⟨sign, rfl⟩ := exists_sign hv
  have hsame : Text.eqIgnoringAsciiCase t.value sign.symbol = true := by
    simpa [Token.is, u, hkind', TokenKind.isWord] using his
  refine ⟨?_, sign, Text.eq_of_eqIgnoringAsciiCase hsame (by cases sign <;> decide)⟩
  by_contra hne
  have hreread : (t.reread d).kind = if t.kind = .dataType ∧ _ then .identifier else t.kind := rfl
  rw [hreread] at hkind'
  split at hkind'
  · cases hkind'
  · exact hne hkind'

end Standard

namespace Rendering

open Fallible

/-- The node of a tree leaves out no blanks but those the grammar asks for. -/
theorem renderNode_snug {o : FormatOptions} {d : Dialect} {forest : Forest}
    (hd : forest.Descends 0) {depth : Nat} {context : Context} {id : NodeId}
    (hsigned : (forest.content id).Signed) :
    Yields (Standard.extend {}) Layout.Snug (renderNode o d forest depth context id) := by
  induction depth generalizing context id with
  | zero => exact yields_throw _
  | succ depth ih =>
      rw [Forest.content_eq hd (Nat.zero_le id)] at hsigned
      obtain ⟨hsign, hfields⟩ := hsigned
      have hchild : SnugChildren (Standard.extend {}) (forest.fields id)
          (renderNode o d forest depth) := fun context child hmem =>
        ih (Content.EachField.child hfields hmem)
      let node : Node :=
        { tag := forest.tag id, fields := forest.fields id, parent := forest.parent? id }
      intro s layout s' agrees hrun
      obtain ⟨schema, root, operation, registry, hschema, hroot, agrees', hrun⟩ :=
        renderNode_ok agrees hrun
      have hrule (context : Context) : Yields (Standard.extend {}) Layout.Snug
          (renderRule o d (renderNode o d forest depth) { node, context, operation } root) := by
        by_cases htag : forest.tag id = "NegateExpr"
        · obtain ⟨schema', hschema', hroot'⟩ := Writing.hasRoot_negate d
          rw [← htag, hschema] at hschema'
          obtain rfl := Except.ok.inj hschema'
          obtain rfl := Option.some.inj (hroot.symm.trans hroot')
          refine renderSigned_snug hchild rfl (fun t ht => hsign htag t ?_) context operation
          rw [Forest.lookup_contents, ht]
          rfl
        · exact renderRule_snug hchild root
            (Registry.loose_of_isLoose (Standard.isLoose d) htag hschema hroot)
      exact renderShape_snug operation hrule context _ layout s' agrees' hrun

end Rendering

namespace Tree

variable {d : Dialect} {types : List String} {sql : String} {t : Tree}

/-- What is written for an accepted tree leaves out no blanks but those the grammar asks for. -/
theorem snug_layout (accepted : Accepted d types sql t) {o : FormatOptions} {d' : Dialect}
    {layout : Layout} (hlayout : t.layout d' o = .ok layout) : layout.Snug := by
  obtain ⟨trees, rest, fuel, hlexed, -, hfound, -⟩ := accepted.found
  have hx : (Standard.readable d).Fitting types t.content :=
    (((Standard.readable d).tells fuel).any hlexed hfound).2
  have hsnug : Rendering.Yields (Standard.extend {}) Layout.Snug
      (Rendering.render o d' t.forest t.root) :=
    Rendering.renderNode_snug accepted.descends (Standard.signed_of_shaped hx.2)
  rcases hrun : Rendering.render o d' t.forest t.root { registry := Standard.registry }
    with ⟨result, s'⟩
  rw [Tree.layout, hrun] at hlayout
  obtain rfl : result = .ok layout := hlayout
  have agrees : (Standard.extend {}).Agrees Standard.registry := Standard.agrees_registry d'
  exact (hsnug _ _ _ agrees hrun).1

end Tree

end DualSql
