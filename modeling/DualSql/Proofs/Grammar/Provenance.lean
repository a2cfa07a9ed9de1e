import DualSql.Proofs.Grammar.Exhaustive
import DualSql.Proofs.Grammar.ReadBack
import DualSql.Proofs.Layout

/-! # Where what is written comes from

Whatever is written for a tree is a word of the grammar or a terminal of the
tree. All terminals are written, each of them once and in the order of the
tree, unless a condition of the target grammar keeps a field back.

Main definitions: `Mark` and `Rendering.Traces`. Main results:
`Rendering.renderNode_traces` and, for trees that a text is parsed to,
`Tree.exists_marks`. -/

namespace DualSql

/-- A piece of what is written: a word of the grammar, or a terminal of the tree. -/
inductive Mark where
  | word (text : String)
  | terminal (t : Terminal)

namespace Mark

/-- The terminals among marks. -/
def terminals : List Mark → List Terminal
  | [] => []
  | word _ :: rest => terminals rest
  | terminal t :: rest => t :: terminals rest

/-- The number of placeholders up to a terminal, given that before it. -/
def count (binds : Nat) (t : Terminal) : Nat :=
  if t.kind = .bindVariable then binds + 1 else binds

/-- The lexemes of marks that stand behind some placeholders. -/
def spell (c : KeywordCase) (d : Dialect) (binds : Nat) : List Mark →
    Except RenderError (List String)
  | [] => .ok []
  | word text :: rest => (spell c d binds rest).map (text :: ·)
  | terminal t :: rest =>
    match t.spelling c d (count binds t) with
    | .error e => .error e
    | .ok text => (spell c d (count binds t) rest).map (text :: ·)

variable {c : KeywordCase} {d : Dialect} {binds : Nat} {a b : List Mark} {xs ys : List String}

theorem terminals_append (a b : List Mark) : terminals (a ++ b) = terminals a ++ terminals b := by
  induction a with
  | nil => rfl
  | cons mark a ih =>
      cases mark with
      | word text => exact ih
      | terminal t => exact congrArg (t :: ·) ih

/-- A word is written before what is spelled behind it. -/
theorem spell_word_eq_ok {text : String} :
    spell c d binds (word text :: a) = .ok xs ↔
      ∃ rest, spell c d binds a = .ok rest ∧ xs = text :: rest := by
  rw [spell]
  cases spell c d binds a <;> simp [Except.map, eq_comm]

/-- A terminal is spelled before what is spelled behind it. -/
theorem spell_terminal_eq_ok {t : Terminal} :
    spell c d binds (terminal t :: a) = .ok xs ↔
      ∃ text rest, t.spelling c d (count binds t) = .ok text ∧
        spell c d (count binds t) a = .ok rest ∧ xs = text :: rest := by
  rw [spell]
  cases t.spelling c d (count binds t) with
  | error e => simp
  | ok text => cases spell c d (count binds t) a <;> simp [Except.map, eq_comm]

theorem spell_append (ha : spell c d binds a = .ok xs)
    (hb : spell c d ((terminals a).foldl count binds) b = .ok ys) :
    spell c d binds (a ++ b) = .ok (xs ++ ys) := by
  induction a generalizing binds xs with
  | nil =>
      cases ha
      exact hb
  | cons mark a ih =>
      cases mark with
      | word text =>
          obtain ⟨rest, hrest, rfl⟩ := spell_word_eq_ok.1 ha
          exact spell_word_eq_ok.2 ⟨_, ih hrest hb, rfl⟩
      | terminal t =>
          obtain ⟨text, rest, htext, hrest, rfl⟩ := spell_terminal_eq_ok.1 ha
          exact spell_terminal_eq_ok.2 ⟨text, _, htext, ih hrest hb, rfl⟩

end Mark

/-! ### The words of a grammar -/

namespace Production

mutual

/-- The words that a production writes of its own. -/
def words (c : KeywordCase) : Production → List String
  | token info kinds values =>
    match info.attrs.name, kinds, values with
    | none, kind :: _, value :: _ => [fixedSpelling c kind value]
    | _, _, _ => []
  | node info _ _ => info.attrs.separator.toList
  | sequence _ parts | alternatives _ parts => wordsAll c parts
  | block _ bracket inner => bracket.opener.toString :: bracket.closer.toString :: inner.words c

/-- The words that several productions write of their own. -/
def wordsAll (c : KeywordCase) : List Production → List String
  | [] => []
  | p :: rest => p.words c ++ wordsAll c rest

end

end Production

/-- Whether a text is a word of the grammar, brackets included. -/
def Registry.IsWord (r : Registry) (c : KeywordCase) (d : Dialect) (text : String) : Prop :=
  text ∈ ["(", ")"] ∨ ∃ tag schema root, (r.schema tag d).1 = .ok schema ∧
    schema.root = some root ∧ text ∈ root.words c

/-! ### Terminals -/

namespace Content

/-- The terminals of a field, if it is there. -/
def terminalsAt (fields : Parts) (name : String) : List Terminal :=
  (fields.lookup name).elim [] terminals

/-- The terminals of all fields are those of each, taken by name. -/
theorem flatMap_terminalsAt {fields : Parts} (h : (fields.map Prod.fst).Nodup) :
    (fields.map Prod.fst).flatMap (terminalsAt fields) = fieldTerminals fields := by
  rw [fieldTerminals_eq, List.flatMap_map]
  refine List.flatMap_congr fun f hf => ?_
  rw [terminalsAt, lookup_of_mem h hf]
  rfl

end Content

/-! ### Rendering -/

namespace Rendering

open Fallible

variable {r : Registry} {o : FormatOptions} {d : Dialect} {W : String → Prop} {α β γ : Type}
  {f : α → List String} {g : β → List String} {h : γ → List String} {m : Rendering α}
  {n : Rendering β} {T U V : List Terminal → Prop}

/-- A computation writes some terminals and words if it succeeds. -/
def Traces (r : Registry) (o : FormatOptions) (d : Dialect) (W : String → Prop)
    (view : α → List String) (m : Rendering α) (T : List Terminal → Prop) : Prop :=
  ∀ s a s', r.Agrees s.registry → m s = (.ok a, s') →
    ∃ marks, T (Mark.terminals marks) ∧ (∀ text, .word text ∈ marks → W text) ∧
      Mark.spell o.keywordCase d s.binds marks = .ok (view a) ∧
      s'.binds = (Mark.terminals marks).foldl Mark.count s.binds ∧ r.Agrees s'.registry

theorem traces_nil {a : α} (hf : f a = []) (hT : T []) : Traces r o d W f (pure a) T := by
  intro s b s' agrees hrun
  obtain ⟨rfl, rfl⟩ := pure_eq_ok.1 hrun
  exact ⟨[], hT, by simp, by rw [hf]; rfl, rfl, agrees⟩

theorem traces_word {a : α} {text : String} (hf : f a = [text]) (hword : W text) (hT : T []) :
    Traces r o d W f (pure a) T := by
  intro s b s' agrees hrun
  obtain ⟨rfl, rfl⟩ := pure_eq_ok.1 hrun
  exact ⟨[.word text], hT, by simpa using hword, by rw [hf]; rfl, rfl, agrees⟩

theorem traces_throw (e : Error) : Traces r o d W f (throw e) T := by
  intro s a s' _ hrun
  exact (throw_eq_ok.1 hrun).elim

theorem Traces.mono (hm : Traces r o d W f m T) (hT : ∀ ts, T ts → U ts) :
    Traces r o d W f m U := by
  intro s a s' agrees hrun
  obtain ⟨marks, hmarks, rest⟩ := hm s a s' agrees hrun
  exact ⟨marks, hT _ hmarks, rest⟩

theorem Traces.andThen (hm : Traces r o d W f m T) (hn : Traces r o d W g n U) (c : α → β → γ)
    (hc : ∀ a b, h (c a b) = f a ++ g b) (hV : ∀ ts us, T ts → U us → V (ts ++ us)) :
    Traces r o d W h (do let a ← m; let b ← n; pure (c a b)) V := by
  intro s e s' agrees hrun
  simp only [bind_eq_ok, pure_eq_ok] at hrun
  obtain ⟨a, s₁, hrun, b, s₂, hrun', rfl, rfl⟩ := hrun
  obtain ⟨marks, hT, hwords, hspell, hbinds, agrees₁⟩ := hm s a s₁ agrees hrun
  obtain ⟨marks', hU, hwords', hspell', hbinds', agrees₂⟩ := hn s₁ b s₂ agrees₁ hrun'
  rw [hbinds] at hspell' hbinds'
  refine ⟨marks ++ marks', ?_, ?_, ?_, ?_, agrees₂⟩
  · rw [Mark.terminals_append]
    exact hV _ _ hT hU
  · intro text htext
    exact (List.mem_append.1 htext).elim (hwords text) (hwords' text)
  · rw [hc]
    exact Mark.spell_append hspell hspell'
  · rw [hbinds', Mark.terminals_append, List.foldl_append]

theorem Traces.map (hm : Traces r o d W f m T) (c : α → β) (hc : ∀ a, g (c a) = f a) :
    Traces r o d W g (do let a ← m; pure (c a)) T := by
  intro s b s' agrees hrun
  simp only [bind_eq_ok, pure_eq_ok] at hrun
  obtain ⟨a, s₁, hrun, rfl, rfl⟩ := hrun
  rw [hc]
  exact hm s a s₁ agrees hrun

/-- Words before what is written. -/
theorem Traces.led (hm : Traces r o d W f m T) {before : List String}
    (hbefore : ∀ text ∈ before, W text) : Traces r o d W (fun a => before ++ f a) m T := by
  intro s a s' agrees hrun
  obtain ⟨marks, hT, hwords, hspell, hbinds, agrees'⟩ := hm s a s' agrees hrun
  have hterminals : Mark.terminals (before.map Mark.word ++ marks) = Mark.terminals marks := by
    clear hbefore
    induction before with
    | nil => rfl
    | cons text before ih => exact ih
  refine ⟨before.map .word ++ marks, by rwa [hterminals], fun text htext => ?_, ?_,
    by rwa [hterminals], agrees'⟩
  · rcases List.mem_append.1 htext with htext | htext
    · obtain ⟨text', htext', heq⟩ := List.mem_map.1 htext
      cases heq
      exact hbefore text htext'
    · exact hwords text htext
  · clear hbefore hterminals
    induction before with
    | nil => exact hspell
    | cons text before ih =>
        rw [List.map_cons, List.cons_append, Mark.spell, ih]
        rfl

/-- Brackets around what is written. -/
theorem Traces.wrap (hm : Traces r o d W f m T) {before after : String} (hbefore : W before)
    (hafter : W after) (c : α → β) (hc : ∀ a, g (c a) = before :: (f a ++ [after])) :
    Traces r o d W g (do let a ← m; pure (c a)) T := by
  have hlast : Traces r o d W (fun _ : PUnit => [after]) (pure ⟨⟩) (· = []) :=
    traces_word rfl hafter rfl
  have hled : Traces r o d W (fun a => [before] ++ f a) m T := hm.led (by simpa using hbefore)
  have hboth : Traces r o d W g (do let a ← m; let _ ← pure PUnit.unit; pure (c a)) T := by
    refine hled.andThen hlast (fun a _ => c a) (fun a _ => hc a) ?_
    rintro ts us hT rfl
    rwa [List.append_nil]
  simpa only [pure_bind] using hboth

/-- A placeholder is counted before it is spelled. -/
theorem spell_eq_ok {t : Terminal} {s s' : RenderState} {text : String}
    (hrun : spell o d t s = (.ok text, s')) :
    t.spelling o.keywordCase d (Mark.count s.binds t) = .ok text ∧
      s' = { s with binds := Mark.count s.binds t } := by
  rw [spell] at hrun
  by_cases hkind : t.kind = .bindVariable
  · rw [if_pos hkind] at hrun
    simp only [bind_eq_ok, modify_eq_ok, get_eq_ok] at hrun
    obtain ⟨-, s₁, rfl, s₂, s₃, ⟨rfl, rfl⟩, hrun⟩ := hrun
    rw [Mark.count, if_pos hkind]
    cases htext : t.spelling o.keywordCase d (s.binds + 1) with
    | error e =>
        simp only [htext, throw_eq_ok] at hrun
    | ok text' =>
        simp only [htext, pure_eq_ok] at hrun
        obtain ⟨rfl, rfl⟩ := hrun
        exact ⟨rfl, rfl⟩
  · rw [if_neg hkind] at hrun
    simp only [bind_eq_ok, get_eq_ok] at hrun
    obtain ⟨s₁, s₂, ⟨rfl, rfl⟩, hrun⟩ := hrun
    rw [Mark.count, if_neg hkind]
    cases htext : t.spelling o.keywordCase d s.binds with
    | error e =>
        simp only [htext, throw_eq_ok] at hrun
    | ok text' =>
        simp only [htext, pure_eq_ok] at hrun
        obtain ⟨rfl, rfl⟩ := hrun
        exact ⟨rfl, rfl⟩

theorem spell_traces (t : Terminal) :
    Traces r o d W (fun text => [text]) (spell o d t) (· = [t]) := by
  intro s text s' agrees hrun
  obtain ⟨hspelling, rfl⟩ := spell_eq_ok hrun
  refine ⟨[.terminal t], rfl, by simp, ?_, rfl, agrees⟩
  rw [Mark.spell, hspelling]
  rfl

variable {forest : Forest} {frame : Frame} {render : Context → NodeId → Rendering Layout}

/-- The fields of a frame. -/
abbrev parts (forest : Forest) (frame : Frame) : Parts :=
  frame.node.fields.contents forest.content

theorem terminal_traces (info : RuleInfo) (name : String) :
    Traces r o d W Layout.lexemes (renderTerminal o d frame info name) fun ts =>
      frame.has name = true ∧ ts = Content.terminalsAt (parts forest frame) name := by
  rw [renderTerminal]
  cases hl : frame.node.fields.lookup name with
  | none => exact traces_throw _
  | some value =>
      cases value with
      | terminal t =>
          refine ((spell_traces t).map _ fun text => Writing.lexemes_token text _).mono fun ts hts => ?_
          refine ⟨by rw [Frame.has, hl]; rfl, ?_⟩
          rw [hts, Content.terminalsAt, Forest.lookup_contents, hl]
          rfl
      | node id => exact traces_throw _
      | list ids => exact traces_throw _

/-- Nodes that are written with all of their terminals. -/
def TracesChildren (r : Registry) (o : FormatOptions) (d : Dialect) (W : String → Prop)
    (forest : Forest) (fields : Fields) (render : Context → NodeId → Rendering Layout) : Prop :=
  ∀ context, ∀ id ∈ fields.children,
    Traces r o d W Layout.lexemes (render context id) (· = (forest.content id).terminals)

theorem mapM_traces {separator : Option String} (hword : ∀ text ∈ separator, W text) (first : Bool)
    (ids : List NodeId)
    (hids : ∀ id ∈ ids,
      Traces r o d W Layout.lexemes (render .free id) (· = (forest.content id).terminals)) :
    Traces r o d W (Layout.lexemesBetween separator first) (ids.mapM (render .free))
      (· = Content.itemTerminals (ids.map forest.content)) := by
  induction ids generalizing first with
  | nil => exact traces_nil rfl rfl
  | cons id ids ih =>
      obtain ⟨hid, hids⟩ := List.forall_mem_cons.1 hids
      have hled : Traces r o d W
          (fun layout => (if first then [] else separator.toList) ++ layout.lexemes)
          (render .free id) (· = (forest.content id).terminals) := by
        refine hid.led fun text htext => hword text ?_
        cases first with
        | true => cases htext
        | false => simpa using htext
      rw [List.mapM_cons]
      refine hled.andThen (ih false hids) List.cons (fun layout layouts => ?_) ?_
      · rw [Layout.lexemesBetween]
      · rintro ts us rfl rfl
        rfl

theorem children_traces (hchild : TracesChildren r o d W forest frame.node.fields render)
    {info : RuleInfo} (hword : ∀ text ∈ info.attrs.separator, W text) (name : String) :
    Traces r o d W Layout.lexemes (renderChildren render frame info name) fun ts =>
      frame.has name = true ∧ ts = Content.terminalsAt (parts forest frame) name := by
  rw [renderChildren]
  cases hl : frame.node.fields.lookup name with
  | none => exact traces_throw _
  | some value =>
      have hmem : ∀ id ∈ value.children, id ∈ frame.node.fields.children := fun id hid =>
        List.mem_flatMap.2 ⟨(name, value), mem_of_lookup hl, hid⟩
      have hhas : frame.has name = true := by
        rw [Frame.has, hl]
        rfl
      have hterminals : Content.terminalsAt (parts forest frame) name =
          (value.content forest.content).terminals := by
        rw [Content.terminalsAt, Forest.lookup_contents, hl]
        rfl
      rw [hterminals]
      cases value with
      | terminal t => exact traces_throw _
      | node id =>
          have hbody := hchild (frame.childContext info name) id (hmem id (List.mem_singleton_self id))
          refine (hbody.map _ fun body => ?_).mono fun ts hts => ⟨hhas, hts⟩
          cases info.attrs.tight <;> simp [Layout.lexemes, Layout.lexemesAll]
      | list ids =>
          have hall := mapM_traces hword true ids fun id hid => hchild .free id (hmem id hid)
          have hlist := hall.map (g := Layout.lexemes)
            (.list info.attrs.newline info.attrs.tight info.attrs.separator) fun layouts => rfl
          exact hlist.mono fun ts hts => ⟨hhas, hts⟩

/-- The terminals of some fields that are there, one field after the other. -/
def Holds (forest : Forest) (frame : Frame) (names : Option (List String))
    (ts : List Terminal) : Prop :=
  ∃ l, names = some l ∧ (∀ name ∈ l, frame.has name = true) ∧
    ts = l.flatMap (Content.terminalsAt (parts forest frame))

theorem holds_nil : Holds forest frame (some []) [] :=
  ⟨[], rfl, by simp, rfl⟩

theorem holds_field {name : String} {ts : List Terminal}
    (h : frame.has name = true ∧ ts = Content.terminalsAt (parts forest frame) name) :
    Holds forest frame (some [name]) ts :=
  ⟨[name], rfl, by simpa using h.1, by simpa using h.2⟩

theorem Holds.append {a b : Option (List String)} {ts us : List Terminal}
    (ha : Holds forest frame a ts) (hb : Holds forest frame b us) :
    Holds forest frame (do return (← a) ++ (← b)) (ts ++ us) := by
  obtain ⟨l, rfl, hl, rfl⟩ := ha
  obtain ⟨l', rfl, hl', rfl⟩ := hb
  exact ⟨l ++ l', rfl, List.forall_mem_append.2 ⟨hl, hl'⟩, List.flatMap_append.symm⟩

theorem token_traces {info : RuleInfo} {kinds : List TokenKind} {values : List String}
    (hwords : ∀ text ∈ (Production.token info kinds values).words o.keywordCase, W text) :
    Traces r o d W Layout.lexemes (renderBody o d render frame (.token info kinds values))
      (Holds forest frame (some info.attrs.name.toList)) := by
  dsimp only [renderBody]
  cases hname : info.attrs.name with
  | some name => exact (terminal_traces info name).mono fun ts => holds_field
  | none =>
      cases kinds with
      | nil => exact traces_nil rfl holds_nil
      | cons kind kinds =>
          cases values with
          | nil => exact traces_nil rfl holds_nil
          | cons value values =>
              have hword : W (fixedSpelling o.keywordCase kind value) :=
                hwords _ (by simp [Production.words, hname])
              exact traces_word (Writing.lexemes_token _ _) hword holds_nil

mutual

/-- A production writes the terminals of its fields, one field after the other. -/
theorem rule_traces {frame : Frame}
    (hchild : TracesChildren r o d W forest frame.node.fields render) (p : Production)
    (hwords : ∀ text ∈ p.words o.keywordCase, W text) :
    Traces r o d W Layout.lexemes (renderRule o d render frame p)
      (Holds forest frame (p.written? frame.has)) := by
  rw [renderRule_eq, Production.written?.eq_def]
  split
  next => exact traces_nil rfl holds_nil
  next =>
    refine Traces.map ?_ _ fun body => Writing.lexemes_arrange p.attrs body
    match p with
    | .token info kinds values => exact token_traces hwords
    | .node info types climb =>
        dsimp only [renderBody]
        cases hname : info.attrs.name with
        | some name =>
            have hword : ∀ text ∈ info.attrs.separator, W text := fun text htext =>
              hwords text (by simpa [Production.words] using htext)
            exact (children_traces hchild hword name).mono fun ts => holds_field
        | none => exact traces_nil rfl holds_nil
    | .sequence info parts =>
        exact (all_traces hchild parts hwords).map _ fun _ => rfl
    | .alternatives info branches =>
        dsimp only [renderBody]
        cases hname : info.attrs.name with
        | some name => exact (terminal_traces info name).mono fun ts => holds_field
        | none => exact first_traces hchild _ branches hwords
    | .block info bracket inner =>
        obtain ⟨hopener, hwords⟩ := List.forall_mem_cons.1 hwords
        obtain ⟨hcloser, hwords⟩ := List.forall_mem_cons.1 hwords
        -- Brackets may be left out, which changes the context and not the fields.
        have hinner (context : Context) (exposed : Bool) :
            Traces r o d W Layout.lexemes
              (renderRule o d render { frame with context, exposed } inner)
              (Holds forest frame (inner.written? frame.has)) :=
          rule_traces (by exact hchild) inner hwords
        dsimp only [renderBody]
        split
        next => exact traces_nil rfl holds_nil
        next =>
          split
          next => exact hinner frame.context true
          next =>
            refine (hinner .free false).wrap hopener hcloser _ fun body => ?_
            simp [Layout.lexemes, Layout.lexemesAll, Writing.lexemes_token]

theorem all_traces {frame : Frame}
    (hchild : TracesChildren r o d W forest frame.node.fields render) (parts : List Production)
    (hwords : ∀ text ∈ Production.wordsAll o.keywordCase parts, W text) :
    Traces r o d W Layout.lexemesAll (renderAll o d render frame parts)
      (Holds forest frame (Production.writtenAll? frame.has parts)) := by
  match parts with
  | [] => exact traces_nil rfl holds_nil
  | p :: rest =>
      obtain ⟨hp, hrest⟩ := List.forall_mem_append.1 hwords
      rw [renderAll, Production.writtenAll?]
      exact (rule_traces hchild p hp).andThen (all_traces hchild rest hrest) List.cons
        (fun _ _ => rfl) fun ts us => Holds.append

theorem first_traces {frame : Frame}
    (hchild : TracesChildren r o d W forest frame.node.fields render) (present : List String)
    (branches : List Production)
    (hwords : ∀ text ∈ Production.wordsAll o.keywordCase branches, W text) :
    Traces r o d W Layout.lexemes (renderFirst o d render frame present branches)
      (Holds forest frame (Production.writtenFirst? frame.has present branches)) := by
  match branches with
  | [] => exact traces_throw _
  | p :: rest =>
      obtain ⟨hp, hrest⟩ := List.forall_mem_append.1 hwords
      rw [renderFirst, Production.writtenFirst?]
      split
      · exact rule_traces hchild p hp
      · exact first_traces hchild present rest hrest

end

end Rendering

/-! ### Trees -/

/-- A grammar whose types write all of their fields, in the order in which every
dialect has them. -/
structure Registry.Exhaustive (r : Registry) (d : Dialect) : Prop where
  ordered : ∀ {tag schema root}, (r.schema tag d).1 = .ok schema → schema.root = some root →
    root.ordered (r.order tag) = true
  complete : ∀ {tag schema root}, (r.schema tag d).1 = .ok schema → schema.root = some root →
    ∀ name ∈ r.order tag, name ∈ root.sets

/-- Trees of which no condition of a grammar keeps a field back. -/
abbrev Content.Unguarded (r : Registry) (d : Dialect) : Content → Prop :=
  Content.Each fun tag fields => ∀ schema root, (r.schema tag d).1 = .ok schema →
    schema.root = some root → ∀ guard ∈ root.guards, Parts.has fields guard.2 = true →
      guard.1.holds (Parts.has fields) = true

namespace Rendering

open Fallible

variable {r : Registry} {o : FormatOptions} {d : Dialect} {forest : Forest} {tag : String}
  {schema : Schema} {root : Production}

theorem has_eq (forest : Forest) (frame : Frame) :
    frame.has = Parts.has (parts forest frame) := by
  funext name
  rw [Frame.has, Parts.has, Forest.lookup_contents, Option.isSome_map]

/-- The fields that are written are those of the tree, so that its terminals are. -/
theorem terminals_of_holds (hr : r.Exhaustive d) {frame : Frame} {ts : List Terminal}
    (hschema : (r.schema tag d).1 = .ok schema) (hroot : schema.root = some root)
    (hordered : ((parts forest frame).map Prod.fst).Sublist (r.order tag))
    (hkept : ∀ guard ∈ root.guards, Parts.has (parts forest frame) guard.2 = true →
      guard.1.holds (Parts.has (parts forest frame)) = true)
    (h : Holds forest frame (root.written? frame.has) ts) :
    ts = Content.fieldTerminals (parts forest frame) := by
  obtain ⟨names, hnames, hhas, rfl⟩ := h
  have hnodup : (r.order tag).Nodup := List.nodup_dedup _
  rw [has_eq forest] at hnames hhas
  have hlists := Production.written_lists root (hr.ordered hschema hroot) hnames
  have hall := hlists.eq_of_sublist hnodup hordered (fun name => isSome_lookup_iff) hhas
    (hr.complete hschema hroot) hkept
  rw [hall, Content.flatMap_terminalsAt (hordered.nodup hnodup)]

theorem renderShape_traces (hr : r.Exhaustive d) {render : Context → NodeId → Rendering Layout}
    (node : Node) (hschema : (r.schema tag d).1 = .ok schema) (hroot : schema.root = some root)
    (hordered : ((node.fields.contents forest.content).map Prod.fst).Sublist (r.order tag))
    (hkept : ∀ guard ∈ root.guards, Parts.has (node.fields.contents forest.content) guard.2 = true →
      guard.1.holds (Parts.has (node.fields.contents forest.content)) = true)
    (hchild : TracesChildren r o d (r.IsWord o.keywordCase d) forest node.fields render)
    (context : Context) (operation : Option Operation) :
    Traces r o d (r.IsWord o.keywordCase d) Layout.lexemes
      (renderShape o d render node context operation root)
      (· = Content.fieldTerminals (node.fields.contents forest.content)) := by
  have hwords : ∀ text ∈ root.words o.keywordCase, r.IsWord o.keywordCase d text :=
    fun text htext => .inr ⟨tag, schema, root, hschema, hroot, htext⟩
  have hrule (context : Context) : Traces r o d (r.IsWord o.keywordCase d) Layout.lexemes
      (renderRule o d render { node, context, operation } root)
      (· = Content.fieldTerminals (node.fields.contents forest.content)) :=
    (rule_traces hchild root hwords).mono fun ts =>
      terminals_of_holds hr hschema hroot hordered hkept
  rw [renderShape]
  split
  · have hopener : r.IsWord o.keywordCase d "(" := .inl (by simp)
    have hcloser : r.IsWord o.keywordCase d ")" := .inl (by simp)
    refine (hrule .free).wrap hopener hcloser _ fun body => ?_
    simp [Layout.lexemes, Layout.lexemesAll]
  · exact hrule context

/-- A node that is written is written by the root of its schema. The schema is asked for
first, which changes nothing but the cache. -/
theorem renderNode_ok {depth : Nat} {context : Context} {id : NodeId} {s s' : RenderState}
    {layout : Layout} (agrees : r.Agrees s.registry)
    (hrun : renderNode o d forest (depth + 1) context id s = (.ok layout, s')) :
    ∃ schema root operation registry, (r.schema (forest.tag id) d).1 = .ok schema ∧
      schema.root = some root ∧ r.Agrees registry ∧
      renderShape o d (renderNode o d forest depth)
        { tag := forest.tag id, fields := forest.fields id, parent := forest.parent? id } context
        operation root { s with registry } = (.ok layout, s') := by
  simp only [renderNode, bind_eq_ok, get_eq_ok] at hrun
  obtain ⟨_, _, ⟨rfl, rfl⟩, hrun⟩ := hrun
  cases htype : s.registry.type? (forest.tag id) with
  | none => simp only [htype, throw_eq_ok] at hrun
  | some nodeType =>
      simp only [htype, bind_eq_ok] at hrun
      obtain ⟨schema, s₁, hasked, hrun⟩ := hrun
      obtain ⟨hschema, rfl⟩ := Prod.ext_iff.1 hasked
      replace hschema := (agrees.schemas _ _).symm.trans hschema
      cases hroot : schema.root with
      | none => simp only [hroot, throw_eq_ok] at hrun
      | some root =>
          simp only [hroot] at hrun
          exact ⟨schema, root, _, _, hschema, hroot, agrees.trans (Registry.agrees_schema ..), hrun⟩

/-- A node is written with all terminals of its tree, each of them once. -/
theorem renderNode_traces (hr : r.Exhaustive d) (hd : forest.Descends 0) {depth : Nat}
    {context : Context} {id : NodeId} (hordered : (forest.content id).Ordered r)
    (hkept : (forest.content id).Unguarded r d) :
    Traces r o d (r.IsWord o.keywordCase d) Layout.lexemes
      (renderNode o d forest depth context id) (· = (forest.content id).terminals) := by
  induction depth generalizing context id with
  | zero => exact traces_throw _
  | succ depth ih =>
      rw [Forest.content_eq hd (Nat.zero_le id)] at hordered hkept ⊢
      obtain ⟨hordered, horderedFields⟩ := hordered
      obtain ⟨hkept, hkeptFields⟩ := hkept
      have hchild : TracesChildren r o d (r.IsWord o.keywordCase d) forest (forest.fields id)
          (renderNode o d forest depth) := fun context child hmem =>
        ih (Content.EachField.child horderedFields hmem) (Content.EachField.child hkeptFields hmem)
      let node : Node :=
        { tag := forest.tag id, fields := forest.fields id, parent := forest.parent? id }
      intro s layout s' agrees hrun
      obtain ⟨schema, root, operation, registry, hschema, hroot, agrees', hrun⟩ :=
        renderNode_ok agrees hrun
      exact renderShape_traces hr node hschema hroot hordered (hkept schema root hschema hroot)
        hchild context operation { s with registry } layout s' agrees' hrun

end Rendering

/-! ### The standard grammar -/

namespace Registry

/-- Whether the types write all of their fields in their order, and no condition
keeps a field back but the given ones. -/
def isExhaustive (r : Registry) (d : Dialect) (guards : List (Condition × String)) : Bool :=
  r.types.all fun entry =>
    match (r.schema entry.1 d).1 with
    | .ok schema => schema.root.all fun root =>
        root.ordered (r.order entry.1) && Production.within (r.order entry.1) root.sets &&
          root.guards.all guards.contains
    | .error _ => true

variable {r : Registry} {d : Dialect} {guards : List (Condition × String)} {tag : String}
  {schema : Schema} {root : Production}

theorem facts_of_isExhaustive (h : r.isExhaustive d guards = true)
    (hschema : (r.schema tag d).1 = .ok schema) (hroot : schema.root = some root) :
    (root.ordered (r.order tag) = true ∧ ∀ name ∈ r.order tag, name ∈ root.sets) ∧
      ∀ guard ∈ root.guards, guard ∈ guards := by
  obtain ⟨nodeType, htype⟩ := exists_type_of_schema hschema
  have hentry := List.all_eq_true.1 h _ (mem_types htype)
  simp only [hschema, hroot, Option.all_some, Bool.and_eq_true, List.all_eq_true,
    List.contains_iff_mem] at hentry
  exact ⟨⟨hentry.1.1, fun name hname => Production.mem_of_within hentry.1.2 hname⟩, hentry.2⟩

end Registry

namespace Standard

/-- An offset needs a limit. -/
def guard : Condition × String :=
  (.present "limit", "offset")

/-- The conditions that keep fields back in a dialect. -/
def guards : Dialect → List (Condition × String)
  | .postgres => []
  | .mysql => [guard]

theorem isExhaustive (d : Dialect) : (extend {}).isExhaustive d (guards d) = true := by
  have hall : ∀ d ∈ Dialect.all, (extend {}).isExhaustive d (guards d) = true := by
    decide +kernel
  exact hall d d.mem_all

theorem exhaustive (d : Dialect) : (extend {}).Exhaustive d where
  ordered hschema hroot := (Registry.facts_of_isExhaustive (isExhaustive d) hschema hroot).1.1
  complete hschema hroot := (Registry.facts_of_isExhaustive (isExhaustive d) hschema hroot).1.2

end Standard

/-- Trees in which no offset stands without a limit. -/
abbrev Content.Limited : Content → Prop :=
  Each fun _ fields => Parts.has fields "offset" = true → Parts.has fields "limit" = true

/-- Only in one dialect can a field be kept back, and there it is an offset. -/
theorem Content.unguarded {x : Content} {d : Dialect} (h : d = .mysql → x.Limited) :
    x.Unguarded (Standard.extend {}) d := by
  cases d with
  | postgres =>
      refine each_of_forall (fun tag fields schema root hschema hroot guard hguard => ?_) x
      exact absurd ((Registry.facts_of_isExhaustive (Standard.isExhaustive .postgres) hschema
        hroot).2 _ hguard) List.not_mem_nil
  | mysql =>
      refine Each.mono (fun tag fields hfields schema root hschema hroot guard hguard hhas => ?_)
        (h rfl)
      obtain rfl := List.mem_singleton.1
        ((Registry.facts_of_isExhaustive (Standard.isExhaustive .mysql) hschema hroot).2 _ hguard)
      exact hfields hhas

/-- A field of a shape that fits applies. -/
theorem Outline.holds_of_fits {d : Dialect} {has : String → Bool} {shape : Shape} {parts : Parts}
    (h : shape.Fits d has parts) :
    ∀ f ∈ parts, ∃ field ∈ shape, field.name = f.1 ∧ field.condition.all (·.holds has) = true := by
  induction shape generalizing parts with
  | nil =>
      obtain rfl : parts = [] := h
      exact nofun
  | cons field rest ih =>
      intro f hf
      have hlater {more : Parts} (hfits : Shape.Fits d has rest more) (hmem : f ∈ more) :
          ∃ field' ∈ field :: rest, field'.name = f.1 ∧
            field'.condition.all (·.holds has) = true := by
        obtain ⟨field', hfield', hholds⟩ := ih hfits f hmem
        exact ⟨field', List.mem_cons_of_mem _ hfield', hholds⟩
      rcases h with ⟨-, h⟩ | ⟨x, more, rfl, hholds, -, h⟩
      · exact hlater h hf
      · rcases List.mem_cons.1 hf with rfl | hf
        · exact ⟨field, List.mem_cons_self, rfl, hholds⟩
        · exact hlater h hf

/-- Whether a field applies on a condition only, wherever it stands. -/
def Registry.isGuarded (r : Registry) (d : Dialect) (guard : Condition × String) : Bool :=
  r.types.all fun entry =>
    match (r.schema entry.1 d).1 with
    | .ok schema => schema.shapes.all fun shape => shape.all fun field =>
        field.name != guard.2 || field.condition == some guard.1
    | .error _ => true

namespace Standard

/-- Where placeholders have no numbers, an offset is read behind a limit only. -/
theorem isGuarded : (extend {}).isGuarded .mysql guard = true := by
  decide +kernel

/-- No offset stands without a limit in a tree that fits the shapes of the dialect
that has none there. -/
theorem limited_of_shaped {x : Content} (h : x.Shaped (readable .mysql).toOutline) :
    x.Limited := by
  refine Content.Each.mono (fun tag fields => ?_) h
  rintro ⟨schema, shape, hschema, hshape, hfits⟩ hoffset
  obtain ⟨value, hlookup⟩ := Option.isSome_iff_exists.1 hoffset
  obtain ⟨field, hfield, hname, hholds⟩ := Outline.holds_of_fits hfits _ (mem_of_lookup hlookup)
  obtain ⟨nodeType, htype⟩ := Registry.exists_type_of_schema hschema
  have hentry := List.all_eq_true.1 isGuarded _ (Registry.mem_types htype)
  simp only [show ((extend {}).schema tag .mysql).1 = .ok schema from hschema] at hentry
  have hguard := List.all_eq_true.1 (List.all_eq_true.1 hentry shape hshape) field hfield
  obtain hcondition : field.condition = some (.present "limit") := by
    simpa [hname, guard] using hguard
  rw [hcondition] at hholds
  exact hholds

end Standard

namespace Tree

variable {d d' : Dialect} {sql text : String} {t : Tree} {o : FormatOptions}

/-- The text of a parsed tree in a dialect is made of words of the grammar there
and of the terminals of the tree, each of which is written once and in its
order, if no offset stands without a limit where it needs one. -/
theorem exists_marks (h : parse d sql = .ok t) (hlimited : d' = .mysql → t.content.Limited)
    (htext : t.toSqlWith d' o = .ok text) :
    ∃ marks lexemes, Mark.terminals marks = t.content.terminals ∧
      (∀ word, .word word ∈ marks → (Standard.extend {}).IsWord o.keywordCase d' word) ∧
      Mark.spell o.keywordCase d' 0 marks = .ok lexemes ∧ Layout.Spaced lexemes text.toList := by
  have accepted := accepted_of_parseAs h
  obtain ⟨trees, rest, fuel, hlexed, -, hfound, -⟩ := accepted.found
  have hx : (Standard.readable d).Fitting [Standard.script] t.content :=
    (((Standard.readable d).tells fuel).any hlexed hfound).2
  rw [toSqlWith, layout] at htext
  rcases hrun : Rendering.render o d' t.forest t.root { registry := Standard.registry }
    with ⟨e | layout, s'⟩
  · rw [hrun] at htext
    cases htext
  · rw [hrun] at htext
    obtain ⟨-, rfl⟩ := Layout.print_eq_ok.1 htext
    have agrees : (Standard.extend {}).Agrees Standard.registry := Standard.agrees_registry d'
    obtain ⟨marks, hterminals, hwords, hspell, -, -⟩ :=
      Rendering.renderNode_traces (Standard.exhaustive d') accepted.descends
        ((Standard.inOrder d).ordered hx.2) (Content.unguarded hlimited) _ _ _ agrees hrun
    exact ⟨marks, layout.lexemes, hterminals, hwords, hspell, layout.spaced_toText o⟩

/-- A limit and an offset are written in the other dialect, in their order. -/
theorem limitedOffset_marks :
    ∃ t text, parse .postgres "select $1 limit 2 offset 5" = .ok t ∧ t.content.Limited ∧
      t.toSqlWith .mysql {} = .ok text ∧
      ∃ marks lexemes, Mark.terminals marks = t.content.terminals ∧
        (∀ word, .word word ∈ marks → (Standard.extend {}).IsWord .upper .mysql word) ∧
        Mark.spell .upper .mysql 0 marks = .ok lexemes ∧ Layout.Spaced lexemes text.toList := by
  have hfacts : ((parse .postgres "select $1 limit 2 offset 5").toOption.any fun t =>
      decide t.content.Limited && (t.toSqlWith .mysql {}).toOption.isSome) = true := by
    unfold parse parseAs parseChunks parseSource toSqlWith layout
    rw [Standard.registry_eq]
    decide +kernel
  cases ht : parse .postgres "select $1 limit 2 offset 5" with
  | error e =>
      rw [ht] at hfacts
      cases hfacts
  | ok t =>
      rw [ht] at hfacts
      simp only [Except.toOption, Option.any_some, Bool.and_eq_true, decide_eq_true_eq] at hfacts
      obtain ⟨hlimited, hwritten⟩ := hfacts
      cases htext : t.toSqlWith .mysql {} with
      | error e => simp [htext] at hwritten
      | ok text => exact ⟨t, text, rfl, hlimited, htext, exists_marks ht (fun _ => hlimited) htext⟩

/-- The text in another dialect. -/
def written? (d d' : Dialect) (sql : String) : Option String := do
  let t ← (parse d sql).toOption
  (t.toSqlWith d' {}).toOption

/-- An offset without a limit has no place in the other dialect, and is left
out without an error. -/
theorem offset_left_out : written? .postgres .mysql "select a offset 5" = some "SELECT a" := by
  unfold written? parse parseAs parseChunks parseSource toSqlWith layout
  rw [Standard.registry_eq]
  decide +kernel

end Tree

end DualSql
