import DualSql.Proofs.Grammar.Provenance
import DualSql.Proofs.Lexer.BindMarks

/-! # The order of writing

In which order the terminals of a tree are written depends on nothing but the
fields of its nodes. When a tree is rendered its terminals are reached in this
order: if all are written, they are written as they are spelled one after the
other, and if a placeholder is found out of place, so it is in spelling them.
The words in between are no placeholders.

Main definitions: `Content.reached` and `Rendering.Reaches`. Main results:
`Rendering.renderNode_reaches` and `Standard.isBind_of_isWord`. -/

namespace DualSql

namespace Mark

variable {c : KeywordCase} {d : Dialect} {binds : Nat} {a b : List Mark} {xs : List String}

/-- Marks are spelled one part after the other. -/
theorem spell_append_eq (binds : Nat) (a b : List Mark) :
    spell c d binds (a ++ b) =
      (spell c d binds a).bind fun xs =>
        (spell c d ((terminals a).foldl count binds) b).map (xs ++ ·) := by
  induction a generalizing binds with
  | nil =>
      change spell c d binds b = (spell c d binds b).map id
      cases spell c d binds b <;> rfl
  | cons mark a ih =>
      cases mark with
      | word text =>
          rw [List.cons_append, spell, spell, ih, terminals]
          cases spell c d binds a with
          | error e => rfl
          | ok xs => cases spell c d ((terminals a).foldl count binds) b <;> rfl
      | terminal t =>
          rw [List.cons_append, spell, spell, terminals, List.foldl_cons]
          cases t.spelling c d (count binds t) with
          | error e => rfl
          | ok text =>
              dsimp only
              rw [ih]
              cases spell c d (count binds t) a with
              | error e => rfl
              | ok xs => cases spell c d ((terminals a).foldl count (count binds t)) b <;> rfl

theorem terminals_map_terminal (ts : List Terminal) : terminals (ts.map terminal) = ts := by
  induction ts with
  | nil => rfl
  | cons t ts ih => exact congrArg (t :: ·) ih

/-- Where marks can be spelled, so can their terminals alone. -/
theorem exists_spell_terminals (h : spell c d binds a = .ok xs) :
    ∃ ys, spell c d binds ((terminals a).map terminal) = .ok ys := by
  induction a generalizing binds xs with
  | nil => exact ⟨[], rfl⟩
  | cons mark a ih =>
      cases mark with
      | word text =>
          obtain ⟨rest, hrest, -⟩ := spell_word_eq_ok.1 h
          exact ih hrest
      | terminal t =>
          obtain ⟨text, rest, htext, hrest, -⟩ := spell_terminal_eq_ok.1 h
          obtain ⟨ys, hys⟩ := ih hrest
          exact ⟨_, spell_terminal_eq_ok.2 ⟨text, ys, htext, hys, rfl⟩⟩

end Mark

/-! ### The order -/

namespace Production

mutual

/-- The fields that a production writes, in their order, as far as it can be written. -/
def writes (has : String → Bool) (p : Production) : List String :=
  if p.isSkipped has then []
  else
    match p with
    | token info _ _ | node info _ _ => info.attrs.name.toList
    | sequence _ parts => writesAll has parts
    | alternatives info branches =>
      match info.attrs.name with
      | some name => [name]
      | none => writesFirst has (info.fields.filter has) branches
    | block info _ inner =>
      if info.attrs.optionalParens && !inner.info.fields.any has then []
      else inner.writes has

/-- The fields that several productions write one after the other. -/
def writesAll (has : String → Bool) : List Production → List String
  | [] => []
  | p :: rest => p.writes has ++ writesAll has rest

/-- The fields that the first production writes that has a place for all present fields. -/
def writesFirst (has : String → Bool) (present : List String) : List Production → List String
  | [] => []
  | p :: rest =>
    if present.all p.info.fields.contains && p.fits has then p.writes has
    else writesFirst has present rest

end

end Production

/-- The fields that a type writes, in their order. -/
def Registry.writes (r : Registry) (d : Dialect) (tag : String) (has : String → Bool) :
    List String :=
  match (r.schema tag d).1 with
  | .ok schema => schema.root.elim [] (·.writes has)
  | .error _ => []

theorem Registry.writes_eq {r : Registry} {d : Dialect} {tag : String} {schema : Schema}
    {root : Production} (hschema : (r.schema tag d).1 = .ok schema)
    (hroot : schema.root = some root) (has : String → Bool) : r.writes d tag has = root.writes has := by
  rw [writes, hschema]
  dsimp only
  rw [hroot]
  rfl

namespace Content

mutual

/-- The terminals of a content in the order in which they are reached when it is
written in a dialect. A field that the grammar keeps back is not reached. -/
def reached (r : Registry) (d : Dialect) : Content → List Terminal
  | terminal t => [t]
  | node tag fields =>
    (r.writes d tag (Parts.has fields)).flatMap fun name =>
      ((reachedFields r d fields).lookup name).getD []
  | list items => reachedItems r d items

/-- The terminals that are reached in each field. -/
def reachedFields (r : Registry) (d : Dialect) : Parts → List (String × List Terminal)
  | [] => []
  | (name, x) :: rest => (name, x.reached r d) :: reachedFields r d rest

/-- The terminals that are reached in items. -/
def reachedItems (r : Registry) (d : Dialect) : List Content → List Terminal
  | [] => []
  | x :: rest => x.reached r d ++ reachedItems r d rest

end

/-- The terminals that are reached in a field, if it is there. -/
def reachedAt (r : Registry) (d : Dialect) (fields : Parts) (name : String) : List Terminal :=
  (fields.lookup name).elim [] (reached r d)

theorem lookup_reachedFields (r : Registry) (d : Dialect) (fields : Parts) (name : String) :
    ((reachedFields r d fields).lookup name).getD [] = reachedAt r d fields name := by
  rw [reachedAt]
  induction fields with
  | nil => rfl
  | cons f rest ih =>
      obtain ⟨other, x⟩ := f
      rw [reachedFields, List.lookup_cons, List.lookup_cons]
      cases name == other with
      | true => rfl
      | false => exact ih

theorem reached_node (r : Registry) (d : Dialect) (tag : String) (fields : Parts) :
    (node tag fields).reached r d =
      (r.writes d tag (Parts.has fields)).flatMap (reachedAt r d fields) := by
  rw [reached]
  exact List.flatMap_congr fun name _ => lookup_reachedFields r d fields name

/-- Whatever is reached is there. -/
theorem mem_of_mem_reachedAt {r : Registry} {d : Dialect} {fields : Parts} {name : String}
    {t : Terminal} (h : t ∈ reachedAt r d fields name) :
    ∃ x, (name, x) ∈ fields ∧ t ∈ x.reached r d := by
  rw [reachedAt] at h
  cases hl : fields.lookup name with
  | none =>
      rw [hl] at h
      cases h
  | some x =>
      rw [hl] at h
      exact ⟨x, mem_of_lookup hl, h⟩

mutual

/-- The terminals that are reached are terminals of the content. -/
theorem reached_subset (r : Registry) (d : Dialect) (x : Content) :
    x.reached r d ⊆ x.terminals := by
  match x with
  | terminal t => exact List.Subset.refl _
  | node tag fields =>
      intro t ht
      rw [reached_node] at ht
      obtain ⟨name, -, hname⟩ := List.mem_flatMap.1 ht
      obtain ⟨y, hy, hty⟩ := mem_of_mem_reachedAt hname
      exact reachedFields_subset r d fields _ hy hty
  | list items => exact reachedItems_subset r d items

theorem reachedFields_subset (r : Registry) (d : Dialect) (fields : Parts) :
    ∀ f ∈ fields, f.2.reached r d ⊆ fieldTerminals fields := by
  match fields with
  | [] => exact nofun
  | (name, x) :: rest =>
      intro f hf
      rw [fieldTerminals]
      rcases List.mem_cons.1 hf with rfl | hf
      · exact List.subset_append_of_subset_left _ (reached_subset r d x)
      · exact List.subset_append_of_subset_right _ (reachedFields_subset r d rest f hf)

theorem reachedItems_subset (r : Registry) (d : Dialect) (items : List Content) :
    reachedItems r d items ⊆ itemTerminals items := by
  match items with
  | [] => exact List.Subset.refl _
  | x :: rest =>
      rw [reachedItems, itemTerminals]
      exact List.append_subset.2
        ⟨List.subset_append_of_subset_left _ (reached_subset r d x),
          List.subset_append_of_subset_right _ (reachedItems_subset r d rest)⟩

end

end Content

/-! ### Rendering -/

namespace Rendering

open Fallible

variable {r : Registry} {o : FormatOptions} {d : Dialect} {W : String → Prop} {α β γ : Type}
  {f : α → List String} {g : β → List String} {h : γ → List String} {m : Rendering α}
  {n : Rendering β} {ts us : List Terminal}

/-- A computation comes to terminals one after the other. If it succeeds, all of
them have been written; if a placeholder is out of place, it is so among them. -/
structure Reaches (r : Registry) (o : FormatOptions) (d : Dialect) (W : String → Prop)
    (view : α → List String) (m : Rendering α) (ts : List Terminal) : Prop where
  traces : Traces r o d W view m (· = ts)
  error {s s' : RenderState} {index position : Nat} {d' : Dialect} (agrees : r.Agrees s.registry)
    (run : m s = (.error (.render (.bindOrder index position d')), s')) :
    Mark.spell o.keywordCase d s.binds (ts.map .terminal) = .error (.bindOrder index position d')

theorem reaches_nil {a : α} (hf : f a = []) : Reaches r o d W f (pure a) [] where
  traces := traces_nil hf rfl
  error _ run := (pure_eq_error.1 run).elim

theorem reaches_word {a : α} {text : String} (hf : f a = [text]) (hword : W text) :
    Reaches r o d W f (pure a) [] where
  traces := traces_word hf hword rfl
  error _ run := (pure_eq_error.1 run).elim

theorem reaches_throw {e : Error}
    (he : ∀ index position d', e ≠ .render (.bindOrder index position d')) :
    Reaches r o d W f (throw e) ts where
  traces := traces_throw e
  error _ run := absurd (throw_eq_error.1 run).1 (he _ _ _)

theorem Reaches.andThen (hm : Reaches r o d W f m ts) (hn : Reaches r o d W g n us)
    (c : α → β → γ) (hc : ∀ a b, h (c a b) = f a ++ g b) :
    Reaches r o d W h (do let a ← m; let b ← n; pure (c a b)) (ts ++ us) where
  traces := hm.traces.andThen hn.traces c hc fun ts us hts hus => congrArg₂ (· ++ ·) hts hus
  error agrees run := by
    rw [List.map_append, Mark.spell_append_eq, Mark.terminals_map_terminal]
    simp only [bind_eq_error, pure_eq_error, and_false, exists_false, or_false] at run
    rcases run with hrun | ⟨a, s₁, hrun, hrun'⟩
    · rw [hm.error agrees hrun]
      rfl
    · obtain ⟨marks, rfl, -, hspell, hbinds, agrees₁⟩ := hm.traces _ _ _ agrees hrun
      obtain ⟨xs, hxs⟩ := Mark.exists_spell_terminals hspell
      have hfails := hn.error agrees₁ hrun'
      rw [hbinds] at hfails
      rw [hxs, Except.bind, hfails]
      rfl

theorem Reaches.map (hm : Reaches r o d W f m ts) (c : α → β) (hc : ∀ a, g (c a) = f a) :
    Reaches r o d W g (do let a ← m; pure (c a)) ts where
  traces := hm.traces.map c hc
  error agrees run := by
    simp only [bind_eq_error, pure_eq_error, and_false, exists_false, or_false] at run
    exact hm.error agrees run

/-- Words before what is written. -/
theorem Reaches.led (hm : Reaches r o d W f m ts) {before : List String}
    (hbefore : ∀ text ∈ before, W text) : Reaches r o d W (fun a => before ++ f a) m ts :=
  ⟨hm.traces.led hbefore, hm.error⟩

/-- Brackets around what is written. -/
theorem Reaches.wrap (hm : Reaches r o d W f m ts) {before after : String} (hbefore : W before)
    (hafter : W after) (c : α → β) (hc : ∀ a, g (c a) = before :: (f a ++ [after])) :
    Reaches r o d W g (do let a ← m; pure (c a)) ts where
  traces := hm.traces.wrap hbefore hafter c hc
  error agrees run := by
    simp only [bind_eq_error, pure_eq_error, and_false, exists_false, or_false] at run
    exact hm.error agrees run

/-- A terminal is spelled at its place among the placeholders. -/
theorem spell_eq_spelling (t : Terminal) (s : RenderState) :
    spell o d t s =
      ((t.spelling o.keywordCase d (Mark.count s.binds t)).mapError .render,
        { s with binds := Mark.count s.binds t }) := by
  rw [spell, Mark.count]
  by_cases hkind : t.kind = .bindVariable
  · simp only [hkind, if_true, modify_bind, get_bind]
    cases t.spelling o.keywordCase d (s.binds + 1) <;> rfl
  · simp only [hkind, if_false, get_bind]
    cases t.spelling o.keywordCase d s.binds <;> rfl

theorem spell_reaches (t : Terminal) :
    Reaches r o d W (fun text => [text]) (spell o d t) [t] where
  traces := spell_traces t
  error {s _ _ _ _} _ run := by
    rw [spell_eq_spelling] at run
    rw [List.map_singleton, Mark.spell]
    cases hspelling : t.spelling o.keywordCase d (Mark.count s.binds t) with
    | ok text =>
        rw [hspelling] at run
        cases run
    | error e =>
        rw [hspelling] at run
        cases run
        rfl

variable {forest : Forest} {frame : Frame} {render : Context → NodeId → Rendering Layout}

theorem missingField_ne (node : Node) (name : String) (index position : Nat) (d' : Dialect) :
    missingField node name ≠ .render (.bindOrder index position d') := by
  intro h
  cases h

theorem terminal_reaches (info : RuleInfo) (name : String) :
    Reaches r o d W Layout.lexemes (renderTerminal o d frame info name)
      (Content.reachedAt r d (parts forest frame) name) := by
  rw [renderTerminal]
  cases hl : frame.node.fields.lookup name with
  | none => exact reaches_throw (missingField_ne _ _)
  | some value =>
      cases value with
      | terminal t =>
          have ht : Content.reachedAt r d (parts forest frame) name = [t] := by
            rw [Content.reachedAt, Forest.lookup_contents, hl]
            rfl
          rw [ht]
          exact (spell_reaches t).map _ fun text => Writing.lexemes_token text _
      | node | list => exact reaches_throw (missingField_ne _ _)

/-- Writing a child comes to the terminals of its tree. -/
def ReachesChildren (r : Registry) (o : FormatOptions) (d : Dialect) (W : String → Prop)
    (forest : Forest) (fields : Fields) (render : Context → NodeId → Rendering Layout) : Prop :=
  ∀ context, ∀ id ∈ fields.children,
    Reaches r o d W Layout.lexemes (render context id) ((forest.content id).reached r d)

theorem mapM_reaches {separator : Option String} (hword : ∀ text ∈ separator, W text)
    (first : Bool) (ids : List NodeId)
    (hids : ∀ id ∈ ids,
      Reaches r o d W Layout.lexemes (render .free id) ((forest.content id).reached r d)) :
    Reaches r o d W (Layout.lexemesBetween separator first) (ids.mapM (render .free))
      (Content.reachedItems r d (ids.map forest.content)) := by
  induction ids generalizing first with
  | nil => exact reaches_nil rfl
  | cons id ids ih =>
      obtain ⟨hid, hids⟩ := List.forall_mem_cons.1 hids
      have hled : Reaches r o d W
          (fun layout => (if first then [] else separator.toList) ++ layout.lexemes)
          (render .free id) ((forest.content id).reached r d) := by
        refine hid.led fun text htext => hword text ?_
        cases first with
        | true => cases htext
        | false => simpa using htext
      rw [List.mapM_cons, List.map_cons, Content.reachedItems]
      refine hled.andThen (ih false hids) List.cons fun layout layouts => ?_
      rw [Layout.lexemesBetween]

theorem children_reaches (hchild : ReachesChildren r o d W forest frame.node.fields render)
    {info : RuleInfo} (hword : ∀ text ∈ info.attrs.separator, W text) (name : String) :
    Reaches r o d W Layout.lexemes (renderChildren render frame info name)
      (Content.reachedAt r d (parts forest frame) name) := by
  rw [renderChildren, Content.reachedAt, Forest.lookup_contents]
  cases hl : frame.node.fields.lookup name with
  | none => exact reaches_throw (missingField_ne _ _)
  | some value =>
      have hmem : ∀ id ∈ value.children, id ∈ frame.node.fields.children := fun id hid =>
        List.mem_flatMap.2 ⟨(name, value), mem_of_lookup hl, hid⟩
      cases value with
      | terminal t => exact reaches_throw (missingField_ne _ _)
      | node id =>
          have hbody :=
            hchild (frame.childContext info name) id (hmem id (List.mem_singleton_self id))
          refine hbody.map _ fun body => ?_
          cases info.attrs.tight <;> simp [Layout.lexemes, Layout.lexemesAll]
      | list ids =>
          have hall := mapM_reaches hword true ids fun id hid =>
            hchild .free id (hmem id hid)
          exact hall.map (g := Layout.lexemes)
            (.list info.attrs.newline info.attrs.tight info.attrs.separator) fun layouts => rfl

/-- The terminals of some fields of a frame, one field after the other. -/
def along (r : Registry) (d : Dialect) (forest : Forest) (frame : Frame) (names : List String) :
    List Terminal :=
  names.flatMap (Content.reachedAt r d (parts forest frame))

theorem along_singleton (name : String) :
    along r d forest frame [name] = Content.reachedAt r d (parts forest frame) name := by
  rw [along, List.flatMap_singleton]

theorem token_reaches {info : RuleInfo} {kinds : List TokenKind} {values : List String}
    (hwords : ∀ text ∈ (Production.token info kinds values).words o.keywordCase, W text) :
    Reaches r o d W Layout.lexemes (renderBody o d render frame (.token info kinds values))
      (along r d forest frame info.attrs.name.toList) := by
  dsimp only [renderBody]
  cases hname : info.attrs.name with
  | some name =>
      rw [Option.toList, along_singleton]
      exact terminal_reaches info name
  | none =>
      cases kinds with
      | nil => exact reaches_nil rfl
      | cons kind kinds =>
          cases values with
          | nil => exact reaches_nil rfl
          | cons value values =>
              have hword : W (fixedSpelling o.keywordCase kind value) :=
                hwords _ (by simp [Production.words, hname])
              exact reaches_word (Writing.lexemes_token _ _) hword

mutual

/-- A production comes to the terminals of its fields, one field after the other. -/
theorem rule_reaches {frame : Frame}
    (hchild : ReachesChildren r o d W forest frame.node.fields render) (p : Production)
    (hwords : ∀ text ∈ p.words o.keywordCase, W text) :
    Reaches r o d W Layout.lexemes (renderRule o d render frame p)
      (along r d forest frame (p.writes frame.has)) := by
  rw [renderRule_eq, Production.writes.eq_def]
  split
  next => exact reaches_nil rfl
  next =>
    refine Reaches.map ?_ _ fun body => Writing.lexemes_arrange p.attrs body
    match p with
    | .token info kinds values => exact token_reaches hwords
    | .node info types climb =>
        dsimp only [renderBody]
        cases hname : info.attrs.name with
        | some name =>
            have hword : ∀ text ∈ info.attrs.separator, W text := fun text htext =>
              hwords text (by simpa [Production.words] using htext)
            rw [Option.toList, along_singleton]
            exact children_reaches hchild hword name
        | none => exact reaches_nil rfl
    | .sequence info parts => exact (all_reaches hchild parts hwords).map _ fun _ => rfl
    | .alternatives info branches =>
        dsimp only [renderBody]
        cases hname : info.attrs.name with
        | some name =>
            rw [along_singleton]
            exact terminal_reaches info name
        | none => exact first_reaches hchild _ branches hwords
    | .block info bracket inner =>
        obtain ⟨hopener, hwords⟩ := List.forall_mem_cons.1 hwords
        obtain ⟨hcloser, hwords⟩ := List.forall_mem_cons.1 hwords
        -- Brackets may be left out, which changes the context and not the fields.
        have hinner (context : Context) (exposed : Bool) :
            Reaches r o d W Layout.lexemes
              (renderRule o d render { frame with context, exposed } inner)
              (along r d forest frame (inner.writes frame.has)) :=
          rule_reaches (by exact hchild) inner hwords
        dsimp only [renderBody]
        split
        next => exact reaches_nil rfl
        next =>
          split
          next => exact hinner frame.context true
          next =>
            refine (hinner .free false).wrap hopener hcloser _ fun body => ?_
            simp [Layout.lexemes, Layout.lexemesAll, Writing.lexemes_token]

theorem all_reaches {frame : Frame}
    (hchild : ReachesChildren r o d W forest frame.node.fields render) (ps : List Production)
    (hwords : ∀ text ∈ Production.wordsAll o.keywordCase ps, W text) :
    Reaches r o d W Layout.lexemesAll (renderAll o d render frame ps)
      (along r d forest frame (Production.writesAll frame.has ps)) := by
  match ps with
  | [] => exact reaches_nil rfl
  | p :: rest =>
      obtain ⟨hp, hrest⟩ := List.forall_mem_append.1 hwords
      rw [renderAll, Production.writesAll, along, List.flatMap_append]
      exact (rule_reaches hchild p hp).andThen (all_reaches hchild rest hrest) List.cons
        fun _ _ => rfl

theorem first_reaches {frame : Frame}
    (hchild : ReachesChildren r o d W forest frame.node.fields render) (present : List String)
    (ps : List Production) (hwords : ∀ text ∈ Production.wordsAll o.keywordCase ps, W text) :
    Reaches r o d W Layout.lexemes (renderFirst o d render frame present ps)
      (along r d forest frame (Production.writesFirst frame.has present ps)) := by
  match ps with
  | [] => exact reaches_throw nofun
  | p :: rest =>
      obtain ⟨hp, hrest⟩ := List.forall_mem_append.1 hwords
      rw [renderFirst, Production.writesFirst]
      split
      · exact rule_reaches hchild p hp
      · exact first_reaches hchild present rest hrest

end

theorem shape_reaches {tag : String} {schema : Schema} {node : Node} {root : Production}
    (hschema : (r.schema tag d).1 = .ok schema) (hroot : schema.root = some root)
    (hchild : ReachesChildren r o d (r.IsWord o.keywordCase d) forest node.fields render)
    (context : Context) (operation : Option Operation) :
    Reaches r o d (r.IsWord o.keywordCase d) Layout.lexemes
      (renderShape o d render node context operation root)
      ((root.writes (Parts.has (node.fields.contents forest.content))).flatMap
        (Content.reachedAt r d (node.fields.contents forest.content))) := by
  have hwords : ∀ text ∈ root.words o.keywordCase, r.IsWord o.keywordCase d text :=
    fun text htext => .inr ⟨tag, schema, root, hschema, hroot, htext⟩
  have hrule (context : Context) : Reaches r o d (r.IsWord o.keywordCase d) Layout.lexemes
      (renderRule o d render { node, context, operation } root)
      ((root.writes (Parts.has (node.fields.contents forest.content))).flatMap
        (Content.reachedAt r d (node.fields.contents forest.content))) := by
    let frame : Frame := { node, context, operation }
    have hreaches : Reaches r o d (r.IsWord o.keywordCase d) Layout.lexemes
        (renderRule o d render frame root) (along r d forest frame (root.writes frame.has)) :=
      rule_reaches hchild root hwords
    rwa [has_eq forest] at hreaches
  rw [renderShape]
  split
  · have hopener : r.IsWord o.keywordCase d "(" := .inl (by simp)
    have hcloser : r.IsWord o.keywordCase d ")" := .inl (by simp)
    refine (hrule .free).wrap hopener hcloser _ fun body => ?_
    simp [Layout.lexemes, Layout.lexemesAll]
  · exact hrule context

/-- A node is written by the production of its type, if there is one. -/
theorem renderNode_cases {depth : Nat} {context : Context} {id : NodeId} {s : RenderState}
    (agrees : r.Agrees s.registry) :
    (∃ e s', renderNode o d forest (depth + 1) context id s = (.error e, s') ∧
      ∀ index position d', e ≠ .render (.bindOrder index position d')) ∨
    ∃ schema root operation registry, (r.schema (forest.tag id) d).1 = .ok schema ∧
      schema.root = some root ∧ r.Agrees registry ∧
      renderNode o d forest (depth + 1) context id s =
        renderShape o d (renderNode o d forest depth)
          { tag := forest.tag id, fields := forest.fields id, parent := forest.parent? id } context
          operation root { s with registry } := by
  rw [renderNode, get_bind]
  dsimp only
  cases s.registry.type? (forest.tag id) with
  | none => exact .inl ⟨_, _, rfl, fun _ _ _ h => by cases h⟩
  | some nodeType =>
      dsimp only
      have hagrees := agrees.trans (Registry.agrees_schema s.registry (forest.tag id) d)
      have hschemas := agrees.schemas (forest.tag id) d
      rcases hasked : s.registry.schema (forest.tag id) d with ⟨e | schema, registry⟩
      · obtain ⟨e', rfl⟩ := Registry.grammar_of_schema (congrArg Prod.fst hasked)
        have hrun : Rendering.schema (forest.tag id) d s =
            (.error (.grammar e'), { s with registry }) := by
          rw [Rendering.schema, hasked]
        exact .inl ⟨_, _, bind_of_error hrun, fun _ _ _ h => by cases h⟩
      · rw [hasked] at hagrees hschemas
        have hrun : Rendering.schema (forest.tag id) d s = (.ok schema, { s with registry }) := by
          rw [Rendering.schema, hasked]
        rw [bind_of_ok hrun]
        cases hroot : schema.root with
        | none => exact .inl ⟨_, _, rfl, fun _ _ _ h => by cases h⟩
        | some root =>
            exact .inr ⟨schema, root, _, registry, hschemas.symm, hroot, hagrees, rfl⟩

/-- A node comes to the terminals of its tree, in the order of writing, with words
of the grammar in between. -/
theorem renderNode_reaches (hd : forest.Descends 0) {depth : Nat} {context : Context}
    {id : NodeId} :
    Reaches r o d (r.IsWord o.keywordCase d) Layout.lexemes
      (renderNode o d forest depth context id) ((forest.content id).reached r d) := by
  induction depth generalizing context id with
  | zero => exact reaches_throw nofun
  | succ depth ih =>
      rw [Forest.content_eq hd (Nat.zero_le id), Content.reached_node]
      let node : Node :=
        { tag := forest.tag id, fields := forest.fields id, parent := forest.parent? id }
      let parts : Parts := node.fields.contents forest.content
      have hchild : ReachesChildren r o d (r.IsWord o.keywordCase d) forest node.fields
          (renderNode o d forest depth) := fun context child _ => ih
      have hshape {schema : Schema} {root : Production} (operation : Option Operation)
          (hschema : (r.schema node.tag d).1 = .ok schema) (hroot : schema.root = some root) :
          Reaches r o d (r.IsWord o.keywordCase d) Layout.lexemes
            (renderShape o d (renderNode o d forest depth) node context operation root)
            ((r.writes d node.tag (Parts.has parts)).flatMap (Content.reachedAt r d parts)) := by
        rw [Registry.writes_eq hschema hroot]
        exact shape_reaches hschema hroot hchild context operation
      constructor
      · intro s layout s' agrees run
        obtain ⟨schema, root, operation, registry, hschema, hroot, agrees', hrun⟩ :=
          renderNode_ok agrees run
        exact (hshape operation hschema hroot).traces { s with registry } layout s' agrees' hrun
      · intro s s' index position d' agrees run
        rcases renderNode_cases (o := o) (d := d) agrees with ⟨e, s'', hfails, hother⟩ |
          ⟨schema, root, operation, registry, hschema, hroot, agrees', heq⟩
        · cases hfails.symm.trans run
          exact absurd rfl (hother _ _ _)
        · exact (hshape operation hschema hroot).error (s := { s with registry }) agrees'
            (heq.symm.trans run)

end Rendering

/-! ### Words of the grammar -/

/-- Whether no word of the grammar is written as placeholders are. -/
def Registry.isPlain (r : Registry) (c : KeywordCase) (d : Dialect) : Bool :=
  r.types.all fun entry =>
    match (r.schema entry.1 d).1 with
    | .ok schema => schema.root.all fun root => (root.words c).all (!d.isBind ·)
    | .error _ => true

namespace Standard

theorem isPlain (c : KeywordCase) (d : Dialect) : (extend {}).isPlain c d = true := by
  have hall : ∀ d ∈ Dialect.all, ∀ c ∈ [KeywordCase.upper, .lower],
      (extend {}).isPlain c d = true := by
    decide +kernel
  exact hall d d.mem_all c (by cases c <;> decide)

/-- No word of the standard grammar is written as placeholders are. -/
theorem isBind_of_isWord {c : KeywordCase} {d : Dialect} {text : String}
    (h : (extend {}).IsWord c d text) : d.isBind text = false := by
  rcases h with hbracket | ⟨tag, schema, root, hschema, hroot, htext⟩
  · have hall : ∀ bracket ∈ ["(", ")"], d.isBind bracket = false := by cases d <;> decide
    exact hall text hbracket
  · obtain ⟨nodeType, htype⟩ := Registry.exists_type_of_schema hschema
    have hentry := List.all_eq_true.1 (isPlain c d) _ (Registry.mem_types htype)
    simp only [hschema, hroot, Option.all_some] at hentry
    simpa using List.all_eq_true.1 hentry text htext

end Standard

end DualSql
