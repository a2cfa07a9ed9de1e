import DualSql.Proofs.Grammar.ReadBack
import DualSql.Proofs.Grammar.Writing

/-! # Trees that can be rendered

Rendering a tree fails on a field that is missing and on alternatives of which
none has a place for the fields that are there. Where the fields of every tree
suit the production of its type, it fails on nothing but a placeholder that is
out of place.

Main definitions: `Rendering.OnlyBinds`, `Production.secured` and
`Production.Suits`. Main results: `Production.fits_of_secured` and
`Rendering.onlyBinds_node`.

## Implementation notes

A part of an optional group can be missing with the group alone, so that which
fields are there is followed case by case: if a group is not passed over, one of
its fields is there, and with it those that only come together with it. -/

namespace DualSql

/-- Whether a content is a terminal. -/
def Content.isTerminal : Content → Bool
  | terminal _ => true
  | _ => false

/-- Whether a field holds terminals. -/
def FieldKind.isTerminal : FieldKind → Bool
  | terminal .. => true
  | _ => false

namespace Production

mutual

/-- The fields that a production sets, and whether it sets them to terminals. -/
def slots : Production → List (String × Bool)
  | token info _ _ => info.attrs.name.toList.map (·, true)
  | node info _ _ => info.attrs.name.toList.map (·, false)
  | sequence _ parts => slotsAll parts
  | alternatives info branches =>
    match info.attrs.name with
    | some name => [(name, true)]
    | none => slotsAll branches
  | block _ _ inner => inner.slots

/-- The fields that several productions set. -/
def slotsAll : List Production → List (String × Bool)
  | [] => []
  | p :: rest => p.slots ++ slotsAll rest

end

mutual

/-- Whether a production has no choice between alternatives that set fields of their own. -/
def straight : Production → Bool
  | token .. | node .. => true
  | sequence _ parts => straightAll parts
  | alternatives info _ => info.attrs.name.isSome
  | block _ _ inner => inner.straight

/-- Whether no production has such a choice. -/
def straightAll : List Production → Bool
  | [] => true
  | p :: rest => p.straight && straightAll rest

end

/-- The fields that are there whenever a production is not passed over, case by case. -/
def presences (pairs : List (String × String)) (sure : List String) (info : RuleInfo) :
    List (List String) :=
  if info.attrs.optional && !info.fields.isEmpty then
    info.fields.map fun name => name :: ((pairs.filter (·.1 == name)).map Prod.snd ++ sure)
  else [sure]

mutual

/-- Whether a production can be written with some fields, whichever others are there. -/
def secured (pairs : List (String × String)) (sure : List String) : Production → Bool
  | token info _ _ => (presences pairs sure info).all fun now => info.attrs.name.all now.contains
  | node info _ _ => (presences pairs sure info).all fun now => info.attrs.name.any now.contains
  | sequence info parts => (presences pairs sure info).all fun now => securedAll pairs now parts
  | alternatives info _ =>
    (presences pairs sure info).all fun now => info.attrs.name.any now.contains
  | block info _ inner => (presences pairs sure info).all fun now => inner.secured pairs now

/-- Whether every production can be written with some fields. -/
def securedAll (pairs : List (String × String)) (sure : List String) : List Production → Bool
  | [] => true
  | p :: rest => p.secured pairs sure && securedAll pairs sure rest

end

variable {pairs : List (String × String)} {sure : List String} {has : String → Bool}

theorem exists_presence (hpairs : ∀ pair ∈ pairs, has pair.1 = true → has pair.2 = true)
    (hsure : ∀ name ∈ sure, has name = true) {p : Production} (hskip : p.isSkipped has = false) :
    ∃ now ∈ presences pairs sure p.info, ∀ name ∈ now, has name = true := by
  unfold presences
  split
  next hoptional =>
    obtain ⟨hoptional, hfields⟩ := Bool.and_eq_true_iff.1 hoptional
    simp only [isSkipped, attrs, hoptional, isPresent, Bool.true_and, Bool.or_eq_false_iff,
      Bool.not_eq_false', Bool.or_eq_true] at hskip
    rcases hskip.2 with hnone | hsome
    · simp [hnone] at hfields
    · obtain ⟨name, hname, hhas⟩ := List.any_eq_true.1 hsome
      refine ⟨_, List.mem_map_of_mem hname, List.forall_mem_cons.2 ⟨hhas, fun other hother => ?_⟩⟩
      rcases List.mem_append.1 hother with hpaired | hother
      · obtain ⟨pair, hpair, rfl⟩ := List.mem_map.1 hpaired
        obtain ⟨hpair, heq⟩ := List.mem_filter.1 hpair
        exact hpairs pair hpair (beq_iff_eq.1 heq ▸ hhas)
      · exact hsure other hother
  next => exact ⟨sure, List.mem_singleton_self _, hsure⟩

mutual

/-- A production that can be written with some fields fits wherever these are there. -/
theorem fits_of_secured (hpairs : ∀ pair ∈ pairs, has pair.1 = true → has pair.2 = true) :
    (p : Production) → {sure : List String} → (∀ name ∈ sure, has name = true) →
    p.secured pairs sure = true → p.fits has = true := by
  intro p sure hsure h
  cases hskip : p.isSkipped has with
  | true =>
      rw [fits.eq_def, hskip]
      rfl
  | false =>
      obtain ⟨now, hnow, hhas⟩ := exists_presence hpairs hsure hskip
      have hcontains {name : String} (hname : now.contains name = true) : has name = true :=
        hhas name (by simpa using hname)
      match p with
      | token info kinds values =>
          rw [secured] at h
          have hname := List.all_eq_true.1 h now hnow
          rw [fits, hskip]
          cases hn : info.attrs.name with
          | none => rfl
          | some name => simpa [hn] using hcontains (by simpa [hn] using hname)
      | node info types climb =>
          rw [secured] at h
          have hname := List.all_eq_true.1 h now hnow
          rw [fits, hskip]
          cases hn : info.attrs.name with
          | none => simp [hn] at hname
          | some name => simpa [hn] using hcontains (by simpa [hn] using hname)
      | sequence info parts =>
          rw [secured] at h
          rw [fits, hskip]
          exact fitsAll_of_secured hpairs parts hhas (List.all_eq_true.1 h now hnow)
      | alternatives info branches =>
          rw [secured] at h
          have hname := List.all_eq_true.1 h now hnow
          rw [fits, hskip]
          cases hn : info.attrs.name with
          | none => simp [hn] at hname
          | some name => simpa [hn] using hcontains (by simpa [hn] using hname)
      | block info bracket inner =>
          rw [secured] at h
          rw [fits, hskip]
          exact fits_of_secured hpairs inner hhas (List.all_eq_true.1 h now hnow)

theorem fitsAll_of_secured (hpairs : ∀ pair ∈ pairs, has pair.1 = true → has pair.2 = true) :
    (parts : List Production) → {sure : List String} → (∀ name ∈ sure, has name = true) →
    securedAll pairs sure parts = true → fitsAll has parts = true
  | [], _, _, _ => rfl
  | p :: rest, _, hsure, h => by
      obtain ⟨hp, hrest⟩ := Bool.and_eq_true_iff.1 h
      rw [fitsAll, fits_of_secured hpairs p hsure hp, fitsAll_of_secured hpairs rest hsure hrest]
      rfl

end

end Production

/-! ### Errors of rendering -/

namespace Rendering

open Fallible

variable {r : Registry} {o : FormatOptions} {d : Dialect} {α β : Type}

/-- A computation fails on nothing but a placeholder that is out of place. -/
def OnlyBinds (r : Registry) (d : Dialect) (m : Rendering α) : Prop :=
  ∀ s, r.Agrees s.registry → r.Agrees (m s).2.registry ∧
    ∀ e, (m s).1 = .error e → ∃ index position, e = .render (.bindOrder index position d)

theorem onlyBinds_pure (a : α) : OnlyBinds r d (pure a) := by
  refine fun s agrees => ⟨agrees, fun e he => ?_⟩
  change Except.ok a = .error e at he
  cases he

theorem OnlyBinds.bind {m : Rendering α} {k : α → Rendering β} (hm : OnlyBinds r d m)
    (hk : ∀ a, OnlyBinds r d (k a)) : OnlyBinds r d (m >>= k) := by
  intro s agrees
  have hfirst := hm s agrees
  rw [bind_apply]
  rcases hrun : m s with ⟨e | a, t⟩
  · rw [hrun] at hfirst
    exact ⟨hfirst.1, fun e' he' => by cases he'; exact hfirst.2 e rfl⟩
  · rw [hrun] at hfirst
    exact hk a t hfirst.1

theorem OnlyBinds.mapM {f : α → Rendering β} {xs : List α}
    (h : ∀ x ∈ xs, OnlyBinds r d (f x)) : OnlyBinds r d (xs.mapM f) := by
  induction xs with
  | nil => exact onlyBinds_pure _
  | cons x xs ih =>
      obtain ⟨hx, hxs⟩ := List.forall_mem_cons.1 h
      rw [List.mapM_cons]
      exact hx.bind fun _ => (ih hxs).bind fun _ => onlyBinds_pure _

theorem spelling_eq_error {c : KeywordCase} {position : Nat} {t : Terminal} {e : RenderError}
    (h : t.spelling c d position = .error e) : ∃ index, e = .bindOrder index position d := by
  unfold Terminal.spelling at h
  split at h <;> try cases h
  unfold bindSpelling at h
  dsimp only at h
  split at h
  · cases h
    exact ⟨_, rfl⟩
  · cases h

/-- A terminal is written as it is spelled at the number of placeholders so far. -/
theorem spell_apply (t : Terminal) (s : RenderState) :
    ∃ binds, spell o d t s =
      ((t.spelling o.keywordCase d binds).mapError .render, { s with binds }) := by
  rw [spell]
  by_cases hkind : t.kind = .bindVariable
  · refine ⟨s.binds + 1, ?_⟩
    simp only [hkind, if_true, modify_bind, get_bind]
    cases t.spelling o.keywordCase d (s.binds + 1) <;> rfl
  · refine ⟨s.binds, ?_⟩
    simp only [hkind, if_false, get_bind]
    cases t.spelling o.keywordCase d s.binds <;> rfl

theorem onlyBinds_spell (t : Terminal) : OnlyBinds r d (spell o d t) := by
  intro s agrees
  obtain ⟨binds, hrun⟩ := spell_apply (o := o) (d := d) t s
  rw [hrun]
  refine ⟨agrees, fun e he => ?_⟩
  cases htext : t.spelling o.keywordCase d binds with
  | ok text =>
      rw [htext] at he
      cases he
  | error e' =>
      obtain ⟨index, rfl⟩ := spelling_eq_error htext
      rw [htext] at he
      cases he
      exact ⟨index, _, rfl⟩

variable {frame : Frame} {child : Context → NodeId → Rendering Layout}

/-- The fields of a node are as a production sets them: terminals where it sets
them to terminals. -/
def Slotted (node : Node) (slots : List (String × Bool)) : Prop :=
  ∀ slot ∈ slots, ∀ value, node.fields.lookup slot.1 = some value →
    value.terminal?.isSome = slot.2

/-- The children of a node fail on nothing but placeholders. -/
def ChildrenBind (r : Registry) (d : Dialect) (child : Context → NodeId → Rendering Layout)
    (node : Node) : Prop :=
  ∀ context, ∀ id ∈ node.fields.children, OnlyBinds r d (child context id)

theorem onlyBinds_terminal {info : RuleInfo} {name : String}
    (hslot : Slotted frame.node [(name, true)]) (hhas : frame.has name = true) :
    OnlyBinds r d (renderTerminal o d frame info name) := by
  obtain ⟨value, hvalue⟩ := Option.isSome_iff_exists.1 hhas
  have hterminal := hslot _ List.mem_cons_self value hvalue
  rw [renderTerminal, hvalue]
  cases value with
  | terminal t => exact (onlyBinds_spell t).bind fun _ => onlyBinds_pure _
  | node | list => cases hterminal

theorem onlyBinds_children (hchild : ChildrenBind r d child frame.node) {info : RuleInfo}
    {name : String} (hslot : Slotted frame.node [(name, false)]) (hhas : frame.has name = true) :
    OnlyBinds r d (renderChildren child frame info name) := by
  obtain ⟨value, hvalue⟩ := Option.isSome_iff_exists.1 hhas
  have hterminal := hslot _ List.mem_cons_self value hvalue
  have hmem : ∀ id ∈ value.children, id ∈ frame.node.fields.children := fun id hid =>
    List.mem_flatMap.2 ⟨_, mem_of_lookup hvalue, hid⟩
  rw [renderChildren, hvalue]
  cases value with
  | terminal t => cases hterminal
  | node id => exact (hchild _ id (hmem id (List.mem_singleton_self _))).bind fun _ => onlyBinds_pure _
  | list ids =>
      exact (OnlyBinds.mapM fun id hid => hchild _ id (hmem id hid)).bind fun _ => onlyBinds_pure _

mutual

/-- A production without a choice can be written if it fits. -/
theorem onlyBinds_rule (frame : Frame) (hchild : ChildrenBind r d child frame.node) :
    (p : Production) → p.straight = true → Slotted frame.node p.slots →
    p.fits frame.has = true → OnlyBinds r d (renderRule o d child frame p) := by
  intro p hstraight hslots hfits
  rw [renderRule_eq]
  split
  · exact onlyBinds_pure _
  next hskip =>
    rw [Bool.not_eq_true] at hskip
    rw [Production.fits.eq_def, hskip, Bool.false_or] at hfits
    refine OnlyBinds.bind ?_ fun _ => onlyBinds_pure _
    match p with
    | .token info kinds values =>
        dsimp only [renderBody]
        cases hname : info.attrs.name with
        | some name =>
            rw [Production.slots, hname] at hslots
            exact onlyBinds_terminal hslots (by simpa [hname] using hfits)
        | none => cases kinds <;> cases values <;> exact onlyBinds_pure _
    | .node info types climb =>
        dsimp only [renderBody]
        cases hname : info.attrs.name with
        | some name =>
            rw [Production.slots, hname] at hslots
            exact onlyBinds_children hchild hslots (by simpa [hname] using hfits)
        | none => exact onlyBinds_pure _
    | .sequence info parts =>
        exact (onlyBinds_all frame hchild parts hstraight hslots hfits).bind fun _ => onlyBinds_pure _
    | .alternatives info branches =>
        dsimp only [renderBody]
        cases hname : info.attrs.name with
        | some name =>
            rw [Production.slots, hname] at hslots
            exact onlyBinds_terminal hslots (by simpa [hname] using hfits)
        | none => simp [Production.straight, hname] at hstraight
    | .block info bracket inner =>
        dsimp only [renderBody]
        split
        · exact onlyBinds_pure _
        · split
          · exact onlyBinds_rule { frame with exposed := true } hchild inner hstraight
              hslots hfits
          · exact (onlyBinds_rule { frame with context := .free, exposed := false }
              hchild inner hstraight hslots hfits).bind fun _ => onlyBinds_pure _

theorem onlyBinds_all (frame : Frame) (hchild : ChildrenBind r d child frame.node) :
    (parts : List Production) → Production.straightAll parts = true →
    Slotted frame.node (Production.slotsAll parts) → Production.fitsAll frame.has parts = true →
    OnlyBinds r d (renderAll o d child frame parts)
  | [], _, _, _ => onlyBinds_pure _
  | p :: rest, hstraight, hslots, hfits => by
      obtain ⟨hp, hrest⟩ := Bool.and_eq_true_iff.1 hstraight
      obtain ⟨hpfits, hrestfits⟩ := Bool.and_eq_true_iff.1 hfits
      rw [Production.slotsAll] at hslots
      refine (onlyBinds_rule frame hchild p hp ?_ hpfits).bind fun _ =>
        (onlyBinds_all frame hchild rest hrest ?_ hrestfits).bind fun _ => onlyBinds_pure _
      · exact fun slot hslot => hslots slot (List.mem_append_left _ hslot)
      · exact fun slot hslot => hslots slot (List.mem_append_right _ hslot)

end

/-- Alternatives can be written if one of them has a place for all fields that
are there. -/
theorem onlyBinds_first (frame : Frame) (hchild : ChildrenBind r d child frame.node)
    {present : List String} {branches : List Production}
    (hstraight : Production.straightAll branches = true)
    (hslots : Slotted frame.node (Production.slotsAll branches))
    (hfits : ∃ p ∈ branches, (∀ name ∈ present, name ∈ p.info.fields) ∧ p.fits frame.has = true) :
    OnlyBinds r d (renderFirst o d child frame present branches) := by
  induction branches with
  | nil => simp at hfits
  | cons p rest ih =>
      obtain ⟨hp, hrest⟩ := Bool.and_eq_true_iff.1 hstraight
      rw [Production.slotsAll] at hslots
      rw [renderFirst]
      split
      next hchosen =>
        refine onlyBinds_rule frame hchild p hp ?_ (Bool.and_eq_true_iff.1 hchosen).2
        exact fun slot hslot => hslots slot (List.mem_append_left _ hslot)
      next hother =>
        refine ih hrest (fun slot hslot => hslots slot (List.mem_append_right _ hslot)) ?_
        obtain ⟨q, hq, hplace, hqfits⟩ := hfits
        rcases List.mem_cons.1 hq with rfl | hq
        · refine absurd (Bool.and_eq_true_iff.2 ⟨?_, hqfits⟩) hother
          exact List.all_eq_true.2 fun name hname => by simpa using hplace name hname
        · exact ⟨q, hq, hplace, hqfits⟩

end Rendering

namespace Production

/-- The fields of a tree suit a production: they are of its kinds, and it can be
written with them. A choice may only stand at the top. -/
structure Suits (p : Production) (fields : Parts) : Prop where
  slots : ∀ slot ∈ p.slots, ∀ x, fields.lookup slot.1 = some x → x.isTerminal = slot.2
  fits : p.straight = true ∧ p.fits fields.has = true ∨
    ∃ info branches, p = .alternatives info branches ∧ info.attrs.name = none ∧
      straightAll branches = true ∧
      ∃ q ∈ branches, (∀ name ∈ info.fields, fields.has name = true → name ∈ q.info.fields) ∧
        q.fits fields.has = true

end Production

/-- Trees with fields that suit the productions of their types. -/
abbrev Content.Suited (r : Registry) (d : Dialect) : Content → Prop :=
  Each fun tag fields => ∃ schema root, (r.schema tag d).1 = .ok schema ∧
    schema.root = some root ∧ root.Suits fields

namespace Rendering

open Fallible

variable {r : Registry} {o : FormatOptions} {d : Dialect}
  {child : Context → NodeId → Rendering Layout} {forest : Forest}

theorem onlyBinds_suited (frame : Frame) (hchild : ChildrenBind r d child frame.node)
    {p : Production} (hsuits : p.Suits (frame.node.fields.contents forest.content)) :
    OnlyBinds r d (renderRule o d child frame p) := by
  have hhas : Parts.has (frame.node.fields.contents forest.content) = frame.has := by
    funext name
    rw [Parts.has, Forest.lookup_contents, Option.isSome_map, Frame.has]
  have hslots : Slotted frame.node p.slots := by
    intro slot hslot value hvalue
    have hterminal := hsuits.slots slot hslot (value.content forest.content)
      (by rw [Forest.lookup_contents, hvalue]; rfl)
    rw [← hterminal]
    cases value <;> rfl
  have hfits := hsuits.fits
  rw [hhas] at hfits
  rcases hfits with ⟨hstraight, hfits⟩ | ⟨info, branches, rfl, hname, hstraight, q, hq, hplace, hfits⟩
  · exact onlyBinds_rule frame hchild p hstraight hslots hfits
  · rw [renderRule_eq]
    split
    · exact onlyBinds_pure _
    · refine OnlyBinds.bind ?_ fun _ => onlyBinds_pure _
      dsimp only [renderBody]
      rw [hname]
      rw [Production.slots, hname] at hslots
      refine onlyBinds_first frame hchild hstraight hslots ⟨q, hq, fun name hmem => ?_, hfits⟩
      obtain ⟨hfield, hthere⟩ := List.mem_filter.1 hmem
      exact hplace name hfield hthere

/-- A node can be written if the fields of every tree suit the production of its
type, placeholders out of place aside. -/
theorem onlyBinds_node (hd : forest.Descends 0) {depth : Nat} {context : Context} {id : NodeId}
    (hdepth : id < depth) (hsuited : (forest.content id).Suited r d) :
    OnlyBinds r d (renderNode o d forest depth context id) := by
  induction depth generalizing context id with
  | zero => exact absurd hdepth (Nat.not_lt_zero _)
  | succ depth ih =>
      rw [Forest.content_eq hd (Nat.zero_le id)] at hsuited
      obtain ⟨⟨schema, root, hschema, hroot, hsuits⟩, hfields⟩ := hsuited
      let node : Node :=
        { tag := forest.tag id, fields := forest.fields id, parent := forest.parent? id }
      have hchild : ChildrenBind r d (renderNode o d forest depth) node := fun context child hmem =>
        ih (Nat.lt_of_lt_of_le (hd id (Nat.zero_le id) child hmem).2 (Nat.lt_succ_iff.1 hdepth))
          (Content.EachField.child hfields hmem)
      obtain ⟨nodeType, htype⟩ := Registry.exists_type_of_schema hschema
      intro s agrees
      have hasked : Rendering.schema node.tag d s =
          (.ok schema, { s with registry := (s.registry.schema node.tag d).2 }) :=
        Prod.ext ((agrees.schemas node.tag d).trans hschema) rfl
      have hshape : ∀ operation, OnlyBinds r d
          (renderShape o d (renderNode o d forest depth) node context operation root) := by
        intro operation
        unfold renderShape
        split
        · exact (onlyBinds_suited _ hchild hsuits).bind fun _ => onlyBinds_pure _
        · exact onlyBinds_suited _ hchild hsuits
      rw [renderNode]
      dsimp only
      rw [bind_of_ok (get_eq_ok.2 ⟨rfl, rfl⟩), agrees.type? node.tag, htype]
      dsimp only
      rw [bind_of_ok hasked, hroot]
      exact hshape _ _ (agrees.trans (Registry.agrees_schema ..))

end Rendering

end DualSql
