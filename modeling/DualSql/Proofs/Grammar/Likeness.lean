import DualSql.Proofs.Grammar.Writing
import DualSql.Proofs.Lookup

/-! # Trees that are written alike

Where the terminals of a tree stood in a text does not show in what is written
for it, nor do the numbers of its nodes.

Main definition: `Content.Like`. Main result: `Rendering.renderNode_like`. -/

namespace DualSql

/-- A terminal without its place. -/
def Terminal.unplaced (t : Terminal) : Terminal :=
  { t with position := ⟨0, 0⟩ }

/-- Contents that differ in the places of their terminals alone. -/
def Content.Like (x y : Content) : Prop :=
  x.map Terminal.unplaced = y.map Terminal.unplaced

variable {f f' : Forest}

/-- Fields that hold contents that are alike. -/
inductive FieldValue.Like (f f' : Forest) : FieldValue → FieldValue → Prop
  | terminal {t t' : Terminal} (h : t.unplaced = t'.unplaced) : Like f f' (.terminal t) (.terminal t')
  | node {id id' : NodeId} (h : (f.content id).Like (f'.content id')) :
    Like f f' (.node id) (.node id')
  | list {ids ids' : List NodeId}
    (h : List.Forall₂ (fun id id' => (f.content id).Like (f'.content id')) ids ids') :
    Like f f' (.list ids) (.list ids')

theorem FieldValue.like_of_content {v v' : FieldValue}
    (h : (v.content f.content).Like (v'.content f'.content)) : v.Like f f' v' := by
  cases v with
  | terminal t =>
      cases v' with
      | terminal t' => exact .terminal (Content.terminal.inj h)
      | node id' => cases h
      | list ids' => cases h
  | node id =>
      cases v' with
      | terminal t' => cases h
      | node id' => exact .node h
      | list ids' => cases h
  | list ids =>
      cases v' with
      | terminal t' => cases h
      | node id' => cases h
      | list ids' =>
          refine .list ?_
          have hitems := Content.list.inj h
          rw [Content.mapItems_eq, Content.mapItems_eq, List.map_map, List.map_map] at hitems
          exact List.forall₂_map_left_iff.1 (List.forall₂_map_right_iff.1
            ((List.forall₂_eq_eq_eq ▸ hitems : List.Forall₂ Eq _ _)))

/-- Frames that show contents that are alike. -/
structure Frame.Like (f f' : Forest) (a b : Frame) : Prop where
  tag : a.node.tag = b.node.tag
  fields : Content.mapFields Terminal.unplaced (a.node.fields.contents f.content) =
    Content.mapFields Terminal.unplaced (b.node.fields.contents f'.content)
  context : a.context = b.context
  operation : a.operation = b.operation
  exposed : a.exposed = b.exposed

namespace Frame.Like

variable {a b : Frame}

/-- A field is missing in both frames, or holds contents that are alike. -/
theorem lookup (h : a.Like f f' b) (name : String) :
    Option.Rel (FieldValue.Like f f') (a.node.fields.lookup name) (b.node.fields.lookup name) := by
  have hlookup := Content.lookup_of_mapFields h.fields name
  rw [Forest.lookup_contents, Forest.lookup_contents] at hlookup
  cases ha : a.node.fields.lookup name with
  | none =>
      cases hb : b.node.fields.lookup name with
      | none => exact .none
      | some v' => simp [ha, hb] at hlookup
  | some v =>
      cases hb : b.node.fields.lookup name with
      | none => simp [ha, hb] at hlookup
      | some v' =>
          rw [ha, hb] at hlookup
          exact .some (FieldValue.like_of_content (Option.some.inj hlookup))

theorem has (h : a.Like f f' b) : a.has = b.has := by
  funext name
  have hlookup := h.lookup name
  rw [Frame.has, Frame.has]
  generalize a.node.fields.lookup name = v, b.node.fields.lookup name = v' at hlookup ⊢
  cases hlookup <;> rfl

theorem childContext (h : a.Like f f' b) : a.childContext = b.childContext := by
  funext info name
  simp only [Frame.childContext, h.context, h.operation, h.exposed]

theorem names (h : a.Like f f' b) :
    a.node.fields.map Prod.fst = b.node.fields.map Prod.fst := by
  have hnames := congrArg (List.map Prod.fst) h.fields
  simpa only [Content.mapFields_eq, Fields.contents, List.map_map, Function.comp_def] using hnames

theorem noAlternative (h : a.Like f f' b) (d : Dialect) :
    Rendering.noAlternative d a.node = Rendering.noAlternative d b.node := by
  rw [Rendering.noAlternative, Rendering.noAlternative, h.tag, h.names]

theorem missingField (h : a.Like f f' b) (name : String) :
    Rendering.missingField a.node name = Rendering.missingField b.node name := by
  rw [Rendering.missingField, Rendering.missingField, h.tag]

theorem inside (h : a.Like f f' b) {context context' : Context} (hcontext : context = context')
    (exposed : Bool) :
    Frame.Like f f' { a with context, exposed } { b with context := context', exposed } :=
  ⟨h.tag, h.fields, hcontext, h.operation, rfl⟩

end Frame.Like

namespace Rendering

variable {o : FormatOptions} {d : Dialect} {a b : Frame}
  {child child' : Context → NodeId → Rendering Layout}

theorem spell_unplaced (t : Terminal) : spell o d t.unplaced = spell o d t := rfl

theorem renderTerminal_like (h : a.Like f f' b) (info : RuleInfo) (name : String) :
    renderTerminal o d a info name = renderTerminal o d b info name := by
  have hlookup := h.lookup name
  rw [renderTerminal, renderTerminal, h.missingField]
  generalize a.node.fields.lookup name = v, b.node.fields.lookup name = v' at hlookup ⊢
  cases hlookup with
  | none => rfl
  | some hvalue =>
      cases hvalue with
      | terminal hterminal =>
          dsimp only
          rw [← spell_unplaced, hterminal, spell_unplaced]
      | node => rfl
      | list => rfl

/-- Nodes in the fields of two frames are written the same where they are alike. -/
def LikeChildren (f f' : Forest) (a b : Frame)
    (child child' : Context → NodeId → Rendering Layout) : Prop :=
  ∀ context, ∀ id ∈ Fields.children a.node.fields, ∀ id' ∈ Fields.children b.node.fields,
    (f.content id).Like (f'.content id') → child context id = child' context id'

theorem renderChildren_like (h : a.Like f f' b) (hchild : LikeChildren f f' a b child child')
    (info : RuleInfo) (name : String) :
    renderChildren child a info name = renderChildren child' b info name := by
  have hlookup := h.lookup name
  have hmem {fields : Fields} {v : FieldValue} (hv : fields.lookup name = some v) :
      ∀ id ∈ v.children, id ∈ fields.children := fun id hid =>
    List.mem_flatMap.2 ⟨(name, v), mem_of_lookup hv, hid⟩
  rw [renderChildren, renderChildren, h.missingField, h.childContext]
  cases ha : a.node.fields.lookup name with
  | none =>
      cases hb : b.node.fields.lookup name with
      | none => rfl
      | some v' =>
          rw [ha, hb] at hlookup
          cases hlookup
  | some v =>
      cases hb : b.node.fields.lookup name with
      | none =>
          rw [ha, hb] at hlookup
          cases hlookup
      | some v' =>
          rw [ha, hb] at hlookup
          cases hlookup with
          | some hvalue =>
              cases hvalue with
              | terminal => rfl
              | @node id id' hlike =>
                  dsimp only
                  rw [hchild _ id (hmem ha id (by simp [FieldValue.children])) id'
                    (hmem hb id' (by simp [FieldValue.children])) hlike]
              | @list ids ids' hlike =>
                  have hall : ids.mapM (child .free) = ids'.mapM (child' .free) := by
                    have ha' := hmem ha
                    have hb' := hmem hb
                    simp only [FieldValue.children] at ha' hb'
                    clear ha hb
                    induction hlike with
                    | nil => rfl
                    | @cons id id' ids ids' hlike _ ih =>
                        obtain ⟨hid, hids⟩ := List.forall_mem_cons.1 ha'
                        obtain ⟨hid', hids'⟩ := List.forall_mem_cons.1 hb'
                        rw [List.mapM_cons, List.mapM_cons, hchild _ id hid id' hid' hlike,
                          ih hids hids']
                  dsimp only
                  rw [hall]

mutual

/-- What a production writes for frames that are alike is the same. -/
theorem renderRule_like {a b : Frame} (h : a.Like f f' b)
    (hchild : LikeChildren f f' a b child child') (p : Production) :
    renderRule o d child a p = renderRule o d child' b p := by
  rw [renderRule_eq, renderRule_eq, h.has]
  match p with
  | .token info kinds values =>
      simp only [renderBody, renderTerminal_like h]
  | .node info types climb =>
      simp only [renderBody, renderChildren_like h hchild]
  | .sequence info parts =>
      simp only [renderBody, renderAll_like h hchild parts]
  | .alternatives info branches =>
      simp only [renderBody, renderTerminal_like h, h.has, renderFirst_like h hchild _ branches]
  | .block info bracket inner =>
      have hinside {context context' : Context} (hcontext : context = context')
          (exposed : Bool) :
          renderRule o d child { a with context, exposed } inner =
            renderRule o d child' { b with context := context', exposed } inner :=
        renderRule_like (h.inside hcontext exposed) hchild inner
      simp only [renderBody, h.has, hinside h.context true, hinside rfl false]

theorem renderAll_like {a b : Frame} (h : a.Like f f' b)
    (hchild : LikeChildren f f' a b child child') (parts : List Production) :
    renderAll o d child a parts = renderAll o d child' b parts := by
  match parts with
  | [] => rfl
  | p :: rest =>
      rw [renderAll, renderAll, renderRule_like h hchild p, renderAll_like h hchild rest]

theorem renderFirst_like {a b : Frame} (h : a.Like f f' b)
    (hchild : LikeChildren f f' a b child child') (present : List String)
    (branches : List Production) :
    renderFirst o d child a present branches = renderFirst o d child' b present branches := by
  match branches with
  | [] => rw [renderFirst, renderFirst, h.noAlternative]
  | p :: rest =>
      rw [renderFirst, renderFirst, renderRule_like h hchild p,
        renderFirst_like h hchild present rest, h.has]

end

/-- Nodes that are alike combine their operands alike. -/
theorem operation_like (h : a.Like f f' b) (source : Dialect) (climb : Climb) :
    operation d source a.node climb = operation d source b.node climb := by
  have hlookup := h.lookup climb.operator
  rw [operation, operation]
  generalize a.node.fields.lookup climb.operator = v,
    b.node.fields.lookup climb.operator = v' at hlookup ⊢
  cases hlookup with
  | none => rfl
  | some hvalue =>
      cases hvalue with
      | @terminal t t' hterminal =>
          have hsame : t.unplaced.value = t'.unplaced.value := by rw [hterminal]
          change t.value = t'.value at hsame
          have hinfo : operatorInfo? d source (some (.terminal t)) =
              operatorInfo? d source (some (.terminal t')) := by
            simp only [operatorInfo?, Option.bind_eq_bind, Option.bind_some, FieldValue.terminal?,
              hsame]
          rw [hinfo]
      | node => rfl
      | list => rfl

/-- Nodes that are alike are written the same, down to any depth that their
trees do not reach. -/
theorem renderNode_like (hf : f.Descends 0) (hf' : f'.Descends 0) (hd : f.dialect = f'.dialect)
    {depth depth' : Nat} (context : Context) {id id' : Nat} (hid : id < depth)
    (hid' : id' < depth') (h : (f.content id).Like (f'.content id')) :
    renderNode o d f depth context id = renderNode o d f' depth' context id' := by
  induction depth generalizing depth' context id id' with
  | zero => exact absurd hid (Nat.not_lt_zero id)
  | succ depth ih =>
      cases depth' with
      | zero => exact absurd hid' (Nat.not_lt_zero id')
      | succ depth' =>
          rw [Forest.content_eq hf (Nat.zero_le id), Forest.content_eq hf' (Nat.zero_le id')] at h
          obtain ⟨htag, hfields⟩ := Content.node.inj h
          let node : Node := { tag := f.tag id, fields := f.fields id, parent := f.parent? id }
          let node' : Node :=
            { tag := f.tag id, fields := f'.fields id', parent := f'.parent? id' }
          have hframe (context : Context) (operation : Option Operation) :
              Frame.Like f f' { node, context, operation } { node := node', context, operation } :=
            ⟨rfl, hfields, rfl, rfl, rfl⟩
          have hchild (context : Context) (operation : Option Operation) :
              LikeChildren f f' { node, context, operation } { node := node', context, operation }
                (renderNode o d f depth) (renderNode o d f' depth') := by
            intro context (i : Nat) hi (i' : Nat) hi' hlike
            have hlt := (hf id (Nat.zero_le id) i hi).2
            have hlt' := (hf' id' (Nat.zero_le id') i' hi').2
            exact ih context (by omega) (by omega) hlike
          have hoperation := operation_like (d := d) (hframe context none) f.dialect
          have hnode (context : Context) (operation : Option Operation) (root : Production) :
              renderShape o d (renderNode o d f depth) node context operation root =
                renderShape o d (renderNode o d f' depth') node' context operation root := by
            rw [renderShape, renderShape,
              renderRule_like (hframe .free operation) (hchild .free operation) root,
              renderRule_like (hframe context operation) (hchild context operation) root]
          have hoperation : operation d f.dialect node = operation d f'.dialect node' := by
            funext climb
            rw [← hd]
            exact operation_like (hframe context none) f.dialect climb
          simp only [renderNode, ← htag]
          refine bind_congr fun s => ?_
          cases s.registry.type? (f.tag id) with
          | none => rfl
          | some nodeType =>
              refine bind_congr fun schema => ?_
              cases schema.root with
              | none => exact congrArg throw ((hframe context none).noAlternative d)
              | some root =>
                  change renderShape o d (renderNode o d f depth) node context
                    (nodeType.climb?.map (operation d f.dialect node)) root = _
                  rw [hoperation]
                  exact hnode context _ root

end Rendering

end DualSql
