import DualSql.Proofs.Forest.Ownership
import DualSql.Proofs.Grammar.StructuredForm

/-! # Copies of trees

A tree is copied node by node to the end of a forest, children before the nodes
that hold them. So whatever the numbers in the tree are, the copy is planted like
a tree that is parsed, and it has the content of the tree. A copy within one forest
is made elsewhere and then moved; since all its links move along, it is what would
have been made in place.

Main definitions: `Forest.IsTree`, `Forest.IsCopy` and `Forest.onto`. Main results:
`Forest.copies_copyTo`, `Forest.cloneSubtree_eq` and `Forest.IsTree.isCopy`. -/

namespace DualSql

theorem Content.eachField_contents {P : String → List (String × Content) → Prop}
    {g : NodeId → Content} {fields : Fields} (h : ∀ id ∈ fields.children, (g id).Each P) :
    EachField P (fields.contents g) := by
  refine eachField_iff.2 fun part hpart => ?_
  obtain ⟨⟨name, value⟩, hvalue, rfl⟩ := List.mem_map.1 hpart
  have hchild := fun id hid => h id (Forest.children_subset hvalue id hid)
  cases value with
  | terminal t => trivial
  | node id => exact hchild id (List.mem_singleton_self id)
  | list ids =>
      refine eachItem_iff.2 fun item hitem => ?_
      obtain ⟨id, hid, rfl⟩ := List.mem_map.1 hitem
      exact hchild id hid

namespace Forest

variable {f other target target' target'' : Forest} {id a b : NodeId} {depth depth' : Nat}

/-! ### The content of a tree with any numbers -/

theorem contentTo_eq_node (f : Forest) (depth : Nat) (id : NodeId) :
    f.contentTo depth id = .node (f.contentTo depth id).tag (f.contentTo depth id).fields := by
  cases depth <;> rfl

theorem Shallow.contentTo_eq {bound : Nat} (h : f.Shallow depth id) (hle : depth ≤ bound) :
    f.contentTo bound id = f.contentTo depth id := by
  induction depth generalizing id bound with
  | zero => exact h.elim
  | succ depth ih =>
      obtain ⟨bound, rfl⟩ := Nat.exists_eq_add_of_le' (Nat.le_trans (Nat.le_add_left 1 depth) hle)
      rw [contentTo, contentTo,
        Fields.contents_congr fun child hchild => ih (h child hchild) (by omega)]

/-- Comparing two nodes is comparing their trees, wherever these end. -/
theorem Shallow.sameTo_eq_same (ha : f.Shallow depth a) (hb : other.Shallow depth' b) :
    f.sameTo other depth a b = (f.contentTo depth a).same (other.contentTo depth' b) := by
  induction depth generalizing a b depth' with
  | zero => exact ha.elim
  | succ depth ih =>
      cases depth' with
      | zero => exact hb.elim
      | succ depth' =>
          rw [contentTo, contentTo, Content.same, sameTo,
            ← sameFields_contents (f.sameTo other depth) (f.contentTo_eq_node depth)
              (other.contentTo_eq_node depth')
              fun x hx y hy => ih (ha x hx) (hb y hy)]
          simp only [Fields.contents, List.length_map]
          rfl

theorem Shallow.same_eq (ha : f.Shallow f.size a) (hb : other.Shallow depth b) :
    f.same a other b = (f.contentTo f.size a).same (other.contentTo depth b) := by
  rw [same, ha.sameTo_eq (Nat.le_succ f.size), ha.sameTo_eq_same hb]

theorem Descends.shallow {least : Nat} (h : f.Descends least) (hl : least ≤ id)
    (hd : id < depth) : f.Shallow depth id := by
  induction depth generalizing id with
  | zero => exact absurd hd (Nat.not_lt_zero id)
  | succ depth ih =>
      intro child hchild
      obtain ⟨hle, hlt⟩ := h id hl child hchild
      exact ih hle (Nat.lt_of_lt_of_le hlt (Nat.le_of_lt_succ hd))

/-- A node below which there is a finite tree of nodes that exist, each with
different names for its fields. -/
inductive IsTree (f : Forest) : NodeId → Prop
  | intro {id : NodeId} (exist : id < f.size) (distinct : ((f.fields id).map Prod.fst).Nodup)
      (children : ∀ child ∈ Fields.children (f.fields id), IsTree f child) : IsTree f id

namespace IsTree

theorem exist (h : f.IsTree id) : id < f.size := by
  cases h
  assumption

theorem names (h : f.IsTree id) : ((f.fields id).map Prod.fst).Nodup := by
  cases h
  assumption

theorem child (h : f.IsTree id) {child : NodeId} (hchild : f.IsChild child id) :
    f.IsTree child := by
  cases h with
  | intro _ _ children => exact children child hchild

theorem acc (h : f.IsTree id) : Acc f.IsChild id := by
  induction h with
  | intro _ _ _ ih => exact Acc.intro _ ih

/-- No way down comes back. -/
theorem not_below_self (h : f.IsTree id) : ¬ Relation.TransGen f.IsChild id id := by
  have irreflexive {x : NodeId} (hacc : Acc (Relation.TransGen f.IsChild) x) :
      ¬ Relation.TransGen f.IsChild x x := by
    induction hacc with
    | intro x _ ih => exact fun hx => ih x hx hx
  exact irreflexive h.acc.transGen

/-- The nodes above a node on a way down are different ones, so there are not more of
them than the forest has. -/
theorem shallow_of_above (h : f.IsTree id) {above : List NodeId} (hnodup : above.Nodup)
    (habove : ∀ x ∈ above, x < f.size ∧ Relation.TransGen f.IsChild id x) :
    f.Shallow (f.size - above.length) id := by
  induction h generalizing above with
  | @intro id exist distinct children ih =>
      have htree : f.IsTree id := .intro exist distinct children
      have hnew : id ∉ above := fun hmem => htree.not_below_self (habove id hmem).2
      have hway : (id :: above).Nodup := List.nodup_cons.2 ⟨hnew, hnodup⟩
      have hlength : above.length < f.size := by
        have hsubset : id :: above ⊆ List.range f.size := by
          intro x hx
          rcases List.mem_cons.1 hx with rfl | hx
          · exact List.mem_range.2 exist
          · exact List.mem_range.2 (habove x hx).1
        have hle := (List.subperm_of_subset hway hsubset).length_le
        rwa [List.length_range] at hle
      have hdepth : f.size - above.length = f.size - (id :: above).length + 1 := by
        rw [List.length_cons]
        omega
      rw [hdepth]
      intro child hchild
      refine ih child hchild hway fun x hx => ?_
      rcases List.mem_cons.1 hx with rfl | hx
      · exact ⟨exist, .single hchild⟩
      · exact ⟨(habove x hx).1, .head hchild (habove x hx).2⟩

theorem shallow (h : f.IsTree id) : f.Shallow f.size id :=
  h.shallow_of_above List.nodup_nil (List.forall_mem_nil _)

theorem distinct (h : f.IsTree id) (depth : Nat) : (f.contentTo depth id).Distinct := by
  induction depth generalizing id with
  | zero => exact ⟨List.nodup_nil, trivial⟩
  | succ depth ih =>
      refine ⟨?_, Content.eachField_contents fun child hchild => ih (h.child hchild)⟩
      have hnames := h.names
      simpa [Fields.contents, Function.comp_def] using hnames

section

variable (hkept : ∀ i < f.size, other.node? i = f.node? i)

include hkept

/-- A tree stays one while other nodes come or go. -/
theorem mono (h : f.IsTree id) : other.IsTree id := by
  induction h with
  | @intro id exist distinct _ ih =>
      have hfields : other.fields id = f.fields id := by rw [fields, hkept id exist, fields]
      have hsize : id < other.size := by
        by_contra hge
        obtain ⟨n, hn⟩ := exists_node? exist
        rw [← hkept id exist, node?_of_size_le (Nat.le_of_not_lt hge)] at hn
        cases hn
      rw [← hfields] at distinct ih
      exact .intro hsize distinct ih

theorem contentTo_kept (h : f.IsTree id) (depth : Nat) :
    other.contentTo depth id = f.contentTo depth id := by
  induction depth generalizing id with
  | zero => rfl
  | succ depth ih =>
      rw [contentTo, contentTo, tag, fields, hkept id h.exist]
      exact congrArg _ (Fields.contents_congr fun child hchild => ih (h.child hchild))

end

end IsTree

/-- Where all children exist, a way down that ends leads through a tree. -/
theorem Shallow.isTree (h : f.Shallow depth id)
    (hchildren : ∀ p, ∀ child ∈ Fields.children (f.fields p), child < f.size)
    (hnames : ∀ p < f.size, ((f.fields p).map Prod.fst).Nodup) (hid : id < f.size) :
    f.IsTree id := by
  induction depth generalizing id with
  | zero => exact h.elim
  | succ depth ih =>
      exact .intro hid (hnames id hid) fun child hchild =>
        ih (h child hchild) (hchildren id child hchild)

/-- After edits that leave no child behind, every node is the root of a tree, if the
fields of each have different names. -/
theorem isTree_of_clean (h : Reached Edit.Clean f)
    (hnames : ∀ p < f.size, ((f.fields p).map Prod.fst).Nodup) (hid : id < f.size) :
    f.IsTree id := by
  have ho := h.owned
  obtain ⟨hl, hr⟩ := h.rooted
  have hshallow : f.Shallow f.size id :=
    ho.shallow hr hl (show f.climb 0 id = some id from rfl) hid (by omega)
  refine hshallow.isTree (fun p child hchild => ?_) hnames hid
  by_contra hge
  have hlink := (ho.linked child p).2 hchild
  rw [parent?_of_size_le (Nat.le_of_not_lt hge)] at hlink
  cases hlink

/-! ### Copies that are planted -/

/-- Trees were copied from one forest to the end of another, down to a depth. -/
structure Copies (f : Forest) (depth : Nat) (ids : List NodeId) (target : Forest)
    (ids' : List NodeId) (target' : Forest) : Prop where
  plants : target.Plants target' ids'
  contents : ids'.map target'.content = ids.map (f.contentTo depth)
  size : target'.size = target.size + (ids.flatMap (f.descendantsTo depth)).length

namespace Copies

variable {ids ids' more more' : List NodeId}

theorem refl (f : Forest) (depth : Nat) (target : Forest) : Copies f depth [] target [] target where
  plants := .refl target
  contents := rfl
  size := rfl

theorem trans (h : Copies f depth ids target ids' target')
    (h' : Copies f depth more target' more' target'') :
    Copies f depth (ids ++ more) target (ids' ++ more') target'' where
  plants := h.plants.trans h'.plants
  contents := by
    rw [List.map_append, List.map_append, h.plants.map_content h'.plants, h.contents, h'.contents]
  size := by
    rw [h'.size, h.size, List.flatMap_append, List.length_append, Nat.add_assoc]

end Copies

/-- A computation copies the tree below a node. -/
abbrev CopiesNode (f : Forest) (depth : Nat) (copy : StateM Forest NodeId) (id : NodeId) : Prop :=
  ∀ target, Copies f depth [id] target [(copy target).1] (copy target).2

theorem copies_mapM {copy : NodeId → StateM Forest NodeId} (ids : List NodeId)
    (h : ∀ id ∈ ids, CopiesNode f depth (copy id) id) (target : Forest) :
    Copies f depth ids target (ids.mapM copy target).1 (ids.mapM copy target).2 := by
  induction ids generalizing target with
  | nil => exact .refl f depth target
  | cons id ids ih =>
      obtain ⟨hid, hids⟩ := List.forall_mem_cons.1 h
      rw [List.mapM_cons]
      exact (hid target).trans (ih hids (copy id target).2)

/-- The children of a value are copied, and the copies take their places. -/
theorem copies_mapChildren {copy : NodeId → StateM Forest NodeId} (value : FieldValue)
    (h : ∀ id ∈ value.children, CopiesNode f depth (copy id) id) (target : Forest) :
    Copies f depth value.children target (mapChildren copy value target).1.children
        (mapChildren copy value target).2 ∧
      (mapChildren copy value target).1.content (mapChildren copy value target).2.content =
        value.content (f.contentTo depth) := by
  cases value with
  | terminal t => exact ⟨.refl f depth target, rfl⟩
  | node id =>
      have hcopy := h id (List.mem_singleton_self id) target
      exact ⟨hcopy, (List.cons.inj hcopy.contents).1⟩
  | list ids =>
      have hcopies := copies_mapM ids h target
      exact ⟨hcopies, congrArg Content.list hcopies.contents⟩

/-- The copy of a field. -/
def copyField (copy : NodeId → StateM Forest NodeId) (field : String × FieldValue) :
    StateM Forest (String × FieldValue) := do
  return (field.1, ← mapChildren copy field.2)

theorem copies_fields {copy : NodeId → StateM Forest NodeId} (fields : Fields)
    (h : ∀ id ∈ fields.children, CopiesNode f depth (copy id) id) (target : Forest) :
    Copies f depth fields.children target (Fields.children (fields.mapM (copyField copy) target).1)
        (fields.mapM (copyField copy) target).2 ∧
      Fields.contents (fields.mapM (copyField copy) target).2.content
          (fields.mapM (copyField copy) target).1 =
        fields.contents (f.contentTo depth) := by
  induction fields generalizing target with
  | nil => exact ⟨.refl f depth target, rfl⟩
  | cons field rest ih =>
      obtain ⟨hfirst, hrest⟩ : (∀ id ∈ field.2.children, CopiesNode f depth (copy id) id) ∧
          ∀ id ∈ Fields.children rest, CopiesNode f depth (copy id) id := by
        rw [Fields.children_cons] at h
        exact List.forall_mem_append.1 h
      obtain ⟨hvalue, hcontent⟩ := copies_mapChildren field.2 hfirst target
      obtain ⟨hmore, hcontents⟩ := ih hrest (mapChildren copy field.2 target).2
      rw [List.mapM_cons]
      constructor
      · rw [Fields.children_cons]
        exact hvalue.trans hmore
      · -- The copy of the first field is what it was when those of the others come.
        have hkept := FieldValue.content_congr fun id hid =>
          hmore.plants.grows.content hvalue.plants.descends (hvalue.plants.bounds hid).1
            (hvalue.plants.bounds hid).2
        exact congrArg₂ (fun x xs => (field.1, x) :: xs) (hkept.trans hcontent) hcontents

/-- A tree that ends is copied as it is. -/
theorem copies_copyTo (h : f.Shallow depth id) : CopiesNode f depth (f.copyTo depth id) id := by
  intro target
  induction depth generalizing id target with
  | zero => exact h.elim
  | succ depth ih =>
      obtain ⟨hcopies, hcontents⟩ := copies_fields (f.fields id)
        (fun child hchild => fun target => ih (h child hchild) target) target
      have hplants := hcopies.plants
      constructor
      · exact hplants.append
      · refine congrArg (fun x => [x]) ?_
        refine (content_append hplants.descends hplants.grows.size fun child hchild =>
          hplants.bounds hchild).trans ?_
        rw [hcontents]
        rfl
      · have hsize := hcopies.size
        rw [List.flatMap_singleton, descendantsTo, List.length_cons, ← Nat.add_assoc, ← hsize]
        exact size_append

/-! ### Forests that are moved -/

/-- A forest behind another one, with all its links moved along. -/
def onto (base f : Forest) : Forest :=
  { base with nodes := base.nodes ++ f.nodes.map (Node.shift base.size) }

variable {base : Forest}

@[simp] theorem size_onto : (base.onto f).size = base.size + f.size := by
  simp [onto, size]

theorem onto_empty (d : Dialect) : base.onto { dialect := d } = base := by
  simp [onto]

theorem node?_onto (i : Nat) : (base.onto f).node? i =
    if i < base.size then base.node? i else (f.node? (i - base.size)).map (Node.shift base.size) := by
  simp only [onto, node?, size, Array.getElem?_append, Array.getElem?_map]
  rfl

theorem children_shift (offset : Nat) (value : FieldValue) :
    (value.shift offset).children = value.children.map (· + offset) := by
  cases value <;> rfl

/-- Fields whose children have numbers so much larger. -/
def shiftFields (offset : Nat) (fields : Fields) : Fields :=
  fields.map fun field => (field.1, field.2.shift offset)

theorem children_shiftFields (offset : Nat) (fields : Fields) :
    Fields.children (shiftFields offset fields) = (Fields.children fields).map (· + offset) := by
  rw [Fields.children, shiftFields, List.flatMap_map, Fields.children, List.map_flatMap]
  exact List.flatMap_congr fun field _ => children_shift offset field.2

/-- A node is made in a moved forest like in the forest. -/
theorem append_onto (base f : Forest) (tag : String) (fields : Fields) :
    (base.onto f).append tag (shiftFields base.size fields) =
      (f.size + base.size, base.onto (f.append tag fields).2) := by
  refine Prod.ext (by simp [append, Nat.add_comm]) (ext_of_node? ?_ fun i => ?_)
  · exact dialect_setParents ..
  · rw [node?_append, node?_onto, node?_onto, node?_append, children_shiftFields, size_onto]
    by_cases hi : i < base.size
    · have hnot : i ∉ (Fields.children fields).map (· + base.size) := by
        intro hmem
        obtain ⟨child, -, rfl⟩ := List.mem_map.1 hmem
        omega
      rw [if_pos hi, if_neg (by omega)]
      simp [hi, hnot]
    · obtain ⟨i, rfl⟩ := Nat.exists_eq_add_of_le' (Nat.le_of_not_lt hi)
      rw [if_neg hi, Nat.add_sub_cancel]
      by_cases hlast : i = f.size
      · rw [if_neg hi, if_pos hlast, if_pos (by omega)]
        rfl
      · rw [if_neg hlast, if_neg (by omega), if_neg hi, Option.map_map, Option.map_map]
        congr 1
        funext n
        have hmem : i + base.size ∈ (Fields.children fields).map (· + base.size) ↔
            i ∈ Fields.children fields :=
          List.mem_map_of_injective fun _ _ => Nat.add_right_cancel
        simp only [Function.comp_apply, hmem]
        split
        · simp [Node.shift, Nat.add_comm]
        · rfl

/-- A computation does in a moved forest what it does in the forest. Its result is moved too. -/
def Moves {α : Type} (base : Forest) (move : α → α) (m : StateM Forest α) : Prop :=
  ∀ f, m (base.onto f) = (move (m f).1, base.onto (m f).2)

theorem moves_mapM {α β : Type} {move : β → β} {m : α → StateM Forest β} (l : List α)
    (h : ∀ x ∈ l, Moves base move (m x)) : Moves base (List.map move) (l.mapM m) := by
  intro f
  induction l generalizing f with
  | nil => rfl
  | cons x l ih =>
      obtain ⟨hx, hl⟩ := List.forall_mem_cons.1 h
      rw [List.mapM_cons]
      simp only [bind, StateT.bind, hx f, ih hl]
      rfl

theorem moves_mapChildren {copy : NodeId → StateM Forest NodeId}
    (h : ∀ id, Moves base (· + base.size) (copy id)) (value : FieldValue) :
    Moves base (FieldValue.shift base.size) (mapChildren copy value) := by
  intro f
  cases value with
  | terminal t => rfl
  | node id =>
      simp only [mapChildren, bind, StateT.bind, h id f]
      rfl
  | list ids =>
      simp only [mapChildren, bind, StateT.bind, moves_mapM ids (fun id _ => h id) f]
      rfl

theorem moves_copyField {copy : NodeId → StateM Forest NodeId}
    (h : ∀ id, Moves base (· + base.size) (copy id)) (field : String × FieldValue) :
    Moves base (fun field => (field.1, field.2.shift base.size)) (copyField copy field) := by
  intro f
  simp only [copyField, bind, StateT.bind, moves_mapChildren h field.2 f]
  rfl

theorem moves_copyTo (base f : Forest) (depth : Nat) (id : NodeId) :
    Moves base (· + base.size) (f.copyTo depth id) := by
  induction depth generalizing id with
  | zero => exact fun t => append_onto base t (f.tag id) []
  | succ depth ih =>
      intro t
      have hfields := moves_mapM (f.fields id) (fun field _ => moves_copyField ih field) t
      let copied := (f.fields id).mapM (copyField (f.copyTo depth)) t
      have happend := append_onto base copied.2 (f.tag id) copied.1
      change (let r := (f.fields id).mapM (copyField (f.copyTo depth)) (base.onto t)
          r.2.append (f.tag id) r.1) = _
      rw [hfields]
      exact happend

/-- Copying within a forest comes to the same as copying to the end of the forest. -/
theorem cloneSubtree_eq (f : Forest) (id : NodeId) : f.cloneSubtree id = f.copyInto id f := by
  have hmoved := moves_copyTo f f f.size id { dialect := f.dialect }
  rw [onto_empty] at hmoved
  exact hmoved.symm

/-! ### Copies -/

/-- The tree below a node of a forest was copied to the end of another one. There are as
many new nodes as the tree has, and none of the others is changed. The root has no parent;
each other new node is linked to the new node that holds it, and new nodes hold new nodes
only. Copy and tree read the same, whichever comes first. -/
structure IsCopy (f : Forest) (id : NodeId) (before after : Forest) (root : NodeId) : Prop where
  dialect : after.dialect = before.dialect
  size : after.size = before.size + (f.descendants id).length
  kept : ∀ n < before.size, after.node? n = before.node? n
  inside : before.size ≤ root ∧ root < after.size
  loose : after.parent? root = none
  held : ∀ n, before.size ≤ n → n < after.size → n ≠ root →
    ∃ p, before.size ≤ p ∧ p < after.size ∧ after.IsChild n p ∧ after.parent? n = some p
  apart : ∀ p, before.size ≤ p → ∀ child, after.IsChild child p →
    before.size ≤ child ∧ after.parent? child = some p
  same : f.same id after root = true ∧ after.same root f id = true

namespace Copies

variable {before after : Forest} {root : NodeId}

/-- A copy reads the same as the tree, in whatever forest that stands. -/
theorem same (h : Copies f f.size [id] before [root] after) (htree : other.IsTree id)
    (hcontent : other.contentTo other.size id = f.contentTo f.size id) :
    other.same id after root = true ∧ after.same root other id = true := by
  obtain ⟨hroot, hlast⟩ := h.plants.bounds (List.mem_singleton_self root)
  have hshallow := h.plants.descends.shallow hroot hlast
  have hcopy : after.contentTo after.size root = f.contentTo f.size id := by
    rw [← (List.cons.inj h.contents).1]
    exact contentTo_congr h.plants.descends hroot hlast (Nat.lt_succ_self root)
  have hreads := Content.same_of_bare (htree.distinct other.size) rfl
  rw [htree.shallow.same_eq hshallow, hshallow.same_eq htree.shallow, hcopy, ← hcontent]
  exact ⟨hreads, hreads⟩

theorem toIsCopy (h : Copies f f.size [id] before [root] after) (htree : f.IsTree id) :
    f.IsCopy id before after root where
  dialect := h.plants.grows.dialect
  size := by rw [h.size, List.flatMap_singleton, descendants]
  kept := h.plants.grows.same
  inside := h.plants.bounds (List.mem_singleton_self root)
  loose := h.plants.loose root (List.mem_singleton_self root)
  held := by
    intro n hle hlt hne
    rcases h.plants.root_or_child hle hlt with hmem | ⟨p, hp, hp', hchild⟩
    · exact absurd (List.mem_singleton.1 hmem) hne
    · exact ⟨p, hp, hp', hchild, h.plants.links p hp n hchild⟩
  apart p hp child hchild :=
    ⟨(h.plants.descends p hp child hchild).1, h.plants.links p hp child hchild⟩
  same := h.same htree rfl

end Copies

/-- A tree is copied faithfully into any forest and within its own. There the original
stays a tree that reads the same as the copy. -/
theorem IsTree.isCopy (h : f.IsTree id) :
    (∀ target, f.IsCopy id target (f.copyInto id target).2 (f.copyInto id target).1) ∧
      f.IsCopy id f (f.cloneSubtree id).2 (f.cloneSubtree id).1 ∧
      (f.cloneSubtree id).2.IsTree id ∧
      (f.cloneSubtree id).2.same id (f.cloneSubtree id).2 (f.cloneSubtree id).1 = true ∧
      (f.cloneSubtree id).2.same (f.cloneSubtree id).1 (f.cloneSubtree id).2 id = true := by
  have hcopies (target : Forest) :
      Copies f f.size [id] target [(f.copyInto id target).1] (f.copyInto id target).2 :=
    copies_copyTo h.shallow target
  have hclone := hcopies f
  have hkept := hclone.plants.grows.same
  have hcontent : (f.copyInto id f).2.contentTo (f.copyInto id f).2.size id =
      f.contentTo f.size id := by
    rw [h.contentTo_kept hkept, h.shallow.contentTo_eq hclone.plants.grows.size]
  rw [cloneSubtree_eq]
  exact ⟨fun target => (hcopies target).toIsCopy h, hclone.toIsCopy h, h.mono hkept,
    hclone.same (h.mono hkept) hcontent⟩

/-- A list within a list, to which a younger node was added. -/
def nested : List Edit :=
  [.build "Name" [("name", .terminal { kind := .identifier, value := "a" })],
    .build "Name" [("name", .terminal { kind := .identifier, value := "b", quoted := true })],
    .build "List" [("items", .list [0, 1])], .build "Name" [],
    .build "List" [("items", .list [2]), ("last", .node 3)], .build "List" [("items", .list [])],
    .pushChild 4 "items" 5]

/-- The outer list is copied within its forest, and copied again next to that copy. -/
theorem isCopy_nested :
    (after nested).IsTree 4 ∧
      (after nested).IsCopy 4 (after nested) ((after nested).cloneSubtree 4).2 11 ∧
      ((after nested).cloneSubtree 4).2.IsCopy 4 ((after nested).cloneSubtree 4).2
        (((after nested).cloneSubtree 4).2.cloneSubtree 4).2 17 ∧
      (((after nested).cloneSubtree 4).2.cloneSubtree 4).2.fields 17 =
        [("items", .list [14, 15]), ("last", .node 16)] := by
  have htree : (after nested).IsTree 4 :=
    isTree_of_clean (reached_after (by decide)) (by decide) (by decide)
  obtain ⟨-, hcopy, hstill, -⟩ := htree.isCopy
  obtain ⟨-, hagain, -⟩ := hstill.isCopy
  obtain ⟨hroot, hroot', hfields⟩ : ((after nested).cloneSubtree 4).1 = 11 ∧
      (((after nested).cloneSubtree 4).2.cloneSubtree 4).1 = 17 ∧
      (((after nested).cloneSubtree 4).2.cloneSubtree 4).2.fields 17 =
        [("items", .list [14, 15]), ("last", .node 16)] := by
    decide +kernel
  rw [hroot] at hcopy
  rw [hroot'] at hagain
  exact ⟨htree, hcopy, hagain, hfields⟩

end Forest

end DualSql
