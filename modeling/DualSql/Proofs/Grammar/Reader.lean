import DualSql.Proofs.Grammar.ShapeFields
import DualSql.Proofs.Grammar.StructuredOutline

/-! # The states of a reader

A reader that goes on after a failure finds what the failed reading has made in
its forest. What asking for a schema, making a node and dropping nodes keep, all
reading keeps, and with it every state that a reader comes to. What is kept for nodes
of some shapes only is kept if the schemas have no others.

Main definitions: `Structured.Lasting`, `Structured.Upheld` and `Structured.Reached`.
Main results: `Structured.Upheld.readAnyTo`, `Structured.Reached.linked` and
`Structured.Reached.built`. -/

namespace DualSql

namespace Forest

variable {f : Forest}

theorem Linked.truncate (h : f.Linked) (mark : Nat) : (f.truncate mark).Linked := by
  unfold Forest.truncate
  split
  · exact h
  next hlt =>
    intro id parent hparent
    simp only [Forest.parent?, Forest.node?, Array.getElem?_map] at hparent
    obtain ⟨node, hnode, hparent⟩ := Option.bind_eq_some_iff.1 hparent
    obtain ⟨n, -, rfl⟩ := Option.map_eq_some_iff.1 hnode
    have hkept : parent < mark := by
      simpa using (Option.filter_eq_some_iff.1 hparent).2
    simp only [Forest.size] at hlt
    simp only [Forest.size, Array.size_map, Array.take_eq_extract, Array.size_extract]
    omega

theorem node?_truncate (mark id : Nat) : (f.truncate mark).node? id =
    if id < mark then (f.node? id).map fun n =>
      { n with parent := if f.size ≤ mark then n.parent else n.parent.filter (· < mark) }
    else none := by
  unfold truncate
  split
  next hle =>
    split
    · cases f.node? id <;> rfl
    · exact node?_of_size_le (by omega)
  next hlt =>
    rw [node?, Array.getElem?_map, Array.take_eq_extract, Array.getElem?_extract, Nat.zero_add]
    simp only [size] at hlt
    split
    · rw [if_pos (by omega)]
      rfl
    · rw [if_neg (by omega)]
      rfl

theorem fields_truncate (mark id : Nat) :
    (f.truncate mark).fields id = if id < mark then f.fields id else [] := by
  rw [fields, node?_truncate]
  split
  · rw [fields]
    cases f.node? id <;> rfl
  · rfl

/-- The nodes that are left have their types and their fields. -/
theorem grows_truncate (f : Forest) (mark : Nat) : Grows 0 (f.truncate mark) f where
  dialect := by
    unfold truncate
    split <;> rfl
  size := by
    unfold truncate
    split
    · exact Nat.le_refl _
    · simp only [size, Array.size_map, Array.take_eq_extract, Array.size_extract]
      omega
  same _ hid := absurd hid (Nat.not_lt_zero _)
  shape id hid := by
    have hlt : id < mark := by
      by_contra hge
      have hnone := node?_truncate (f := f) mark id
      rw [if_neg hge] at hnone
      obtain ⟨n, hn⟩ : ∃ n, (f.truncate mark).node? id = some n :=
        ⟨_, Array.getElem?_eq_getElem hid⟩
      rw [hnone] at hn
      cases hn
    rw [fields_truncate, if_pos hlt, tag, tag, node?_truncate, if_pos hlt]
    cases f.node? id <;> exact ⟨rfl, rfl⟩

theorem Descends.truncate {least : Nat} (h : f.Descends least) (mark : Nat) :
    (f.truncate mark).Descends least := by
  intro id hid child hchild
  rw [fields_truncate] at hchild
  split at hchild
  · exact h id hid child hchild
  · cases hchild

/-- Where children are made before their parents, all that a node holds exists. -/
theorem Descends.child_lt (h : f.Descends 0) {p child : Nat} (hchild : child ∈ (f.fields p).children) :
    child < f.size := by
  by_cases hp : p < f.size
  · exact Nat.lt_trans (h p (Nat.zero_le p) child hchild).2 hp
  · rw [fields_of_size_le (Nat.le_of_not_lt hp)] at hchild
    cases hchild

end Forest

namespace Structured

open Fallible

variable {P : ReadState → Prop}

/-- A property that each step of a reader keeps. -/
structure Lasting (P : ReadState → Prop) : Prop where
  schema : ∀ tag d, Keeps P (schema tag d)
  build : ∀ tag fields, Keeps P (build tag fields)
  drop : ∀ (s : ReadState) (mark : Nat), P s → P { s with forest := s.forest.truncate mark }

section

variable {d : Dialect}

theorem keeps_readItems {child : Json → Structured (Option NodeId)}
    (hchild : ∀ item, Keeps P (child item)) (policy : Singletons) (ids : List NodeId)
    (items : List Json) : Keeps P (readItems child policy ids items) := by
  induction items generalizing ids with
  | nil => exact keeps_pure _
  | cons item rest ih =>
      rw [Structured.readItems]
      refine (hchild item).bind fun r => ?_
      cases r with
      | none => exact keeps_pure _
      | some id =>
          refine keeps_get.bind fun s => ?_
          split
          · exact keeps_pure _
          · exact ih _

theorem keeps_readValue {child : List String → Json → Structured (Option NodeId)}
    (hchild : ∀ types item, Keeps P (child types item)) (kind : FieldKind) (value : Json) :
    Keeps P (readValue d child kind value) := by
  cases kind with
  | terminal kinds values => exact keeps_pure _
  | node types => exact (hchild types value).bind fun _ => keeps_pure _
  | list types arity singletons =>
      rw [Structured.readValue]
      split
      · exact keeps_pure _
      · split
        · exact (keeps_readItems (hchild types) singletons [] _).bind fun _ => keeps_pure _
        · exact keeps_pure _

theorem keeps_readFields {child : List String → Json → Structured (Option NodeId)}
    (hchild : ∀ types item, Keeps P (child types item)) (members : List (String × Json))
    (fields : Fields) (shape : Shape) : Keeps P (readFields d child members fields shape) := by
  induction shape generalizing fields with
  | nil => exact keeps_pure _
  | cons field rest ih =>
      rw [Structured.readFields]
      split
      · split
        · exact ih _
        · exact keeps_pure _
      · split
        · exact keeps_pure _
        · refine (keeps_readValue hchild field.kind _).bind fun r => ?_
          cases r with
          | none => exact keeps_pure _
          | some v => exact ih _

end

/-- What a reader does keeps a property, if nodes of each type are made by shapes of some
kind. It does so where the schemas of a state with the property have such shapes only. -/
structure Upheld (apt : String → Shape → Prop) (options : ReadOptions) (P : ReadState → Prop) :
    Prop where
  schema (tag : String) : Keeps P (schema tag options.dialect)
  drop (s : ReadState) (mark : Nat) (h : P s) : P { s with forest := s.forest.truncate mark }
  shapes {s : ReadState} {tag : String} {schema : Schema} (h : P s)
    (hschema : (s.registry.schema tag options.dialect).1 = .ok schema) :
    ∀ shape ∈ schema.shapes, apt tag shape
  node {depth : Nat} {tag : String} {members : List (String × Json)} {shape : Shape}
    {fields : Fields} {s t : ReadState} (h : P s) (hshape : apt tag shape)
    (hrun : readFields options.dialect (readAnyTo options depth) members [] shape s =
      (.ok (some fields), t)) (ht : P t) : Ends P (build tag fields) t

/-- What is kept whatever nodes are made of. -/
theorem Lasting.upheld (hP : Lasting P) (options : ReadOptions) :
    Upheld (fun _ _ => True) options P where
  schema tag := hP.schema tag _
  drop := hP.drop
  shapes _ _ _ _ := trivial
  node _ _ _ ht := (hP.build _ _).ends ht

namespace Upheld

variable {apt : String → Shape → Prop} {options : ReadOptions} {depth : Nat}

theorem readShapes (upheld : Upheld apt options P)
    (hchild : ∀ types item, Keeps P (readAnyTo options depth types item)) (tag : String)
    (members : List (String × Json)) {shapes : List Shape}
    (hshapes : ∀ shape ∈ shapes, apt tag shape) :
    Keeps P (readShapes options.dialect (readAnyTo options depth) tag members shapes) := by
  induction shapes with
  | nil => exact keeps_pure _
  | cons shape rest ih =>
      obtain ⟨hshape, hrest⟩ := List.forall_mem_cons.1 hshapes
      refine keeps_iff_ends.2 fun s hs => ?_
      rw [readShapes_cons]
      have hdropped : Keeps P (modify (fun t : ReadState =>
          { t with forest := t.forest.truncate s.forest.size }) >>= fun _ =>
            Structured.readShapes options.dialect (readAnyTo options depth) tag members rest) :=
        Keeps.bind (fun t ht => upheld.drop t _ ht) fun _ => ih hrest
      refine Ends.get_bind ?_
      by_cases hcovered : isCovered shape members = true
      · rw [if_pos hcovered]
        refine ((keeps_readFields hchild members [] shape).ends hs).bind fun r t hrun ht => ?_
        cases r with
        | some fields => exact (upheld.node hs hshape hrun ht).bind fun _ _ _ h => h
        | none => exact hdropped.ends ht
      · rw [if_neg hcovered]
        exact hdropped.ends hs

theorem readObject (upheld : Upheld apt options P)
    (hchild : ∀ types item, Keeps P (readAnyTo options depth types item)) (tag : String)
    (members : List (String × Json)) :
    Keeps P (readObject options (readAnyTo options depth) tag members) := by
  refine keeps_iff_ends.2 fun s hs => ?_
  refine ((upheld.schema tag).ends hs).bind fun schema t hschema ht => ?_
  have hshapes := upheld.shapes hs (Prod.mk.inj hschema).1
  refine ((upheld.readShapes hchild tag members hshapes).ends ht).bind fun r u _ hu => ?_
  cases r with
  | some id => exact hu
  | none =>
      dsimp only
      split
      · exact hu
      · exact hu

/-- What the steps of a reader keep, reading a value keeps. -/
theorem readAnyTo (upheld : Upheld apt options P) (depth : Nat) (types : List String)
    (tree : Json) : Keeps P (readAnyTo options depth types tree) := by
  induction depth generalizing types tree with
  | zero => exact keeps_pure _
  | succ depth ih =>
      rw [Structured.readAnyTo]
      split
      next members tag _ _ =>
        split
        · exact keeps_pure _
        · refine keeps_get.bind fun s => ?_
          split
          · exact keeps_throw _
          · exact upheld.readObject ih tag members
      next => exact keeps_pure _

theorem readType (upheld : Upheld apt options P) (tag : String) (tree : Json) :
    Keeps P (readType options tag tree) := by
  rw [Structured.readType]
  split
  · split
    · exact upheld.readObject (upheld.readAnyTo _) tag _
    · exact keeps_pure _
  · exact keeps_pure _

end Upheld

theorem Lasting.readAnyTo (hP : Lasting P) (options : ReadOptions) (depth : Nat)
    (types : List String) (tree : Json) : Keeps P (readAnyTo options depth types tree) :=
  (hP.upheld options).readAnyTo depth types tree

theorem Lasting.readType (hP : Lasting P) (options : ReadOptions) (tag : String) (tree : Json) :
    Keeps P (readType options tag tree) :=
  (hP.upheld options).readType tag tree

/-- A state of a reader that was made for a registry and has read any values. -/
inductive Reached : ReadState → Prop
  | start {r : Registry} (built : r.Built) (d : Dialect) : Reached (start r d)
  | readAny {s : ReadState} (reached : Reached s) (options : ReadOptions) (types : List String)
      (tree : Json) : Reached (readAny options types tree s).2
  | readType {s : ReadState} (reached : Reached s) (options : ReadOptions) (tag : String)
      (tree : Json) : Reached (readType options tag tree s).2

theorem lasting_linked : Lasting fun s => s.forest.Linked where
  schema tag d s h := h
  build tag fields s h := by
    rw [Structured.build]
    cases hbuild : s.forest.build tag fields with
    | error e => exact h
    | ok made =>
        obtain ⟨id, forest⟩ := made
        obtain ⟨-, rfl⟩ := Forest.build_ok hbuild
        exact h.append
  drop s mark h := h.truncate mark

theorem lasting_built : Lasting fun s => s.registry.Built where
  schema tag d s h := h.schema tag d
  build tag fields s h := by
    rw [Structured.build]
    cases s.forest.build tag fields <;> exact h
  drop s mark h := h

/-- What the steps of a reader keep, all its states have. -/
theorem Reached.of_lasting (hP : Lasting P) (hstart : ∀ r d, r.Built → P (Structured.start r d))
    {s : ReadState} (h : Reached s) : P s := by
  induction h with
  | start built d => exact hstart _ d built
  | readAny _ options types tree ih => exact hP.readAnyTo options _ types tree _ ih
  | readType _ options tag tree ih => exact hP.readType options tag tree _ ih

theorem Reached.linked {s : ReadState} (h : Reached s) : s.forest.Linked :=
  h.of_lasting lasting_linked fun r d _ => linked_start r d

theorem Reached.built {s : ReadState} (h : Reached s) : s.registry.Built :=
  h.of_lasting lasting_built fun _ _ built => built

end Structured

end DualSql
