import DualSql.Proofs.Fallible
import DualSql.Proofs.Forest.Edits

/-! # Edits in place

An edit is a computation on one forest: it checks first and then makes its
changes one after the other. So an edit that fails has changed nothing yet. The
check looks for a node on the way up from another one, with no bound on how far
it goes; it ends because the way does.

Main definitions: `Forest.Search` and `Editing.perform`. Main results:
`Forest.Rooted.search`, `Editing.perform_snd` and
`Editing.perform_error`. -/

namespace DualSql

namespace Forest

variable {f : Forest} {id sought root : NodeId}

/-! ### The search on the way up -/

/-- The search for a node that starts at a node, if there is one, and goes on to
the parent of each node that is another one. All nodes that it looks at exist. -/
inductive Search (f : Forest) (sought : NodeId) : Option NodeId → Bool → Prop
  | ended : Search f sought none false
  | found (exist : sought < f.size) : Search f sought (some sought) true
  | up {id : NodeId} {found : Bool} (exist : id < f.size) (other : id ≠ sought)
      (above : Search f sought (f.parent? id) found) : Search f sought (some id) found

/-- A search has at most one outcome. -/
theorem Search.unique {start : Option NodeId} {found found' : Bool}
    (h : f.Search sought start found) (h' : f.Search sought start found') : found = found' := by
  induction h with
  | ended =>
      cases h'
      rfl
  | found =>
      cases h' with
      | found => rfl
      | up _ other => exact absurd rfl other
  | up _ other _ ih =>
      cases h' with
      | found => exact absurd rfl other
      | up _ _ above => exact ih above

/-- The way up ends at a node without a parent. -/
theorem Rooted.exists_root (hr : f.Rooted) (hl : f.Linked) (hid : id < f.size) :
    ∃ steps root, f.climb steps id = some root ∧ root < f.size ∧ f.parent? root = none := by
  -- The parent of a node comes before it in the order of the ways up.
  induction id using hr.induction with
  | _ id ih =>
      cases hp : f.parent? id with
      | none => exact ⟨0, id, rfl, hid, hp⟩
      | some p =>
          obtain ⟨steps, root, hclimb, hroot⟩ := ih p hp (hl id p hp)
          refine ⟨steps + 1, root, ?_, hroot⟩
          rw [climb, hp]
          exact hclimb

/-- A search ends within as many steps as there are links to a root. -/
theorem search_of_climb (hl : f.Linked) {steps fuel : Nat} (h : f.climb steps id = some root)
    (hroot : f.parent? root = none) (hid : id < f.size) (hlt : steps < fuel) :
    f.Search sought (some id) (f.isAbove sought fuel (some id)) := by
  induction steps generalizing id fuel with
  | zero =>
      obtain ⟨fuel, rfl⟩ := Nat.exists_eq_succ_of_ne_zero (by omega : fuel ≠ 0)
      obtain rfl := Option.some.inj h
      have hnone : f.isAbove sought fuel none = false := by cases fuel <;> rfl
      rw [isAbove, hroot, hnone, Bool.or_false]
      by_cases heq : id = sought
      · subst heq
        rw [beq_self_eq_true]
        exact .found hid
      · rw [beq_false_of_ne heq]
        exact .up hid heq (hroot ▸ .ended)
  | succ steps ih =>
      obtain ⟨fuel, rfl⟩ := Nat.exists_eq_succ_of_ne_zero (by omega : fuel ≠ 0)
      obtain ⟨p, hp, hclimb⟩ := Option.bind_eq_some_iff.1 h
      rw [isAbove, hp]
      by_cases heq : id = sought
      · subst heq
        rw [beq_self_eq_true, Bool.true_or]
        exact .found hid
      · rw [beq_false_of_ne heq, Bool.false_or]
        exact .up hid heq (hp ▸ ih hclimb (hl id p hp) (by omega))

/-- Where all ways up end, the search ends, with what the check finds. -/
theorem Rooted.search (hr : f.Rooted) (hl : f.Linked) (hid : id < f.size) :
    f.Search sought (some id) (f.isAbove sought (f.size + 1) (some id)) := by
  obtain ⟨steps, root, hclimb, -, hroot⟩ := hr.exists_root hl hid
  have hlt := hr.climb_lt hl hclimb hid
  exact search_of_climb hl hclimb hroot hid (by omega)

end Forest

/-! ### Edits step by step -/

/-- A computation that changes a forest in place. -/
abbrev Editing := ExceptT Error (StateM Forest)

namespace Editing

open Fallible Forest

/-- Fails on a node that has a parent. -/
def checkOrphan (child : NodeId) : Editing Unit := do
  match (← get).parent? child with
  | some parent => throw (.ownership child parent)
  | none => return

/-- Fails on a child that has a parent or would become its own ancestor. -/
def checkAttachable (parent child : NodeId) : Editing Unit := do
  checkOrphan child
  let f ← get
  if f.isAbove child (f.size + 1) (some parent) then throw (.cycle child parent)

/-- Makes a node of children that have no parent yet. -/
def build (tag : String) (fields : Fields) : Editing NodeId := do
  (Fields.children fields).forM checkOrphan
  let id := (← get).size
  (Fields.children fields).forM fun child => modify fun f => f.setParent child (some id)
  modify fun f => { f with nodes := f.nodes.push { tag, fields } }
  return id

/-- Removes a field and releases the children in it. -/
def removeField (id : NodeId) (name : String) : Editing (Option FieldValue) := do
  match (← get).field? id name with
  | none => return none
  | some value =>
    modify fun f => f.setFields id (Fields.erase name)
    value.children.forM fun child => modify fun f => f.setParent child none
    return some value

/-- Makes a node the single child in a field of another. -/
def adopt (parent : NodeId) (name : String) (child : NodeId) : Editing Unit := do
  checkAttachable parent child
  let _ ← removeField parent name
  modify fun f => f.setParent child (some parent)
  modify fun f => f.setFields parent (Fields.set name (.node child))

/-- Appends a node to the list in a field of another. -/
def pushChild (parent : NodeId) (name : String) (child : NodeId) : Editing Unit := do
  checkAttachable parent child
  modify fun f => f.setParent child (some parent)
  match (← get).field? parent name with
  | some (.list ids) => modify fun f => f.setFields parent (Fields.set name (.list (ids ++ [child])))
  | _ => modify fun f => f.setFields parent (Fields.set name (.list [child]))

/-- Detaches a node from its parent, which is returned. -/
def release (child : NodeId) : Editing (Option NodeId) := do
  match (← get).parent? child with
  | none => return none
  | some parent =>
    modify fun f => f.setParent child none
    modify fun f => f.setFields parent (Fields.without child)
    return some parent

/-- Does an edit. -/
def perform : Edit → Editing Unit
  | .build tag fields => do let _ ← build tag fields
  | .setTerminal id name t => modify fun f => f.setTerminal id name t
  | .adopt parent name child => adopt parent name child
  | .pushChild parent name child => pushChild parent name child
  | .release child => do let _ ← release child
  | .removeField id name => do let _ ← removeField id name

variable {f : Forest} {id parent child : NodeId} {name : String}

theorem checkOrphan_apply : checkOrphan child f = (f.checkOrphan child, f) := by
  unfold checkOrphan Forest.checkOrphan
  rw [get_bind]
  cases f.parent? child <;> rfl

theorem forM_checkOrphan_apply (ids : List NodeId) :
    (ids.forM checkOrphan : Editing PUnit) f = (ids.forM f.checkOrphan, f) := by
  induction ids with
  | nil => rfl
  | cons id ids ih =>
      simp only [List.forM_eq_forM, List.forM_cons] at ih ⊢
      rw [bind_apply, checkOrphan_apply]
      cases f.checkOrphan id with
      | error e => rfl
      | ok u => exact ih

theorem checkAttachable_apply :
    checkAttachable parent child f = (f.checkAttachable parent child, f) := by
  unfold checkAttachable Forest.checkAttachable
  rw [bind_apply, checkOrphan_apply]
  cases f.checkOrphan child with
  | error e => rfl
  | ok u =>
      simp only
      rw [get_bind]
      cases f.isAbove child (f.size + 1) (some parent) <;> rfl

theorem setParents_apply (ids : List NodeId) (p : Option NodeId) :
    (ids.forM fun child => modify fun f => f.setParent child p : Editing PUnit) f =
      (.ok (), f.setParents ids p) := by
  induction ids generalizing f with
  | nil => rfl
  | cons id ids ih =>
      simp only [List.forM_eq_forM, List.forM_cons] at ih ⊢
      rw [modify_bind]
      exact ih

theorem removeField_apply :
    removeField id name f = (.ok (f.removeField id name).1, (f.removeField id name).2) := by
  unfold removeField Forest.removeField
  rw [get_bind]
  cases f.field? id name with
  | none => rfl
  | some value =>
      simp only
      rw [modify_bind, bind_of_ok (setParents_apply _ _)]
      rfl

theorem release_apply :
    release child f = (.ok (f.release child).1, (f.release child).2) := by
  unfold release Forest.release
  rw [get_bind]
  cases f.parent? child <;> rfl

/-- What an edit leaves in place: the forest that it gives, or the one before it. -/
def outcome {α : Type} (f : Forest) : Except Error (α × Forest) → Except Error α × Forest
  | .ok (a, f') => (.ok a, f')
  | .error e => (.error e, f)

theorem outcome_error {α : Type} {x : Except Error (α × Forest)} {f' : Forest} {error : Error}
    (h : outcome f x = (.error error, f')) : f' = f := by
  cases x with
  | error e => exact (Prod.mk.inj h).2.symm
  | ok built => cases (Prod.mk.inj h).1

theorem build_apply (tag : String) (fields : Fields) :
    build tag fields f = outcome f (f.build tag fields) := by
  unfold build Forest.build
  rw [bind_apply, forM_checkOrphan_apply]
  cases (Fields.children fields).forM f.checkOrphan with
  | error e => rfl
  | ok u =>
      simp only
      rw [get_bind, bind_of_ok (setParents_apply _ _)]
      rfl

theorem adopt_apply :
    adopt parent name child f = outcome f ((f.adopt parent name child).map ((), ·)) := by
  unfold adopt Forest.adopt
  rw [bind_apply, checkAttachable_apply]
  cases f.checkAttachable parent child with
  | error e => rfl
  | ok u =>
      simp only
      rw [bind_of_ok removeField_apply]
      rfl

theorem pushChild_apply :
    pushChild parent name child f = outcome f ((f.pushChild parent name child).map ((), ·)) := by
  unfold pushChild Forest.pushChild
  rw [bind_apply, checkAttachable_apply]
  cases f.checkAttachable parent child with
  | error e => rfl
  | ok u =>
      simp only
      -- The field is read behind the first change, which leaves all fields as they are.
      rw [modify_bind, get_bind, field?, fields_setParent, ← field?]
      rcases f.field? parent name with _ | _ | _ | ids <;> rfl

/-- An edit in place leaves the forest that the edit is said to leave. -/
theorem perform_snd (e : Edit) : (perform e f).2 = f.edit e := by
  cases e with
  | build tag fields =>
      simp only [perform, edit]
      rw [bind_apply, build_apply]
      rcases f.build tag fields with e | ⟨id, f'⟩ <;> rfl
  | setTerminal id name t => rfl
  | adopt parent name child =>
      simp only [perform, edit]
      rw [adopt_apply]
      rcases f.adopt parent name child with e | f' <;> rfl
  | pushChild parent name child =>
      simp only [perform, edit]
      rw [pushChild_apply]
      rcases f.pushChild parent name child with e | f' <;> rfl
  | release child =>
      simp only [perform, edit]
      rw [bind_of_ok release_apply]
      rfl
  | removeField id name =>
      simp only [perform, edit]
      rw [bind_of_ok removeField_apply]
      rfl

/-- An edit that fails leaves the forest as it was. -/
theorem perform_error {e : Edit} {error : Error} {f' : Forest}
    (h : perform e f = (.error error, f')) : f' = f := by
  cases e with
  | build tag fields =>
      simp only [perform] at h
      rcases bind_eq_error.1 h with hbuild | ⟨_, _, -, hpure⟩
      · exact outcome_error ((build_apply tag fields).symm.trans hbuild)
      · exact (pure_eq_error.1 hpure).elim
  | setTerminal id name t => cases (Prod.mk.inj h).1
  | adopt parent name child => exact outcome_error (adopt_apply.symm.trans h)
  | pushChild parent name child => exact outcome_error (pushChild_apply.symm.trans h)
  | release child =>
      simp only [perform] at h
      rw [bind_of_ok release_apply] at h
      exact (pure_eq_error.1 h).elim
  | removeField id name =>
      simp only [perform] at h
      rw [bind_of_ok removeField_apply] at h
      exact (pure_eq_error.1 h).elim

end Editing

end DualSql
