import DualSql.Grammar.Standard
import DualSql.Proofs.Forest.InPlace
import DualSql.Proofs.Grammar.Preserving

/-! # The ways up in what a parser makes

A parser makes the children of a node before the node, and drops nodes from the
end only. So parents come after their children, whatever the outcome of the parse
is, and the way up from any node ends. Edits keep this, those that fail included,
although they may attach a node below a later or an earlier one.

Main definitions: `Forest.Rising` and `Parsing.Made`. Main result:
`Parsing.ways_end_of_made`. -/

namespace DualSql

namespace Forest

variable {f : Forest}

/-- The parents of nodes exist and come after them. -/
def Rising (f : Forest) : Prop :=
  ∀ id parent : Nat, f.parent? id = some parent → id < parent ∧ parent < f.size

theorem rising_empty (d : Dialect) : Rising { dialect := d } := by
  intro id parent hp
  rw [parent?_of_size_le (Nat.zero_le id)] at hp
  cases hp

theorem Rising.linked (h : f.Rising) : f.Linked :=
  fun id parent hp => (h id parent hp).2

theorem Rising.rooted (h : f.Rising) : f.Rooted := by
  have hless : Subrelation f.IsParent (InvImage (· < ·) fun id => f.size - id) := by
    intro parent id hp
    obtain ⟨hlt, hsize⟩ := h id parent hp
    change f.size - parent < f.size - id
    omega
  exact hless.wf (InvImage.wf _ Nat.lt_wfRel.wf)

theorem Rising.append (h : f.Rising) (tag : String) (fields : Fields) :
    (f.append tag fields).2.Rising := by
  intro id parent hp
  rw [parent?, node?_append] at hp
  rw [size_append]
  split at hp
  · cases hp
  · cases hn : f.node? id with
    | none => simp [hn] at hp
    | some n =>
        rw [hn, Option.map_some, Option.bind_some] at hp
        have hid : id < f.size := (Array.getElem?_eq_some_iff.1 hn).1
        split at hp
        · obtain rfl : f.size = parent := by simpa using hp
          omega
        · have hold := h id parent (by rw [parent?, hn]; exact hp)
          omega

theorem Rising.truncate (h : f.Rising) (mark : Nat) : (f.truncate mark).Rising := by
  unfold Forest.truncate
  split
  next => exact h
  next hlt =>
    intro id parent hp
    rw [parent?, node?, Array.getElem?_map, Array.take_eq_extract, Array.getElem?_extract,
      Nat.zero_add] at hp
    have hsize : (f.nodes.take mark).size = mark := by
      rw [Array.take_eq_extract, Array.size_extract]
      simp only [size] at hlt
      omega
    simp only [size, Array.size_map, hsize]
    split at hp
    next =>
      cases hn : f.nodes[id]? with
      | none => simp [hn] at hp
      | some n =>
          rw [hn, Option.map_some, Option.bind_some, Option.filter_eq_some_iff] at hp
          have hold := h id parent (by rw [parent?, node?, hn]; exact hp.1)
          exact ⟨hold.1, by simpa using hp.2⟩
    next => simp at hp

/-- The ways up end after any edits of nodes that exist. -/
theorem Follow.rooted {allowed : Forest → Edit → Prop} {edits : List Edit}
    (h : Follow allowed f edits) (hl : f.Linked) (hr : f.Rooted) :
    (edits.foldl Forest.edit f).Linked ∧ (edits.foldl Forest.edit f).Rooted := by
  induction edits generalizing f with
  | nil => exact ⟨hl, hr⟩
  | cons e edits ih =>
      obtain ⟨exist, -, hrest⟩ := h
      obtain ⟨hl', hr'⟩ := rooted_edit hl hr exist
      exact ih hrest hl' hr'

end Forest

namespace Parsing

open Fallible Forest

variable {f : Forest}

/-- A forest that a parser makes. It begins empty; each call goes on with the forest
that the one before left, whether that call succeeded or not, and reads from
wherever it is told to. -/
inductive Made : Forest → Prop
  | empty (d : Dialect) : Made { dialect := d }
  | node {s : ParseState} (options : ParseOptions) (fuel : Nat) (tag : String)
      (before : Made s.forest) : Made (parseNode options fuel tag s).2.forest
  | any {s : ParseState} (options : ParseOptions) (fuel : Nat) (types : List String)
      (before : Made s.forest) : Made (parseAny options fuel types s).2.forest
  | type {s : ParseState} (options : ParseOptions) (fuel : Nat) (tag : String)
      (before : Made s.forest) : Made (parseType options fuel tag s).2.forest
  | climbing {s : ParseState} (options : ParseOptions) (fuel : Nat) (operands : List String)
      (climb : Climb) (minimum : Nat) (before : Made s.forest) :
      Made (parseClimbing options fuel operands climb minimum s).2.forest
  | whole {s : ParseState} (options : ParseOptions) (types : List String)
      (before : Made s.forest) : Made (parseWhole options types s).2.forest

theorem stable_rising : Stable fun _ f => f.Rising where
  schema _ _ _ _ h := h
  append _ _ tag fields h := h.append tag fields
  truncate _ _ mark h := h.truncate mark

theorem Made.rising (h : Made f) : f.Rising := by
  induction h with
  | empty d => exact rising_empty d
  | node options fuel tag _ ih => exact (preservesAll stable_rising fuel).node tag _ ih
  | any options fuel types _ ih => exact (preservesAll stable_rising fuel).any types _ ih
  | type options fuel tag _ ih => exact (preservesAll stable_rising fuel).type tag _ ih
  | climbing options fuel operands climb minimum _ ih =>
      exact (preservesAll stable_rising fuel).climbing operands climb minimum _ ih
  | whole options types _ ih => exact preserves_whole stable_rising types _ ih

/-- After any edits of what a parser made, the way up from any node ends at a node
without a parent, so the search for a node on it ends, with what the check finds.
The edits change the forest in place, and one that fails leaves it as it was. -/
theorem ways_end_of_made (made : Made f) {edits : List Edit}
    (exist : Follow (fun _ _ => True) f edits) :
    let g := edits.foldl Forest.edit f
    (∀ id < g.size, ∃ steps root,
      g.climb steps id = some root ∧ root < g.size ∧ g.parent? root = none) ∧
    (∀ sought id found, id < g.size →
      (g.Search sought (some id) found ↔ found = g.isAbove sought (g.size + 1) (some id))) ∧
    ∀ e, (Editing.perform e g).2 = g.edit e ∧
      ∀ error, (Editing.perform e g).1 = .error error → (Editing.perform e g).2 = g := by
  intro g
  obtain ⟨hl, hr⟩ := exist.rooted made.rising.linked made.rising.rooted
  refine ⟨fun id hid => hr.exists_root hl hid, fun sought id found hid => ?_, fun e => ?_⟩
  · have hsearch : g.Search sought (some id) _ := hr.search hl hid
    constructor
    · intro h
      exact h.unique hsearch
    · rintro rfl
      exact hsearch
  · refine ⟨Editing.perform_snd e, fun error herror => ?_⟩
    exact Editing.perform_error (Prod.ext herror rfl)

/-- The parse of a sum in parentheses. -/
def sumParsed : Except Error (Option NodeId) × ParseState :=
  parseNode { dialect := .postgres } 200 "ParenExpr"
    (start (.ofChunks .postgres (.ofDialect .postgres) ["(a + b)"]) (Standard.extend {}) .postgres)

/-- Edits after which a node holds the root of the tree that it stands below. -/
def tangling : List Edit :=
  [.setTerminal 3 "expr" { kind := .keyword, value := "NULL" },
    .build "Pair" [("left", .node 3), ("right", .node 3)], .removeField 4 "left",
    .adopt 0 "pair" 4]

/-- Fields and links do not agree any more, but the way up still ends, and closing
the circle is refused. -/
theorem ways_end_tangled :
    let f := sumParsed.2.forest
    let g := tangling.foldl Forest.edit f
    Made f ∧ Follow (fun _ _ => True) f tangling ∧
      g.child? 4 "right" = some 3 ∧ (∃ steps root, g.climb steps 4 = some root ∧
        root < g.size ∧ g.parent? root = none) ∧ g.Search 3 (some 4) true ∧
      (Editing.perform (.adopt 4 "left" 3) g).1.toOption = none ∧
      (Editing.perform (.adopt 4 "left" 3) g).2 = g := by
  intro f g
  have made : Made f := .node _ _ _ (.empty .postgres)
  -- The kernel evaluates the parse once for all of these.
  obtain ⟨exist, hsize, hchild, habove, hrefused⟩ :
      Follow (fun _ _ => True) f tangling ∧ 4 < g.size ∧
      g.child? 4 "right" = some 3 ∧ true = g.isAbove 3 (g.size + 1) (some 4) ∧
      (Editing.perform (.adopt 4 "left" 3) g).1.toOption = none := by
    decide +kernel
  obtain ⟨hends, hsearch, hperform⟩ := ways_end_of_made made exist
  refine ⟨made, exist, hchild, hends 4 hsize, (hsearch 3 4 true hsize).2 habove, hrefused, ?_⟩
  cases herror : (Editing.perform (.adopt 4 "left" 3) g).1 with
  | error error => exact (hperform (.adopt 4 "left" 3)).2 error herror
  | ok u =>
      rw [herror] at hrefused
      cases hrefused

end Parsing

end DualSql
