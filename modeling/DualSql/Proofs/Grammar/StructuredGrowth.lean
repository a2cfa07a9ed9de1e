import DualSql.Proofs.Grammar.Reader
import DualSql.Proofs.Grammar.Recompiling

/-! # What a reading adds to a forest

A reader builds children before it knows whether the object around them has a shape
that fits. What it has built in vain is dropped, whichever of its parts it was that
did not fit. So a reading either adds one tree and nothing else, or it leaves the
forest as it was.

Main results: `Structured.Reached.closed` and `Structured.grown_of_readAny`. -/

namespace DualSql.Structured

open Fallible Forest

variable {s s' : ReadState} {options : ReadOptions}

/-- Readers make children before the nodes that hold them, and drop the youngest nodes first. -/
theorem upheld_descends (options : ReadOptions) :
    Upheld (fun _ _ => True) options fun s => s.forest.Linked ∧ s.forest.Descends 0 where
  schema _ _ h := h
  drop _ mark h := ⟨h.1.truncate mark, h.2.truncate mark⟩
  shapes _ _ _ _ := trivial
  node := by
    intro depth tag members shape fields s t h _ hrun ht
    let o : Outline := { registry := s.registry, options := { dialect := options.dialect } }
    obtain ⟨plants, -⟩ := readFields_of_ok (o := o) rfl h.1 (.refl _) hrun
    rw [Ends, build_total plants]
    exact ⟨ht.1.append, ht.2.append fun child hc => ⟨Nat.zero_le child, (plants.bounds hc).2⟩⟩

theorem Reached.descends (h : Reached s) : s.forest.Linked ∧ s.forest.Descends 0 := by
  induction h with
  | @start r built d => exact ⟨linked_start r d, descends_size _⟩
  | readAny _ options types tree ih => exact (upheld_descends options).readAnyTo _ types tree _ ih
  | readType _ options tag tree ih => exact (upheld_descends options).readType tag tree _ ih

/-- All links in the forest of a reader name nodes that it has. -/
theorem Reached.closed (h : Reached s) : s.forest.Closed :=
  ⟨h.descends.1, fun _ _ => h.descends.2.child_lt⟩

/-- What a reader has is always closed; and where a forest is, a value that is no node of the
types leaves it as it was, and one that is adds the tree of that node and nothing else. -/
theorem grown_of_readAny (options : ReadOptions) (types : List String) (tree : Json) :
    (∀ s, Reached s → s.forest.Closed) ∧
    (∀ s s' : ReadState, s.forest.Closed → readAny options types tree s = (.ok none, s') →
      s'.forest = s.forest) ∧
    ∀ (s s' : ReadState) (id : NodeId), s.forest.Closed →
      readAny options types tree s = (.ok (some id), s') → GrownBy s.forest s'.forest id := by
  have hplants (s s' : ReadState) (r : Option NodeId) (hclosed : s.forest.Closed)
      (h : readAny options types tree s = (.ok r, s')) : s.forest.PlantsNode s'.forest r :=
    (readAnyTo_of_ok (o := { registry := s.registry, options := { dialect := options.dialect } })
      rfl hclosed.linked (.refl _) h).2.1
  refine ⟨fun s => Reached.closed, fun s s' hclosed h => hplants s s' none hclosed h,
    fun s s' id hclosed h => ?_⟩
  exact Plants.grownBy (hplants s s' (some id) hclosed h) hclosed

/-- A type for a list of different names. -/
def namesGrammar : List Registry.Request :=
  [.declare "Name" ((Rule.tok [.identifier]).named "name"),
    .declare "Names" ((((Rule.ofTypes ["Name"]).named "items").many ",").mapAttrs
      fun attrs => { attrs with singletons := .byValue })]

/-- A list of names. -/
def names (items : List String) : Json :=
  .object [(nodeName, .string "Names"), ("items", .array (items.map fun name =>
    .object [(nodeName, .string "Name"), ("name", .string name)]))]

/-- A reader that has read a list of names. -/
def namesRead : ReadState :=
  (readAny { dialect := .postgres } ["Names"] (names ["a", "b"])
    (start (.after namesGrammar) .postgres)).2

/-- It goes on with a list in which a name comes twice. -/
def namesRefused : Except Error (Option NodeId) × ReadState :=
  readAny { dialect := .postgres } ["Names"] (names ["a", "c", "a"]) namesRead

/-- It then reads another list. -/
def namesAdded : Except Error (Option NodeId) × ReadState :=
  readAny { dialect := .postgres } ["Names"] (names ["b", "c"]) namesRefused.2

/-- The three names that were made for the list that is refused leave no trace. -/
theorem grown_names :
    namesRefused.1.toOption = some none ∧ namesRefused.2.forest = namesRead.forest ∧
      namesAdded.1.toOption = some (some 5) ∧ GrownBy namesRead.forest namesAdded.2.forest 5 := by
  have hruns : namesRefused.1.toOption = some none ∧ namesAdded.1.toOption = some (some 5) := by
    decide +kernel
  have hreached : Reached namesRead :=
    (Reached.start (Registry.built_after namesGrammar) .postgres).readAny _ _ _
  obtain ⟨hclosed, hrefused, -⟩ :=
    grown_of_readAny { dialect := .postgres } ["Names"] (names ["a", "c", "a"])
  have hsame := hrefused _ _ (hclosed _ hreached) (Parsing.ok_of_toOption hruns.1)
  obtain ⟨-, -, hadded⟩ := grown_of_readAny { dialect := .postgres } ["Names"] (names ["b", "c"])
  have hgrown := hadded _ _ 5 (hclosed _ (hreached.readAny _ _ _))
    (Parsing.ok_of_toOption hruns.2)
  exact ⟨hruns.1, hsame, hruns.2, hsame ▸ hgrown⟩

end DualSql.Structured
