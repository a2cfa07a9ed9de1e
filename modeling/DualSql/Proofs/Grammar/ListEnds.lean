import Mathlib.Logic.Relation
import DualSql.Proofs.Grammar.Backtracking

/-! # Where a list ends

The items of a list are matched one after the other, each behind its separator. An
item that does not match, or that repeats one of those before it, is given back together
with the separator. So the parser stands behind the last item that it has kept, whichever
way the list ends.

Main definitions: `Parsing.OneMore` and `Parsing.ListEnd`. Main result:
`Parsing.listEnd_of_matchItems`. -/

namespace DualSql

namespace Outline

/-- A separator that is missing costs the trivia in its place. -/
theorem separate_eq_false {separator : Option String} {items : List Content}
    {trees rest : List TokenTree} (h : separate separator items trees = (false, rest)) :
    items ≠ [] ∧ rest = TokenTree.significant trees ∧ ∃ symbol, separator = some symbol ∧
      ∀ tree ∈ rest.head?, Parsing.isSeparator symbol tree.token = false := by
  cases separator with
  | none => cases h
  | some symbol =>
      rw [separate] at h
      split at h
      · cases h
      next hsome =>
        refine ⟨by simpa using hsome, ?_⟩
        split at h
        next hnothing =>
          cases h
          exact ⟨hnothing.symm, symbol, rfl, by simp⟩
        next tree trees hnext =>
          split at h
          · cases h
          next hother =>
            cases h
            exact ⟨hnext.symm, symbol, rfl, by simpa using hother⟩

end Outline

namespace Parsing

open Fallible ParseState

section

variable (options : ParseOptions) (info : RuleInfo) (types : List String) (climb : Option Climb)
  (arity : Arity)

/-- A list gets one more item: there may be one, its separator is there, it matches, and it
does not repeat one of the others. -/
inductive OneMore : List NodeId × ParseState → List NodeId × ParseState → Prop
  | intro {fuel start : Nat} {items : List NodeId} {id : NodeId} {s s₁ s₂ t : ParseState}
      (room : arity.admitsMore items.length = true)
      (save : read Source.savepoint s = (.ok start, s₁))
      (separator : separate info.attrs.separator items s₁ = (.ok true, s₂))
      (item : matchOperand options fuel info types climb s₂ = (.ok (some id), t))
      (new : info.attrs.singletons.repeats t.forest items id = false) :
      OneMore (items, s) (items ++ [id], t)

/-- What comes next is no item of a list: behind the separator nothing matches, or what
matches repeats one of the items. -/
def Rejects (items : List NodeId) (s : ParseState) : Prop :=
  ∃ fuel start r s₁ s₂ t, read Source.savepoint s = (.ok start, s₁) ∧
    separate info.attrs.separator items s₁ = (.ok true, s₂) ∧
    matchOperand options fuel info types climb s₂ = (.ok r, t) ∧
    ∀ id ∈ r, info.attrs.singletons.repeats t.forest items id = true

/-- How a list ends behind its last item. There may be no more items; or there is no
separator, and nothing but trivia is passed over; or what comes next is rejected, and the
parser goes back behind the last item. -/
inductive ListEnd (items : List NodeId) (s : ParseState) : ParseState → Prop
  | full (reached : arity.admitsMore items.length = false) : ListEnd items s s
  | unseparated {symbol : String} {t : ParseState} (begun : items ≠ [])
      (separator : info.attrs.separator = some symbol)
      (missing : ∀ tree ∈ t.source.upcoming.head?, isSeparator symbol tree.token = false)
      (upcoming : t.source.upcoming = TokenTree.significant s.source.upcoming)
      (line : t.source.line = s.source.line) (forest : t.forest = s.forest) : ListEnd items s t
  | rejected {t : ParseState} (rejects : Rejects options info types climb items s)
      (undone : s.Undone t) : ListEnd items s t

end

variable {o : Outline} {least fuel : Nat} {info : RuleInfo} {types : List String}
  {climb : Option Climb} {arity : Arity} {items ids : List NodeId} {s s' : ParseState}

/-- A list gets one item more as often as it can, and ends behind the last of them. -/
theorem listEnd_of_good (good : s.Good o least)
    (h : matchItems o.options fuel info types climb arity items s = (.ok ids, s')) :
    ∃ t, Relation.ReflTransGen (OneMore o.options info types climb arity) (items, s) (ids, t) ∧
      ListEnd o.options info types climb arity ids t s' := by
  induction fuel generalizing items s with
  | zero => simp [matchItems, throw_eq_ok] at h
  | succ fuel ih =>
      rw [matchItems] at h
      split at h
      next hfull =>
        obtain ⟨rfl, rfl⟩ := pure_eq_ok.1 h
        exact ⟨s, .refl, .full (by simpa using hfull)⟩
      next hroom =>
        simp only [bind_eq_ok, mark_eq_ok] at h
        obtain ⟨start, s₁, hsave, mark, s₂, ⟨rfl, rfl⟩, b, s₃, hsep, h⟩ := h
        obtain ⟨step₁, restored₁, hstart⟩ := savepoint_step good hsave
        obtain ⟨step₃, forest₃, hrest⟩ := separate_step step₁.good hsep
        cases b with
        | false =>
            obtain ⟨rfl, rfl⟩ := pure_eq_ok.1 h
            obtain ⟨hsome, hupcoming, symbol, hsymbol, hmissing⟩ := Outline.separate_eq_false hrest
            rw [step₁.upcoming restored₁] at hupcoming
            exact ⟨s, .refl, .unseparated (by simpa using hsome) hsymbol hmissing hupcoming
              (step₁.trans step₃).keeps.line (forest₃.trans restored₁.forest)⟩
        | true =>
            simp only [Bool.not_true, Bool.false_eq_true, if_false, bind_eq_ok] at h
            obtain ⟨r, s₄, hoperand, h⟩ := h
            -- Going back undoes the separator together with what follows it.
            have hundone {s₅ : ParseState}
                (hb : backtrack start s₁.forest.size s₄ = (.ok (), s₅)) : s.Undone s₅ := by
              rw [hstart] at hb
              have step := (separate_step step₁.good.raise hsep).1
              obtain ⟨step, restored⟩ := backtrack_step step₁ restored₁
                (step.trans ((refines o fuel).operand step.good hoperand).1) hb
              exact undone_of_restored step restored
            cases r with
            | none =>
                simp only [bind_eq_ok, pure_eq_ok] at h
                obtain ⟨⟨⟩, s₅, hb, rfl, rfl⟩ := h
                exact ⟨s, .refl, .rejected
                  ⟨fuel, start, none, s₁, s₃, s₄, hsave, hsep, hoperand, by simp⟩ (hundone hb)⟩
            | some id =>
                simp only [bind_eq_ok, get_eq_ok] at h
                obtain ⟨a, t, ⟨rfl, rfl⟩, h⟩ := h
                split at h
                next hrepeats =>
                  simp only [bind_eq_ok, pure_eq_ok] at h
                  obtain ⟨⟨⟩, s₅, hb, rfl, rfl⟩ := h
                  exact ⟨s, .refl, .rejected
                    ⟨fuel, start, some id, s₁, s₃, s₄, hsave, hsep, hoperand, by simpa using hrepeats⟩
                    (hundone hb)⟩
                next hnew =>
                  have good₄ := ((refines o fuel).operand step₃.good hoperand).1.good
                  obtain ⟨t, hmore, hend⟩ := ih good₄ h
                  exact ⟨t, .head (.intro (by simpa using hroom) hsave hsep hoperand
                    (by simpa using hnew)) hmore, hend⟩

/-- However many items a list gets, and in whatever way it ends, the parser stands behind
the last of them. -/
theorem listEnd_of_matchItems {options : ParseOptions} (ready : s.source.Ready)
    (linked : s.forest.Linked)
    (h : matchItems options fuel info types climb arity items s = (.ok ids, s')) :
    ∃ t, Relation.ReflTransGen (OneMore options info types climb arity) (items, s) (ids, t) ∧
      ListEnd options info types climb arity ids t s' :=
  listEnd_of_good (good_before options ready linked) h

end Parsing

end DualSql
