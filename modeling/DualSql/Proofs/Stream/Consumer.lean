import DualSql.Proofs.Stream.Places

/-! # Reading nested streams in any order

A consumer who reads from a stream is handed the stream of every block that it
looks at or consumes, and may go on with any of them at any time. All of them
draw from one run, yet each gives what stands between its brackets: the answers
are those of places in token trees, one for each block.

Main definitions: `Consumer.trace` and `Walk.trace`, the answers to questions
that are asked one after the other. Main result: `Consumer.Follows.trace`. -/

namespace DualSql

/-- What can be asked of a stream. -/
inductive Question where
  | peek (n : Nat)
  | next

namespace Question

/-- Whether the stream moves on. -/
def moves : Question → Bool
  | peek _ => false
  | next => true

/-- How far ahead the item is. -/
def offset : Question → Nat
  | peek n => n
  | next => 0

/-- The item that is asked for, with its place in the stream. -/
def run : Question → Reading (Option (Nat × Cell))
  | peek n => do
    let cell ← Source.peekCell n
    let place := (← get).stream.position + n
    return cell.map (place, ·)
  | next => do
    let place := (← get).stream.position
    return (← Source.nextCell).map (place, ·)

end Question

/-- A reader with the streams that it was handed, each given by the places of
the blocks around it. -/
structure Consumer where
  source : Source
  reached : List (List Nat) := [[]]

namespace Consumer

/-- The stream that comes with an item. -/
def handed (path : List Nat) : Option (Nat × Cell) → List (List Nat)
  | some (place, .block ..) => [path ++ [place]]
  | _ => []

/-- The answer of a stream that was reached, and the reader from then on. -/
def ask (path : List Nat) (q : Question) (c : Consumer) :
    Option (Except Error (Option Token)) × Consumer :=
  if path ∈ c.reached then
    match c.source.readAt q.run path with
    | none => (none, c)
    | some (.error e, source) => (some (.error e), { c with source })
    | some (.ok found, source) =>
      (some (.ok (found.map fun f => f.2.token)),
        { source, reached := c.reached ++ handed path found })
  else (none, c)

/-- The answers to questions that are asked one after the other. -/
def trace : List (List Nat × Question) → Consumer → List (Option (Except Error (Option Token)))
  | [], _ => []
  | (path, q) :: rest, c => (c.ask path q).1 :: trace rest (c.ask path q).2

end Consumer

namespace TokenTree

/-- What stands between the brackets of a block, given by the places of the
blocks around it and its own. -/
def region : List Nat → List TokenTree → List TokenTree
  | [], trees => trees
  | i :: path, trees =>
    match trees[i]? with
    | some (.block _ contents) => region path contents
    | _ => []

/-- Whether a tree is a block. -/
def isBlock : TokenTree → Bool
  | leaf _ => false
  | block .. => true

end TokenTree

/-- Places in the regions of trees, with the regions that were reached. -/
structure Walk where
  position : List Nat → Nat := fun _ => 0
  reached : List (List Nat) := [[]]

namespace Walk

/-- Passes one item of a region. -/
def advance (path : List Nat) (position : List Nat → Nat) : List Nat → Nat :=
  fun p => if p = path then position p + 1 else position p

/-- Whether a region may only be looked at, since its block was not consumed.
That is as given for the outermost one. -/
def isLocked (outermost : Bool) (position : List Nat → Nat) (path : List Nat) : Bool :=
  match path.getLast? with
  | none => outermost
  | some i => position path.dropLast ≤ i

/-- The places after an item was given. -/
def pass (q : Question) (item : Option TokenTree) (path : List Nat) (position : List Nat → Nat) :
    List Nat → Nat :=
  if q.moves && item.isSome then advance path position else position

/-- The region that comes with an item. -/
def handed (path : List Nat) (place : Nat) (item : Option TokenTree) : List (List Nat) :=
  if item.any TokenTree.isBlock then [path ++ [place]] else []

/-- The answer of a region that was reached, and the places from then on. -/
def ask (trees : List TokenTree) (path : List Nat) (q : Question) (w : Walk) :
    Option (Except Error (Option Token)) × Walk :=
  if path ∈ w.reached then
    if q.moves && isLocked false w.position path then (some (.error (.stream .locked)), w)
    else
      let place := w.position path + q.offset
      let item := (TokenTree.region path trees)[place]?
      (some (.ok (item.map TokenTree.token)),
        { position := pass q item path w.position, reached := w.reached ++ handed path place item })
  else (none, w)

/-- The answers to questions that are asked one after the other. -/
def trace (trees : List TokenTree) :
    List (List Nat × Question) → Walk → List (Option (Except Error (Option Token)))
  | [], _ => []
  | (path, q) :: rest, w => (w.ask trees path q).1 :: trace trees rest (w.ask trees path q).2

theorem isLocked_cons (outermost : Bool) (position : List Nat → Nat) (i : Nat) (path : List Nat) :
    isLocked outermost position (i :: path) =
      isLocked (decide (position [] ≤ i)) (fun p => position (i :: p)) path := by
  cases path with
  | nil => rfl
  | cons j path =>
      simp only [isLocked, List.getLast?_cons_cons, List.dropLast_cons_cons,
        List.getLast?_eq_some_getLast (List.cons_ne_nil j path)]

theorem advance_cons (i j : Nat) (path p : List Nat) (position : List Nat → Nat) :
    advance (i :: path) position (j :: p) =
      if j = i then advance path (fun p => position (i :: p)) p else position (j :: p) := by
  by_cases h : j = i
  · subst h
    simp [advance]
  · simp [advance, h]

/-- Giving an item of an inner region moves that region only. -/
theorem pass_cons (q : Question) (item : Option TokenTree) (i : Nat) (path : List Nat)
    (position : List Nat → Nat) :
    pass q item (i :: path) position [] = position [] ∧
      ∀ j p, pass q item (i :: path) position (j :: p) =
        if j = i then pass q item path (fun p => position (i :: p)) p else position (j :: p) := by
  unfold pass
  split
  · exact ⟨rfl, fun j p => advance_cons i j path p position⟩
  · refine ⟨rfl, fun j p => ?_⟩
    split
    next h => rw [h]
    next => rfl

theorem mem_handed_cons {i j place : Nat} {path p : List Nat} {item : Option TokenTree} :
    j :: p ∈ handed (i :: path) place item ↔ j = i ∧ p ∈ handed path place item := by
  unfold handed
  split <;> simp

end Walk

namespace Source

open Fallible

variable {s s' : Source} {position : List Nat → Nat} {reached : List Nat → Prop} {n : Nat}

theorem stands_fillTo (h : s.stream.Stands position reached) (hf : fillTo n s = (.ok (), s')) :
    s'.stream.Stands position reached := by
  simp only [fillTo, bind_eq_ok, get_eq_ok] at hf
  obtain ⟨a, u, ⟨rfl, rfl⟩, hf⟩ := hf
  cases hs : s.stream.supply with
  | given =>
      simp only [hs, set_eq_ok] at hf
      subst hf
      exact h.showTo n
  | lexed blockOpen finished =>
      simp only [hs, bind_eq_ok, set_eq_ok] at hf
      obtain ⟨-, u, rfl, hf⟩ := hf
      rcases hd : s.stream.drawTo n s.feed.last s.feed.queue with ⟨l | ⟨⟩, stream, queue⟩
      · simp only [hd, throw_eq_ok] at hf
      · simp only [hd, pure_eq_ok, true_and] at hf
        subst hf
        exact h.drawTo hd

/-- What a question that is asked at a path comes to. -/
inductive Reply (q : Question) (path : List Nat) (position : List Nat → Nat)
    (reached : List Nat → Prop) (s : Source) : Except Error (Option (Nat × Cell)) → Source → Prop
  | locked {s' : Source} (locked : (q.moves && Walk.isLocked s.stream.locked position path) = true)
      (stands : s'.stream.Stands position reached) :
      Reply q path position reached s (.error (.stream .locked)) s'
  | found {s' : Source} {item : Option TokenTree} {found : Option (Nat × Cell)}
      (unlocked : (q.moves && Walk.isLocked s.stream.locked position path) = false)
      (item_eq : (TokenTree.region path s.line.trees)[position path + q.offset]? = item)
      (found_eq : found.map (fun f => (f.1, s'.treeOf f.2)) =
        item.map fun tree => (position path + q.offset, tree))
      (stands : s'.stream.Stands (Walk.pass q item path position) fun p =>
        reached p ∨ p ∈ Walk.handed path (position path + q.offset) item) :
      Reply q path position reached s (.ok found) s'

theorem position_of_stands (h : s.stream.Stands position reached) :
    s.stream.position = position [] := by
  rw [Cursor.position, h.discarded, h.place, Nat.zero_add]

/-- An item that becomes known ahead can be reached. -/
theorem stands_handed {item : Option TokenTree} (h : s.stream.Stands position reached)
    {c : Option Cell} (hc : s.stream.known[n]? = c) (hitem : item = c.map s.treeOf) :
    s.stream.Stands position fun p => reached p ∨ p ∈ Walk.handed [] n item := by
  subst hitem
  unfold Walk.handed
  cases c with
  | none => simpa using h
  | some c =>
      cases c with
      | leaf t => simpa [treeOf, Cell.tree, TokenTree.isBlock] using h
      | block t x =>
          refine h.reach hc fun p hp => ?_
          simpa [treeOf, Cell.tree, TokenTree.isBlock] using hp

/-- Looking ahead gives the item at that place of the line. -/
theorem reply_peek (h : s.Ready) (hs : s.Whole) (stands : s.stream.Stands position reached)
    (n : Nat) : ∃ r s', (Question.peek n).run s = (r, s') ∧ s.Keeps s' ∧
      s'.stream.place = s.stream.place ∧ Reply (.peek n) [] position reached s r s' := by
  obtain ⟨s', hfill⟩ := fillTo_total h hs n
  obtain ⟨keeps, place, hshows⟩ := fillTo_ok h hfill
  have stands' := stands_fillTo stands hfill
  have hcell : peekCell n s = (.ok s'.stream.ahead[n]?, s') := by
    simp only [peekCell, bind_eq_ok, get_eq_ok, pure_eq_ok]
    exact ⟨⟨⟩, s', hfill, s', s', ⟨rfl, rfl⟩, rfl, rfl⟩
  have hitem : (TokenTree.region [] s.line.trees)[position [] + n]? =
      s'.stream.ahead[n]?.map s'.treeOf := by
    rw [← upcoming_getElem? keeps.ready hshows, keeps.upcoming (position_of_place place), upcoming,
      List.getElem?_drop, stands.place]
    rfl
  have hknown : s'.stream.known[position [] + n]? = s'.stream.ahead[n]? := by
    rw [Stream.known, ← stands'.place, List.getElem?_append_right (by simp)]
    simp
  refine ⟨.ok (s'.stream.ahead[n]?.map (position [] + n, ·)), s', ?_, keeps, place,
    .found rfl hitem ?_ (stands_handed stands' hknown rfl)⟩
  · simp only [Question.run, bind_eq_ok, get_eq_ok, pure_eq_ok]
    exact ⟨_, s', hcell, s', s', ⟨rfl, rfl⟩, by rw [position_of_stands stands'], rfl⟩
  · cases s'.stream.ahead[n]? <;> rfl

theorem checkUnlocked_of_locked (hl : s.stream.locked = true) :
    checkUnlocked s = (.error (.stream .locked), s) := by
  simp only [checkUnlocked, bind_eq_error, get_eq_error, get_eq_ok, false_or]
  refine ⟨s, s, ⟨rfl, rfl⟩, ?_⟩
  rw [if_pos hl]
  exact throw_eq_error.2 ⟨rfl, rfl⟩

/-- Consuming gives the item at the present place of the line, unless the stream
is locked. -/
theorem reply_next (h : s.Ready) (hs : s.Whole) (stands : s.stream.Stands position reached) :
    ∃ r s', Question.next.run s = (r, s') ∧ s.Keeps s' ∧
      (s.stream.locked = true → s'.stream.place = s.stream.place) ∧
      Reply .next [] position reached s r s' := by
  have hposition := position_of_stands stands
  have hrun {r : Except Error (Option Cell)} {s' : Source} (hnext : nextCell s = (r, s')) :
      Question.next.run s = (r.map (Option.map (position [], ·)), s') := by
    rw [Question.run, bind_of_ok (get_eq_ok.2 ⟨rfl, rfl⟩), ← hposition]
    cases r with
    | error e => exact bind_of_error hnext
    | ok c => exact bind_of_ok hnext
  cases hl : s.stream.locked with
  | true =>
      exact ⟨_, s, hrun (bind_of_error (checkUnlocked_of_locked hl)), .refl h, fun _ => rfl,
        .locked hl stands⟩
  | false =>
      have hfree {p : Prop} (hlocked : false = true) : p := absurd hlocked Bool.false_ne_true
      obtain ⟨t, hfill⟩ := fillTo_total h hs 0
      have stands' := stands_fillTo stands hfill
      have hget : (TokenTree.region [] s.line.trees)[position [] + 0]? = s.upcoming[0]? := by
        rw [upcoming, List.getElem?_drop, stands.place]
        rfl
      cases ha : t.stream.ahead with
      | nil =>
          have hnext := nextCell_of_fillTo_nil hl hfill ha
          obtain ⟨keeps, -, hnil⟩ := nextCell_none h hnext
          have hitem : (TokenTree.region [] s.line.trees)[position [] + 0]? = none := by
            rw [hget, hnil, List.getElem?_nil]
          refine ⟨_, _, hrun hnext, keeps, hfree, .found hl hitem rfl ?_⟩
          have hknown : Stream.known t.stream.step.2 = t.stream.known := by
            simp [Cursor.step, Stream.known, ha]
          have hstep : Stream.Stands position reached t.stream.step.2 := by
            refine stands'.of_known ?_ ?_ ?_ hknown
            all_goals simp [Cursor.step, ha]
          simpa [Walk.handed, Walk.pass] using hstep
      | cons c rest =>
          have hnext := nextCell_of_fillTo hl hfill ha
          obtain ⟨keeps, -, hcons, -⟩ := nextCell_some h hnext
          have hitem := hget.trans (congrArg (·[0]?) hcons)
          have hstep : (t.stepOver c rest).stream.Stands (Walk.advance [] position) reached :=
            stands'.stepOver ha rfl fun _ _ => rfl
          have hknown : (t.stepOver c rest).stream.known[position []]? =
              some (c.setLocked false) := by
            rw [← stands'.place]
            simp [stepOver, Stream.known]
          exact ⟨_, _, hrun hnext, keeps, hfree,
            .found hl hitem rfl (stands_handed hstep hknown rfl)⟩

/-- A question at the present level. -/
theorem reply_run (q : Question) (h : s.Ready) (hs : s.Whole)
    (stands : s.stream.Stands position reached) :
    ∃ r s', q.run s = (r, s') ∧ s.Keeps s' ∧
      (s.stream.locked = true → s'.stream.place = s.stream.place) ∧
      Reply q [] position reached s r s' := by
  cases q with
  | peek n =>
      obtain ⟨r, s', hrun, keeps, place, reply⟩ := reply_peek h hs stands n
      exact ⟨r, s', hrun, keeps, fun _ => place, reply⟩
  | next => exact reply_next h hs stands

/-- A question is answered at any path that was reached. The induction is on
the path: what is answered inside a block is answered around it. -/
theorem reply_readAt (q : Question) {path : List Nat} (h : s.Ready) (hs : s.Whole)
    (stands : s.stream.Stands position reached) (hpath : path = [] ∨ reached path) :
    ∃ r s', s.readAt q.run path = some (r, s') ∧ s.Keeps s' ∧
      (s.stream.locked = true → s'.stream.place = s.stream.place) ∧
      Reply q path position reached s r s' := by
  induction path generalizing s position reached with
  | nil =>
      obtain ⟨r, s', hrun, keeps, place, reply⟩ := reply_run q h hs stands
      exact ⟨r, s', congrArg some hrun, keeps, place, reply⟩
  | cons i path ih =>
      have hreach : reached (i :: path) := hpath.resolve_left (List.cons_ne_nil i path)
      obtain ⟨t, x, hk, hlock, hx⟩ := stands.known_of_reached hreach
      obtain ⟨r, u, hread, keeps, place, reply⟩ :=
        ih (ready_within h hk) (whole_within h hs hk) hx (.inr hreach)
      have hkeeps : s.Keeps { stream := s.stream.setKnown i (.block t u.stream), feed := u.feed } :=
        keeps_within h hk keeps fun hi => place (by rw [hlock, ← stands.place, decide_eq_true hi])
      have hlocked : Walk.isLocked s.stream.locked position (i :: path) =
          Walk.isLocked x.locked (fun p => position (i :: p)) path := by
        rw [Walk.isLocked_cons, hlock]
      have hregion : TokenTree.region (i :: path) s.line.trees =
          TokenTree.region path (line { s with stream := x }).trees := by
        rw [TokenTree.region, line_within hk]
      refine ⟨r, _, ?_, hkeeps, fun _ => ?_, ?_⟩
      · simp only [readAt, hk, hread]
      · exact Stream.place_setKnown ..
      · cases reply with
        | locked locked stands' =>
            refine .locked (by rw [hlocked]; exact locked) ?_
            exact stands.setKnown hk keeps.locked stands' rfl fun j _ p => ⟨rfl, id⟩
        | @found _ item found unlocked item_eq found_eq stands' =>
            obtain ⟨hhere, hothers⟩ := Walk.pass_cons q item i path position
            refine .found (by rw [hlocked]; exact unlocked) (by rw [hregion]; exact item_eq)
              found_eq ?_
            refine stands.setKnown hk keeps.locked ?_ hhere fun j hj p => ⟨?_, ?_⟩
            · have hinner : (fun p => Walk.pass q item (i :: path) position (i :: p)) =
                  Walk.pass q item path fun p => position (i :: p) :=
                funext fun p => by rw [hothers, if_pos rfl]
              simpa only [hinner, Walk.mem_handed_cons, true_and] using stands'
            · rw [hothers, if_neg hj]
            · rintro (hp | hp)
              · exact hp
              · exact absurd (Walk.mem_handed_cons.1 hp).1 hj

end Source

namespace Consumer

variable {trees : List TokenTree} {w : Walk} {c : Consumer}

/-- A reader stands at the places of a walk through trees, and reads a stream
that has these trees to give. -/
structure Follows (trees : List TokenTree) (w : Walk) (c : Consumer) : Prop where
  ready : c.source.Ready
  whole : c.source.Whole
  unlocked : c.source.stream.locked = false
  line : c.source.line.trees = trees
  reached : c.reached = w.reached
  stands : c.source.stream.Stands w.position (· ∈ w.reached)

theorem handed_eq {path : List Nat} {place : Nat} {found : Option (Nat × Cell)} {s : Source}
    {item : Option TokenTree}
    (h : found.map (fun f => (f.1, s.treeOf f.2)) = item.map fun tree => (place, tree)) :
    handed path found = Walk.handed path place item := by
  cases item with
  | none =>
      obtain rfl : found = none := by simpa using h
      rfl
  | some tree =>
      obtain ⟨⟨n, cell⟩, rfl, hf⟩ := Option.map_eq_some_iff.1 h
      obtain ⟨rfl, rfl⟩ := Prod.mk.inj hf
      cases cell <;> rfl

/-- A question is answered as by the walk, which the reader still follows. -/
theorem Follows.ask (h : c.Follows trees w) (path : List Nat) (q : Question) :
    (c.ask path q).1 = (w.ask trees path q).1 ∧
      (c.ask path q).2.Follows trees (w.ask trees path q).2 := by
  rw [Consumer.ask, Walk.ask, h.reached]
  by_cases hpath : path ∈ w.reached
  · rw [if_pos hpath, if_pos hpath]
    obtain ⟨r, s', hread, keeps, -, reply⟩ :=
      Source.reply_readAt q h.ready h.whole h.stands (.inr hpath)
    rw [hread]
    have hline := (congrArg Span.trees keeps.line).trans h.line
    cases reply with
    | locked locked stands =>
        rw [h.unlocked] at locked
        rw [if_pos locked]
        exact ⟨rfl, keeps.ready, keeps.whole h.whole, keeps.locked.trans h.unlocked, hline, rfl,
          stands⟩
    | @found _ item found unlocked item_eq found_eq stands =>
        rw [h.unlocked] at unlocked
        rw [h.line] at item_eq
        rw [if_neg (by simp [unlocked])]
        dsimp only
        rw [item_eq, handed_eq found_eq]
        refine ⟨?_, keeps.ready, keeps.whole h.whole, keeps.locked.trans h.unlocked, hline, rfl,
          ?_⟩
        · have htokens := congrArg (Option.map fun f => f.2.token) found_eq
          simpa [Option.map_map, Function.comp_def, Source.token_treeOf] using htokens
        · simpa only [List.mem_append] using stands
  · rw [if_neg hpath, if_neg hpath]
    exact ⟨rfl, h⟩

/-- Any number of questions is answered as by the walk. -/
theorem Follows.trace (h : c.Follows trees w) (questions : List (List Nat × Question)) :
    c.trace questions = w.trace trees questions := by
  induction questions generalizing c w with
  | nil => rfl
  | cons question rest ih =>
      obtain ⟨hanswer, hfollows⟩ := h.ask question.1 question.2
      exact congrArg₂ List.cons hanswer (ih hfollows)

end Consumer

end DualSql
