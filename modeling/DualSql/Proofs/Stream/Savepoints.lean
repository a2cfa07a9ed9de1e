import DualSql.Proofs.Stream.Handles

/-! # Fresh savepoints

A savepoint is the position that a stream is at, and can be returned to as long
as the item before it is retained. A commit retains that item, and so does a
return of the stream itself; a return of a stream around it gives back all items
of the block, those that were let go of excepted.

Main definition: `Cursor.Anchored`. Main results: `Holder.restore_savepoint`,
for every unlocked stream, and its counterpart `Holder.rewound_not_restorable`. -/

namespace DualSql

namespace Cursor

variable {α : Type} {c : Cursor α} {index : Nat}

/-- The item before the position is retained, if there were items before it. -/
def Anchored (c : Cursor α) : Prop :=
  c.discarded = 0 ∨ c.behind ≠ []

instance : Decidable c.Anchored :=
  inferInstanceAs (Decidable (_ ∨ c.behind ≠ []))

theorem anchored_iff : c.Anchored ↔ c.discarded = 0 ∨ 0 < c.behind.length := by
  rw [Anchored, List.length_pos_iff]

theorem canReturnTo_iff : c.canReturnTo index = true ↔
    (c.discarded = 0 ∨ c.discarded < index) ∧ index ≤ c.discarded + c.behind.length := by
  have hleast : c.leastPosition ≤ index ↔ c.discarded = 0 ∨ c.discarded < index := by
    rw [leastPosition]
    split <;> omega
  rw [canReturnTo, Bool.and_eq_true, decide_eq_true_eq, decide_eq_true_eq, hleast, position]

/-- The present position is one to return to, if the item before it is retained. -/
theorem canReturnTo_position : c.canReturnTo c.position = true ↔ c.Anchored := by
  rw [canReturnTo_iff, anchored_iff, position]
  omega

/-- A return retains the item before the position that it returns to. -/
theorem anchored_backUp (undo : α → α) (h : c.canReturnTo index = true) :
    (c.backUp undo index).Anchored := by
  rw [canReturnTo_iff] at h
  rw [anchored_iff]
  simp only [backUp, position, List.length_drop]
  omega

/-- A commit retains the item before the position. -/
theorem anchored_release (h : c.canReturnTo index = true) : (c.release index).Anchored := by
  rw [canReturnTo_iff] at h
  rw [anchored_iff]
  simp only [Cursor.release, List.length_take]
  omega

theorem leastPosition_of_not_anchored (h : ¬c.Anchored) : c.leastPosition = c.position + 1 := by
  rw [anchored_iff] at h
  rw [leastPosition, if_neg (by omega), position]
  omega

/-- The cursor with a savepoint at its position. -/
def marked (c : Cursor α) : Cursor α :=
  { c with anchor := c.anchor.or (some c.position) }

/-- The cursor after a return to its position, if that succeeds. -/
def settled (c : Cursor α) : Cursor α :=
  { c with hasCurrent := if c.Anchored then !c.behind.isEmpty else c.hasCurrent }

/-- A return to the present position gives nothing back. -/
theorem backUp_position (undo : α → α) (h : c.Anchored) :
    c.backUp undo c.position = c.settled := by
  simp [backUp, settled, h]

theorem settled_of_not_anchored (h : ¬c.Anchored) : c.settled = c := by
  simp [settled, h]

end Cursor

namespace Stream

variable {s t : Stream} {i : Nat} {x y : Stream}

theorem Anchored.of_place (h : t.place = s.place) (hs : s.Anchored) : t.Anchored := by
  have hbehind : t.behind.length = s.behind.length := congrArg Place.consumed h
  have hdiscarded : t.discarded = s.discarded := congrArg Place.discarded h
  rw [Cursor.anchored_iff] at hs ⊢
  omega

theorem place_setContents (x : Stream) : (s.setContents i x).place = s.place := by
  unfold setContents
  split
  · exact place_setKnown ..
  · rfl

theorem contents?_setContents (h : s.contents? i = some x) :
    (s.setContents i y).contents? i = some y := by
  obtain ⟨t, hk⟩ := contents?_eq_some.1 h
  have hi := (List.getElem?_eq_some_iff.1 hk).1
  refine contents?_eq_some.2 ⟨t, ?_⟩
  simp only [setContents, hk, Cell.mapContents, known_setKnown]
  exact List.getElem?_set_self hi

end Stream

namespace Source

variable {s t : Source} {index : Nat}

/-- What the requests of a stream do to it retains the item before its position. -/
theorem Move.anchored (h : Move s t) (hs : s.stream.Anchored) : t.stream.Anchored := by
  cases h with
  | fill n =>
      exact Stream.Anchored.of_place
        (lasting_fillTo (Stream.lasting_place s.stream.place) n rfl) hs
  | @consume c rest => exact .inr (List.cons_ne_nil _ _)
  | finish | mark => exact hs
  | giveBack _ hreach => exact Cursor.anchored_backUp _ hreach

theorem anchored_of_moves (h : Relation.ReflTransGen Move s t) (hs : s.stream.Anchored) :
    t.stream.Anchored := by
  induction h with
  | refl => exact hs
  | tail _ hmove ih => exact hmove.anchored ih

end Source

namespace Request

open Fallible Source

variable {s : Source} {index : Nat}

theorem anchored_run (r : Request) (h : s.stream.Anchored) : (r.run s).2.stream.Anchored := by
  rcases r.run_cases s with hmoves | ⟨index, -, hreach, heq⟩
  · exact anchored_of_moves hmoves h
  · rw [heq]
    exact Cursor.anchored_release hreach

theorem run_savepoint (hl : s.stream.locked = false) :
    Request.savepoint.run s =
      (.ok (.index s.stream.position), { s with stream := s.stream.marked }) := by
  have hmark : Source.savepoint s =
      (.ok s.stream.position, { s with stream := s.stream.marked }) := by
    rw [Source.savepoint, bind_of_unlocked hl]
    rfl
  rw [run, bind_of_ok hmark]
  rfl

theorem run_restore (hl : s.stream.locked = false) (index : Nat) :
    (Request.restore index).run s =
      if s.stream.canReturnTo index then
        (.ok .done, { s with stream := s.stream.backUp Cell.rewound index })
      else
        (.error (.stream (.invalidSavepoint index s.stream.leastPosition s.stream.position)),
          s) := by
  rw [run, bind_apply, Source.restore, bind_of_unlocked hl, bind_apply, checkIndex_eq]
  cases s.stream.canReturnTo index <;> rfl

end Request

namespace Holder

variable {h : Holder} {s x y : Stream} {i : Nat} {path : List Nat}

/-- What is kept of a block says nothing about the streams around it. -/
theorem stream?_congr_gone {gone : List Nat → Option Stream}
    (hgone : ∀ place, place <:+ path → gone place = h.gone place) :
    ({ h with gone } : Holder).stream? path = h.stream? path := by
  induction path with
  | nil => rfl
  | cons i path ih =>
      simp only [stream?, ih fun place hplace => hgone place (hplace.trans (List.suffix_cons ..)),
        hgone (i :: path) (List.suffix_refl _)]

/-- A stream that was put back is there. -/
theorem stream?_setStream (hx : h.stream? path = some x) :
    (h.setStream path y).stream? path = some y := by
  induction path generalizing x y with
  | nil => rfl
  | cons i path ih =>
      obtain ⟨s, ho, hx⟩ := Option.bind_eq_some_iff.1 hx
      simp only [setStream, ho]
      split at hx
      next hlt =>
        rw [if_pos hlt]
        have hother (place : List Nat) (hplace : place <:+ path) :
            Function.update h.gone (i :: path) (some y) place = h.gone place := by
          refine Function.update_of_ne (fun heq => ?_) ..
          have hlength := hplace.length_le
          rw [heq, List.length_cons] at hlength
          omega
        simp only [stream?, stream?_congr_gone hother, ho, Option.bind_some, if_pos hlt,
          Function.update_self]
      next hge =>
        rw [if_neg hge]
        have hdiscarded : (s.setContents (i - s.discarded) y).discarded = s.discarded :=
          congrArg Place.discarded (Stream.place_setContents y)
        simp only [stream?, ih ho, Option.bind_some, hdiscarded, if_neg hge]
        exact Stream.contents?_setContents hx

/-- The outermost stream stands where it stood when a block in it is put back. -/
theorem place_setStream (hne : path ≠ []) (y : Stream) :
    (h.setStream path y).source.stream.place = h.source.stream.place := by
  induction path generalizing y with
  | nil => exact absurd rfl hne
  | cons i path ih =>
      simp only [setStream]
      cases ho : h.stream? path with
      | none => rfl
      | some s =>
          simp only
          split
          · rfl
          · by_cases hpath : path = []
            · subst hpath
              obtain rfl : h.source.stream = s := Option.some.inj ho
              exact Stream.place_setContents y
            · exact ih hpath _

theorem anchored_request (ha : h.source.stream.Anchored) (r : List Nat × Request) :
    (h.request r.1 r.2).2.source.stream.Anchored := by
  obtain ⟨path, r⟩ := r
  unfold request
  cases ho : h.stream? path with
  | none => exact ha
  | some s =>
      by_cases hpath : path = []
      · subst hpath
        obtain rfl : h.source.stream = s := Option.some.inj ho
        exact r.anchored_run ha
      · exact Stream.Anchored.of_place (place_setStream hpath _) ha

/-- The outermost stream retains the item before its position, whatever was asked. -/
theorem anchored_after (origin : Origin) (requests : List (List Nat × Request)) :
    ((start origin).after requests).source.stream.Anchored := by
  have hall (h : Holder) (ha : h.source.stream.Anchored) :
      (h.after requests).source.stream.Anchored := by
    induction requests generalizing h with
    | nil => exact ha
    | cons r rest ih => exact ih _ (anchored_request ha r)
  refine hall _ (.inl ?_)
  cases origin <;> rfl

@[simp] theorem feed_setStream (y : Stream) : (h.setStream path y).source.feed = h.source.feed := by
  induction path generalizing y with
  | nil => rfl
  | cons i path ih =>
      simp only [setStream]
      cases ho : h.stream? path with
      | none => rfl
      | some s =>
          simp only
          split
          · rfl
          · exact ih _

/-- A request that lets go of nothing replaces the stream that it is made to. -/
theorem request_of_run {r : Request} {reply : Except Error Reply} (hs : h.stream? path = some s)
    (hrun : r.run { h.source with stream := s } = (reply, { h.source with stream := x }))
    (hdiscarded : x.discarded = s.discarded) :
    h.request path r = (some reply, h.setStream path x) := by
  simp only [request, hs, hrun, keep_of_discarded hdiscarded]
  rw [← feed_setStream x]

theorem request_savepoint (hs : h.stream? path = some s) (hunlocked : s.locked = false) :
    h.request path .savepoint = (some (.ok (.index s.position)), h.setStream path s.marked) :=
  request_of_run hs (Request.run_savepoint hunlocked) rfl

/-- A return to the present position. -/
theorem request_restore_position (hs : h.stream? path = some s) (hunlocked : s.locked = false) :
    h.request path (.restore s.position) =
      (some (if s.Anchored then .ok .done
        else .error (.stream (.invalidSavepoint s.position (s.position + 1) s.position))),
        h.setStream path s.settled) := by
  have hrun := Request.run_restore (s := { h.source with stream := s }) hunlocked s.position
  by_cases hanchored : s.Anchored
  · rw [if_pos (Cursor.canReturnTo_position.2 hanchored)] at hrun
    rw [if_pos hanchored, ← Cursor.backUp_position Cell.rewound hanchored]
    exact request_of_run hs hrun rfl
  · rw [if_neg (fun hreach => hanchored (Cursor.canReturnTo_position.1 hreach)),
      Cursor.leastPosition_of_not_anchored hanchored] at hrun
    rw [if_neg hanchored, Cursor.settled_of_not_anchored hanchored]
    exact request_of_run hs hrun rfl

/-- Whatever was asked of whichever streams: an unlocked stream answers a request
for a savepoint with its position. The return to it succeeds if and only if the
stream has the item before its position or has let go of none, which the
outermost stream always does. The stream has the same items before its position
and after it as before, and nothing was read for that. -/
theorem restore_savepoint (origin : Origin) (requests : List (List Nat × Request))
    (path : List Nat) (s : Stream) (hs : ((start origin).after requests).stream? path = some s)
    (hunlocked : s.locked = false) :
    let h := (start origin).after requests
    let marked := h.request path .savepoint
    let restored := marked.2.request path (.restore s.position)
    marked.1 = some (.ok (.index s.position)) ∧
    restored.1 = some (if s.Anchored then .ok .done
      else .error (.stream (.invalidSavepoint s.position (s.position + 1) s.position))) ∧
    (path = [] → s.Anchored) ∧
    restored.2.source.feed = h.source.feed ∧
    restored.2.stream? path = some { s with
      anchor := s.anchor.or (some s.position)
      hasCurrent := if s.Anchored then !s.behind.isEmpty else s.hasCurrent } := by
  intro h marked restored
  have hmarked : marked = (some (.ok (.index s.position)), h.setStream path s.marked) :=
    request_savepoint hs hunlocked
  have hstream : marked.2.stream? path = some s.marked := by
    rw [hmarked]
    exact stream?_setStream hs
  have hrestored : restored = (_, marked.2.setStream path s.marked.settled) :=
    request_restore_position hstream hunlocked
  refine ⟨by rw [hmarked], congrArg Prod.fst hrestored, ?_, ?_, ?_⟩
  · rintro rfl
    exact Option.some.inj hs ▸ anchored_after origin requests
  · rw [hrestored, feed_setStream, hmarked, feed_setStream]
  · rw [hrestored]
    exact stream?_setStream hstream

/-- A block with three words in it. -/
def phrase : List TokenTree :=
  let opening : Token := { kind := .punctuation, value := "(", position := .start }
  [.block opening [Source.word "a", Source.word "b", Source.word "c"]]

/-- A block that let go of a word has the item before its position, as long as
it is not given back. -/
theorem restore_savepoint_phrase :
    let h := (start (.trees phrase)).after [([], .next), ([0], .next), ([0], .next),
      ([0], .savepoint), ([0], .commit 2)]
    ∃ s, h.stream? [0] = some s ∧ s.discarded = 1 ∧
      (h.request [0] .savepoint).1 = some (.ok (.index 2)) ∧
      ((h.request [0] .savepoint).2.request [0] (.restore 2)).1 = some (.ok .done) := by
  intro h
  obtain ⟨s, hs⟩ := Option.isSome_iff_exists.1 (by decide : (h.stream? [0]).isSome)
  have hfacts : (h.stream? [0]).map (fun s => (s.locked, s.discarded, s.position, s.behind.length)) =
      some (false, 1, 2, 1) := by decide
  simp only [hs, Option.map_some, Option.some.injEq, Prod.mk.injEq] at hfacts
  obtain ⟨hunlocked, hdiscarded, hposition, hlength⟩ := hfacts
  have hanchored : s.Anchored := Cursor.anchored_iff.2 (.inr (by omega))
  have hrestored := restore_savepoint _ _ [0] s hs hunlocked
  simp only [hposition, if_pos hanchored] at hrestored
  exact ⟨s, hs, hdiscarded, hrestored.1, hrestored.2.1⟩

/-- A block that let go of a word and was then given back has no item before its
position when it is entered again, and cannot return to that position. -/
theorem rewound_not_restorable :
    let h := (start (.trees phrase)).after [([], .next), ([0], .next), ([0], .next),
      ([0], .savepoint), ([0], .commit 2), ([], .restore 0), ([], .next)]
    (h.stream? [0]).map Cursor.locked = some false ∧
      (h.request [0] .savepoint).1 = some (.ok (.index 1)) ∧
      ((h.request [0] .savepoint).2.request [0] (.restore 1)).1 =
        some (.error (.stream (.invalidSavepoint 1 2 1))) := by
  decide +kernel

end Holder

end DualSql
