import DualSql.Proofs.Stream.Reading
import DualSql.Stream.TokenTree

/-! # Streams that a reader can come to

A reader looks ahead, consumes, goes back, enters the block that was consumed
last and leaves it again. Unless the lexing run fails under it, every stream
that it comes to is in good order.

Main definitions: `Source.Reads`, `Source.Reached`. Main result:
`Source.Reached.ready`. -/

namespace DualSql

namespace Source

open Fallible

/-- What a reader can ask of a stream, other than to give up positions. -/
inductive Call where
  | peek (n : Nat)
  | next
  | savepoint
  | restore (index : Nat)

/-- What a call does to the source. -/
def Call.run : Call → Reading Unit
  | peek n => do let _ ← Source.peek n
  | next => do let _ ← Source.next
  | savepoint => do let _ ← Source.savepoint
  | restore index => Source.restore index

/-- The second source is the first one after some calls, on the stream itself
or inside a block that was consumed, in which the run did not fail. -/
inductive Reads : Source → Source → Prop
  | refl (s : Source) : Reads s s
  | call {s t u : Source} {c : Call} {r : Except Error Unit} (first : Reads s t)
      (run : c.run t = (r, u)) (lexes : ∀ e, r ≠ .error (.lex e)) : Reads s u
  | inside {s t : Source} {token : Token} {x y : Stream} {rest : List Cell} {feed : Feed}
      (first : Reads s t) (behind : t.stream.behind = .block token x :: rest)
      (within : Reads { t with stream := x } { stream := y, feed }) :
      Reads s { stream := { t.stream with behind := .block token y :: rest }, feed }

/-- A source that a reader can come to, the run not failing on the way. -/
inductive Reached : Source → Prop
  | chunks (d : Dialect) (options : LexOptions) (chunks : List String) :
      Reached (.ofChunks d options chunks)
  | trees (trees : List TokenTree) : Reached { stream := .ofCells (TokenTree.toCells trees) }
  | reads {s s' : Source} (first : Reached s) (reads : Reads s s') : Reached s'
  | commit {s s' : Source} {index : Nat} (first : Reached s)
      (run : Source.commit index s = (.ok (), s')) : Reached s'
  | enter {s : Source} {t : Token} {x : Stream} {rest : List Cell} (first : Reached s)
      (behind : s.stream.behind = .block t x :: rest) : Reached { s with stream := x }

variable {s s' : Source}

/-! ### How streams begin -/

theorem ready_ofChunks (d : Dialect) (options : LexOptions) (chunks : List String) :
    (ofChunks d options chunks).Ready := by
  refine ⟨.closed ⟨fun _ => rfl, ?_⟩ rfl ?_, ⟨nofun, nofun, nofun⟩⟩
  · intro hd
    simp [ofChunks, Stream.lexing] at hd
  · simp [ofChunks, Stream.lexing, Stream.known]

theorem consistent_ofCells (cells : List Cell) : (Stream.ofCells cells).Consistent where
  lexed := fun h => absurd rfl h
  done := fun h => by simp [Stream.ofCells] at h

mutual

/-- A tree that is given in advance is complete, and waits to be consumed. -/
theorem settled_toCell : (t : TokenTree) → t.toCell.Settled ∧ t.toCell.Kept false
  | .leaf t => ⟨.leaf t, .leaf false t⟩
  | .block t contents => by
      have hcells := settled_toCells contents
      constructor
      · refine .block t (consistent_ofCells _) rfl fun c hc => (hcells c ?_).1
        simpa [Stream.known, Stream.ofCells] using hc
      · refine Cell.kept_block_iff.2 ⟨fun _ => rfl, nofun, nofun, fun c hc => (hcells c ?_).2⟩
        simpa [Stream.ofCells] using hc

theorem settled_toCells : (ts : List TokenTree) →
    ∀ c ∈ TokenTree.toCells ts, c.Settled ∧ c.Kept false
  | [] => nofun
  | t :: ts => by
      intro c hc
      rcases List.mem_cons.1 hc with rfl | hc
      · exact settled_toCell t
      · exact settled_toCells ts c hc

end

theorem ready_ofCells (trees : List TokenTree) :
    Ready { stream := .ofCells (TokenTree.toCells trees) } := by
  have hcells := settled_toCells trees
  refine ⟨.closed (consistent_ofCells _) rfl ?_, ⟨nofun, nofun, fun c hc => (hcells c hc).2⟩⟩
  intro c hc
  exact (hcells c (by simpa [Stream.known, Stream.ofCells] using hc)).1

/-! ### Calls -/

theorem fillTo_error {n : Nat} {e : Error} (h : fillTo n s = (.error e, s')) :
    ∃ l, e = .lex l := by
  simp only [fillTo, bind_eq_error, get_eq_error, get_eq_ok, false_or] at h
  obtain ⟨a, t, ⟨rfl, rfl⟩, h⟩ := h
  cases hs : s.stream.supply with
  | given => simp only [hs, set_eq_error] at h
  | lexed blockOpen finished =>
      simp only [hs, bind_eq_error, set_eq_error, false_or] at h
      obtain ⟨-, t, -, h⟩ := h
      rcases hd : s.stream.drawTo n s.feed.last s.feed.queue with ⟨l | ⟨⟩, stream, queue⟩
      · simp only [hd, throw_eq_error] at h
        exact ⟨l, h.1.symm⟩
      · simp only [hd, pure_eq_error] at h

theorem peek_error {n : Nat} {e : Error} (h : peek n s = (.error e, s')) : ∃ l, e = .lex l := by
  simp only [peek, peekCell, bind_eq_error, get_eq_error, pure_eq_error, and_false, exists_false,
    or_false] at h
  exact fillTo_error h

theorem checkUnlocked_error {e : Error} (h : checkUnlocked s = (.error e, s')) : s = s' := by
  simp only [checkUnlocked, bind_eq_error, get_eq_error, get_eq_ok, false_or] at h
  obtain ⟨a, t, ⟨rfl, rfl⟩, h⟩ := h
  split at h
  · exact (throw_eq_error.1 h).2
  · simp only [pure_eq_error] at h

theorem checkIndex_error {index : Nat} {e : Error} (h : checkIndex index s = (.error e, s')) :
    s = s' := by
  simp only [checkIndex, bind_eq_error, get_eq_error, get_eq_ok, false_or] at h
  obtain ⟨a, t, ⟨rfl, rfl⟩, h⟩ := h
  split at h
  · exact (throw_eq_error.1 h).2
  · simp only [pure_eq_error] at h

theorem nextCell_error {e : Error} (h : nextCell s = (.error e, s')) :
    (∃ l, e = .lex l) ∨ s = s' := by
  simp only [nextCell, bind_eq_error, get_eq_error, set_eq_error, pure_eq_error, and_false,
    exists_false, or_false] at h
  obtain h | ⟨-, t, hu, h⟩ := h
  · exact .inr (checkUnlocked_error h)
  · exact .inl (fillTo_error h)

/-- A call that fails for another reason than the run changes nothing. -/
theorem call_error {c : Call} {e : Error} (h : c.run s = (.error e, s')) :
    (∃ l, e = .lex l) ∨ s = s' := by
  cases c with
  | peek n =>
      simp only [Call.run, bind_eq_error, pure_eq_error, and_false, exists_false, or_false] at h
      exact .inl (peek_error h)
  | next =>
      simp only [Call.run, next, bind_eq_error, pure_eq_error, and_false, exists_false,
        or_false] at h
      exact nextCell_error h
  | savepoint =>
      simp only [Call.run, savepoint, bind_eq_error, modify_eq_error, get_eq_error, pure_eq_error,
        and_false, exists_false, or_false] at h
      exact .inr (checkUnlocked_error h)
  | restore index =>
      simp only [Call.run, restore, bind_eq_error, modify_eq_error, and_false, exists_false,
        or_false] at h
      obtain h | ⟨⟨⟩, t, hu, h⟩ := h
      · exact .inr (checkUnlocked_error h)
      · exact .inr ((checkUnlocked_ok hu).1.trans (checkIndex_error h))

theorem call_ok {c : Call} (h : s.Ready) (hc : c.run s = (.ok (), s')) : s.Keeps s' := by
  cases c with
  | peek n =>
      simp only [Call.run, bind_eq_ok, pure_eq_ok, true_and] at hc
      obtain ⟨t, _, hp, rfl⟩ := hc
      exact (peek_ok h hp).1
  | next =>
      simp only [Call.run, bind_eq_ok, pure_eq_ok, true_and] at hc
      obtain ⟨t, _, hn, rfl⟩ := hc
      exact (next_ok h hn).1
  | savepoint =>
      simp only [Call.run, bind_eq_ok, pure_eq_ok, true_and] at hc
      obtain ⟨t, _, hs, rfl⟩ := hc
      exact (savepoint_ok h hs).1
  | restore index => exact (restore_ok h hc).1

/-- Reading moves along the line of the stream. -/
theorem Reads.keeps (hr : Reads s s') (h : s.Ready) : s.Keeps s' := by
  induction hr with
  | refl s => exact .refl h
  | @call s t u c r first run lexes ih =>
      have keeps := ih h
      cases r with
      | ok a => exact keeps.trans (call_ok keeps.ready run)
      | error e =>
          obtain ⟨l, rfl⟩ | rfl := call_error run
          · exact absurd rfl (lexes l)
          · exact keeps
  | inside first behind within ih ihWithin =>
      have keeps := ih h
      exact keeps.trans (keeps_inside keeps.ready behind (ihWithin (ready_contents keeps.ready behind)))

/-! ### Giving up positions -/

theorem known_release {x : Stream} {index : Nat} (h : x.canReturnTo index = true) :
    Stream.known (x.release index) = x.known.drop (index - x.discarded - 1) := by
  obtain ⟨-, hmost⟩ := bounds_of_canReturnTo h
  simp only [Cursor.position] at hmost
  simp only [Stream.known, Cursor.release]
  rw [List.drop_append_of_le_length (by simp; omega), List.drop_reverse]

/-- The latest item is not let go. -/
theorem getLast?_known_release {x : Stream} {index : Nat} (h : x.canReturnTo index = true) :
    (Stream.known (x.release index)).getLast? = x.known.getLast? := by
  obtain ⟨-, hmost⟩ := bounds_of_canReturnTo h
  simp only [Cursor.position] at hmost
  rw [known_release h]
  cases hb : x.behind with
  | nil =>
      rw [hb, List.length_nil] at hmost
      rw [show index - x.discarded - 1 = 0 by omega, List.drop_zero]
  | cons c rest =>
      rw [hb, List.length_cons] at hmost
      rw [List.getLast?_drop, if_neg]
      simp only [Stream.known, hb, List.length_append, List.length_reverse, List.length_cons]
      omega

theorem ready_release {index : Nat} (h : s.Ready) (hi : s.stream.canReturnTo index = true) :
    Ready { s with stream := s.stream.release index } := by
  have hopen (t : Token) (x : Stream) : Stream.openBlock? (s.stream.release index) = some (t, x) ↔
      s.stream.openBlock? = some (t, x) := by
    rw [Stream.openBlock?_eq_some, Stream.openBlock?_eq_some, getLast?_known_release hi]
    rfl
  have hsub (c : Cell) : c ∈ Stream.known (s.stream.release index) → c ∈ s.stream.known := by
    rw [known_release hi]
    exact List.mem_of_mem_drop
  refine ⟨?_, fun c hc => h.orderly.behind c (List.mem_of_mem_take hc), h.orderly.ahead,
    h.orderly.unseen⟩
  cases h.tidy with
  | closed consistent none cells =>
      refine .closed ⟨consistent.lexed, consistent.done⟩ ?_ fun c hc => cells c ?_
      · cases ho : Stream.openBlock? (s.stream.release index) with
        | none => rfl
        | some b =>
            rw [(hopen b.1 b.2).1 ho] at none
            cases none
      · rcases List.mem_append.1 hc with hc | hc
        · exact List.mem_append_left _ (hsub c hc)
        · exact List.mem_append_right _ hc
  | opened consistent some lexed tidy cells =>
      refine .opened ⟨consistent.lexed, consistent.done⟩ ((hopen _ _).2 some) lexed tidy
        fun c hc => cells c ?_
      rw [known_release hi, List.dropLast_eq_take, List.length_drop, List.take_drop] at hc
      have hc := List.mem_of_mem_drop hc
      have hmost := (bounds_of_canReturnTo hi).2
      have hlength : s.stream.known.length = s.stream.behind.length + s.stream.ahead.length := by
        simp [Stream.known]
      rw [Cursor.position] at hmost
      rw [List.dropLast_eq_take]
      exact List.take_subset_take_left _ (by omega) hc

theorem commit_ok {index : Nat} (h : s.Ready) (hc : commit index s = (.ok (), s')) : s'.Ready := by
  simp only [commit, bind_eq_ok, modify_eq_ok] at hc
  obtain ⟨⟨⟩, t, hu, ⟨⟩, t', hi, rfl⟩ := hc
  obtain ⟨rfl, -⟩ := checkUnlocked_ok hu
  obtain ⟨rfl, hreturn⟩ := checkIndex_ok hi
  split
  · exact ready_release h hreturn
  · exact h

/-- Every source that a reader can come to is in good order. -/
theorem Reached.ready (h : s.Reached) : s.Ready := by
  induction h with
  | chunks d options chunks => exact ready_ofChunks d options chunks
  | trees trees => exact ready_ofCells trees
  | reads _ reads ih => exact (reads.keeps ih).ready
  | commit _ run ih => exact commit_ok ih run
  | enter _ behind ih => exact ready_contents ih behind

end Source

end DualSql
