import Mathlib.Logic.Function.Basic
import DualSql.Proofs.Stream.Latches

/-! # Streams that a reader keeps hold of

A reader has the outermost stream, and the stream of every block that it was
given, whether the block was consumed, is only ahead, was given back or was let
go of. It may ask anything of any of them at any time, and all of them draw from
one lexing run. A block is told by its place in the stream around it, counted
from the start, and by the places of the blocks around that one.

Main definitions: `Holder`, `Holder.stream?` and `Holder.request`. Main result:
`Holder.unlocked_iff_passed`. -/

namespace DualSql

namespace Stream

variable {s x y : Stream} {i : Nat}

/-- The contents of a known block. -/
def contents? (s : Stream) (i : Nat) : Option Stream :=
  s.known[i]?.bind Cell.contents?

/-- Replaces the contents of a known block. -/
def setContents (s : Stream) (i : Nat) (x : Stream) : Stream :=
  match s.known[i]? with
  | some c => s.setKnown i (c.mapContents fun _ => x)
  | none => s

theorem contents?_eq_some : s.contents? i = some x ↔ ∃ t, s.known[i]? = some (.block t x) := by
  rw [contents?, Option.bind_eq_some_iff]
  constructor
  · rintro ⟨c, hc, hx⟩
    cases c with
    | leaf t => cases hx
    | block t y =>
        obtain rfl : y = x := Option.some.inj hx
        exact ⟨t, hc⟩
  · rintro ⟨t, hc⟩
    exact ⟨_, hc, rfl⟩

theorem mem_behind_of_known {c : Cell} (hk : s.known[i]? = some c) (hi : i < s.behind.length) :
    c ∈ s.behind := by
  rw [known, List.getElem?_append_left (by simpa using hi)] at hk
  exact List.mem_reverse.1 (List.mem_of_getElem? hk)

theorem mem_ahead_of_known {c : Cell} (hk : s.known[i]? = some c) (hi : s.behind.length ≤ i) :
    c ∈ s.ahead := by
  rw [known, List.getElem?_append_right (by simpa using hi)] at hk
  exact List.mem_of_getElem? hk

theorem setContents_self (h : s.contents? i = some x) : s.setContents i x = s := by
  obtain ⟨t, hk⟩ := contents?_eq_some.1 h
  obtain ⟨hlt, hget⟩ := List.getElem?_eq_some_iff.1 hk
  have hset : s.known.set i (.block t x) = s.known := by
    rw [← hget]
    exact List.set_getElem_self hlt
  simp only [setContents, hk, Cell.mapContents, setKnown, hset]
  simp [known]

theorem Shut.behind_length (h : s.Shut) : s.behind.length = 0 := by
  rw [h.start, List.length_nil]

/-- Consumed blocks may be read from. -/
theorem Opened.passed (h : s.Opened) (hx : s.contents? i = some x) (hi : i < s.behind.length) :
    x.Opened := by
  obtain ⟨t, hk⟩ := contents?_eq_some.1 hx
  exact Cell.entered_block_iff.1 (h.latched.behind _ (mem_behind_of_known hk hi))

/-- Blocks ahead wait. -/
theorem shut_of_ahead (h : ∀ c ∈ s.ahead, c.Waits) (hx : s.contents? i = some x)
    (hi : s.behind.length ≤ i) : x.Shut := by
  obtain ⟨t, hk⟩ := contents?_eq_some.1 hx
  exact Cell.waits_block_iff.1 (h _ (mem_ahead_of_known hk hi))

/-- The second stream can be put where the first one is. -/
structure Follows (x y : Stream) : Prop where
  opened : x.Opened → y.Opened
  shut : x.Shut → y.Shut

theorem ahead_setContents (h : ∀ c ∈ s.ahead, c.Waits) (hx : s.contents? i = some x)
    (hfollows : x.Follows y) : ∀ c ∈ (s.setContents i y).ahead, c.Waits := by
  obtain ⟨t, hk⟩ := contents?_eq_some.1 hx
  simp only [setContents, hk, Cell.mapContents]
  intro c hc
  rcases mem_ahead_setKnown hc with hc | ⟨rfl, hi⟩
  · exact h c hc
  · exact Cell.waits_block_iff.2 (hfollows.shut (shut_of_ahead h hx hi))

theorem Opened.setContents (h : s.Opened) (hx : s.contents? i = some x)
    (hfollows : x.Follows y) : (s.setContents i y).Opened := by
  have hahead := ahead_setContents h.latched.ahead hx hfollows
  obtain ⟨t, hk⟩ := contents?_eq_some.1 hx
  simp only [Stream.setContents, hk, Cell.mapContents] at hahead ⊢
  refine ⟨h.unlocked, fun c hc => ?_, hahead, h.latched.unseen⟩
  rcases mem_behind_setKnown hc with hc | ⟨rfl, hi⟩
  · exact h.latched.behind c hc
  · exact Cell.entered_block_iff.2 (hfollows.opened (h.passed hx hi))

theorem Shut.setContents (h : s.Shut) (hx : s.contents? i = some x)
    (hfollows : x.Follows y) : (s.setContents i y).Shut := by
  have hahead := ahead_setContents h.orderly.ahead hx hfollows
  obtain ⟨t, hk⟩ := contents?_eq_some.1 hx
  simp only [Stream.setContents, hk, Cell.mapContents] at hahead ⊢
  have hlength := length_behind_setKnown i (.block t y) s
  rw [h.behind_length] at hlength
  have hstart := List.length_eq_zero_iff.1 hlength
  refine ⟨h.locked, hstart, fun c hc => ?_, hahead, h.orderly.unseen⟩
  rw [hstart] at hc
  cases hc

theorem follows_setContents (hx : s.contents? i = some x) (hfollows : x.Follows y) :
    s.Follows (s.setContents i y) :=
  ⟨fun h => h.setContents hx hfollows, fun h => h.setContents hx hfollows⟩

end Stream

/-- The outermost stream, and those of the blocks that were let go of, by the
places of the block and of those around it, innermost first. -/
structure Holder where
  source : Source
  gone : List Nat → Option Stream := fun _ => none

namespace Holder

variable {h : Holder} {s x y : Stream} {i : Nat} {path : List Nat}

/-- The stream of a block that the reader was given. -/
def stream? (h : Holder) : List Nat → Option Stream
  | [] => some h.source.stream
  | i :: path => (h.stream? path).bind fun s =>
    if i < s.discarded then h.gone (i :: path) else s.contents? (i - s.discarded)

/-- Puts the stream of a block back. -/
def setStream (h : Holder) : List Nat → Stream → Holder
  | [], x => { h with source := { h.source with stream := x } }
  | i :: path, x =>
    match h.stream? path with
    | some s =>
      if i < s.discarded then { h with gone := Function.update h.gone (i :: path) (some x) }
      else h.setStream path (s.setContents (i - s.discarded) x)
    | none => h

/-- Keeps the streams of the blocks that a stream has let go of. -/
def keep (h : Holder) (path : List Nat) (before after : Stream) : Holder :=
  { h with gone := fun place =>
      match place with
      | i :: around =>
        if around = path ∧ before.discarded ≤ i ∧ i < after.discarded then
          before.contents? (i - before.discarded)
        else h.gone place
      | [] => h.gone place }

/-- Asks something of the stream of a block, if the reader was given the block. -/
def request (h : Holder) (path : List Nat) (r : Request) :
    Option (Except Error Reply) × Holder :=
  match h.stream? path with
  | some s =>
    let (reply, t) := r.run { h.source with stream := s }
    let after := (h.setStream path t.stream).keep path s t.stream
    (some reply, { after with source := { after.source with feed := t.feed } })
  | none => (none, h)

/-- The reader after requests to any of the streams. -/
def after (h : Holder) (requests : List (List Nat × Request)) : Holder :=
  requests.foldl (fun h r => (h.request r.1 r.2).2) h

/-- The outermost stream may be read from, and so may those that were let go of. -/
structure Sound (h : Holder) : Prop where
  outermost : h.source.stream.Opened
  gone : ∀ path x, h.gone path = some x → x.Opened

/-- What is around a block may be read from or waits; the block may be read from
if it was passed, and waits otherwise. -/
theorem Sound.block (hs : h.Sound) (hopen : s.Opened ∨ s.Shut) (ho : h.stream? path = some s)
    (hx : h.stream? (i :: path) = some x) :
    i < s.position ∧ x.Opened ∨ s.position ≤ i ∧ x.Shut := by
  rw [stream?, ho, Option.bind_some] at hx
  rw [Cursor.position]
  split at hx
  next hlt => exact .inl ⟨by omega, hs.gone _ x hx⟩
  next hge =>
    rcases hopen with hopened | hshut
    · by_cases hi : i - s.discarded < s.behind.length
      · exact .inl ⟨by omega, hopened.passed hx hi⟩
      · have hahead : s.behind.length ≤ i - s.discarded := by omega
        exact .inr ⟨by omega, Stream.shut_of_ahead hopened.latched.ahead hx hahead⟩
    · have hlength := hshut.behind_length
      exact .inr ⟨by omega, Stream.shut_of_ahead hshut.orderly.ahead hx (by omega)⟩

theorem Sound.stream (hs : h.Sound) (hx : h.stream? path = some x) : x.Opened ∨ x.Shut := by
  induction path generalizing x with
  | nil =>
      obtain rfl : h.source.stream = x := Option.some.inj hx
      exact .inl hs.outermost
  | cons i path ih =>
      obtain ⟨s, ho, -⟩ := Option.bind_eq_some_iff.1 hx
      rcases hs.block (ih ho) ho hx with ⟨-, hopened⟩ | ⟨-, hshut⟩
      · exact .inl hopened
      · exact .inr hshut

theorem Sound.setStream (hs : h.Sound) (hx : h.stream? path = some x)
    (hfollows : x.Follows y) : (h.setStream path y).Sound := by
  induction path generalizing x y with
  | nil =>
      obtain rfl : h.source.stream = x := Option.some.inj hx
      exact ⟨hfollows.opened hs.outermost, hs.gone⟩
  | cons i path ih =>
      obtain ⟨s, ho, hx⟩ := Option.bind_eq_some_iff.1 hx
      simp only [Holder.setStream, ho]
      split at hx
      next hlt =>
        rw [if_pos hlt]
        refine ⟨hs.outermost, fun place z hz => ?_⟩
        by_cases hplace : place = i :: path
        · subst hplace
          replace hz : Function.update h.gone (i :: path) (some y) (i :: path) = some z := hz
          rw [Function.update_self] at hz
          exact Option.some.inj hz ▸ hfollows.opened (hs.gone _ x hx)
        · replace hz : Function.update h.gone (i :: path) (some y) place = some z := hz
          rw [Function.update_of_ne hplace] at hz
          exact hs.gone place z hz
      next hge =>
        rw [if_neg hge]
        exact ih ho (Stream.follows_setContents hx hfollows)

/-- Putting back what is there changes nothing. -/
theorem setStream_self (hx : h.stream? path = some x) : h.setStream path x = h := by
  induction path generalizing x with
  | nil =>
      obtain rfl : h.source.stream = x := Option.some.inj hx
      rfl
  | cons i path ih =>
      obtain ⟨s, ho, hx⟩ := Option.bind_eq_some_iff.1 hx
      simp only [setStream, ho]
      split at hx
      next hlt => rw [if_pos hlt, ← hx, Function.update_eq_self]
      next hge => rw [if_neg hge, Stream.setContents_self hx, ih ho]

/-- A stream that lets go of nothing leaves nothing to be kept. -/
theorem keep_of_discarded (hd : y.discarded = x.discarded) : h.keep path x y = h := by
  have hgone : (h.keep path x y).gone = h.gone := by
    funext place
    cases place with
    | nil => rfl
    | cons i around => exact if_neg (by omega)
  rw [show h.keep path x y = { h with gone := (h.keep path x y).gone } from rfl, hgone]

/-- What a request leaves at its own stream can be put where the stream was. -/
theorem follows_run (r : Request) (feed : Feed) :
    s.Follows (r.run { stream := s, feed }).2.stream :=
  ⟨fun hs => (r.opened_run hs).1, fun hs => (r.shut_run hs).1⟩

theorem Sound.keep (path : List Nat) (hs : h.Sound) (hopen : s.Opened ∨ s.Shut) (r : Request)
    (feed : Feed) :
    (h.keep path s (r.run { stream := s, feed }).2.stream).Sound := by
  refine ⟨hs.outermost, fun place x hx => ?_⟩
  cases place with
  | nil => exact hs.gone [] x hx
  | cons i around =>
      simp only [Holder.keep] at hx
      split at hx
      next hkept =>
        obtain ⟨-, hle, hlt⟩ := hkept
        rcases hopen with hopened | hshut
        · have hbound := (r.opened_run (s := { stream := s, feed }) hopened).2
          exact hopened.passed hx (by simp only at hbound; omega)
        · have hsame := (r.shut_run (s := { stream := s, feed }) hshut).2
          simp only at hsame
          omega
      next => exact hs.gone _ x hx

theorem Sound.request (hs : h.Sound) (path : List Nat) (r : Request) :
    (h.request path r).2.Sound := by
  unfold Holder.request
  cases ho : h.stream? path with
  | none => exact hs
  | some s =>
      have hset := (hs.setStream ho (follows_run r h.source.feed)).keep path (hs.stream ho) r
        h.source.feed
      exact ⟨hset.outermost, hset.gone⟩

theorem Sound.after (hs : h.Sound) (requests : List (List Nat × Request)) :
    (h.after requests).Sound := by
  induction requests generalizing h with
  | nil => exact hs
  | cons r rest ih => exact ih (hs.request r.1 r.2)

/-- Where tokens come from. -/
inductive Origin where
  /-- Trees that are given in advance. -/
  | trees (items : List TokenTree)
  /-- A text that arrives in pieces. -/
  | text (d : Dialect) (options : LexOptions) (chunks : List String)

/-- The stream of the tokens before anything is asked of it. -/
def Origin.source : Origin → Source
  | .trees items => { stream := .ofCells (TokenTree.toCells items) }
  | .text d options chunks => .ofChunks d options chunks

/-- A reader that was given nothing but the outermost stream. -/
def start (origin : Origin) : Holder :=
  { source := origin.source }

theorem sound_start (origin : Origin) : (start origin).Sound := by
  refine ⟨?_, nofun⟩
  cases origin with
  | trees items => exact ⟨rfl, nofun, nofun, (Source.ready_ofCells items).orderly.unseen⟩
  | text d options chunks => exact ⟨rfl, nofun, nofun, nofun⟩

theorem request_of_locked (hx : h.stream? path = some s) (hl : s.locked = true) {r : Request}
    (hr : r = .next ∨ r = .savepoint ∨ (∃ index, r = .restore index) ∨
      (∃ index, r = .commit index) ∨ r = .collect) :
    h.request path r = (some (.error (.stream .locked)), h) := by
  have hrun : r.run { h.source with stream := s } =
      (.error (.stream .locked), { h.source with stream := s }) := Request.run_of_locked hl hr
  simp only [request, hx, hrun, setStream_self hx, keep_of_discarded]

/-- Whatever was asked of whichever streams: a block that the reader was given
has a stream, which is unlocked if and only if the stream around it has passed
the block. A locked stream is at the oldest position that it has, and refuses
to move, which changes nothing. -/
theorem unlocked_iff_passed (origin : Origin) (requests : List (List Nat × Request))
    (path : List Nat) (s : Stream) (hs : ((start origin).after requests).stream? path = some s) :
    (∀ i t x, s.known[i]? = some (.block t x) →
      ((start origin).after requests).stream? ((s.discarded + i) :: path) = some x) ∧
    (∀ i x, ((start origin).after requests).stream? (i :: path) = some x →
      (x.locked = false ↔ i < s.position) ∧ (x.locked = true → x.position = x.discarded)) ∧
    (s.locked = true → ∀ r : Request,
      (r = .next ∨ r = .savepoint ∨ (∃ index, r = .restore index) ∨
        (∃ index, r = .commit index) ∨ r = .collect) →
      ((start origin).after requests).request path r =
        (some (.error (.stream .locked)), (start origin).after requests)) := by
  have hsound := (sound_start origin).after requests
  refine ⟨fun i t x hk => ?_, fun i x hx => ?_, fun hl r hr => request_of_locked hs hl hr⟩
  · have hcontents : s.contents? i = some x := Stream.contents?_eq_some.2 ⟨t, hk⟩
    rw [stream?, hs, Option.bind_some, if_neg (by omega), Nat.add_sub_cancel_left, hcontents]
  · rcases hsound.block (hsound.stream hs) hs hx with ⟨hlt, hopened⟩ | ⟨hle, hshut⟩
    · simp [hopened.unlocked, hlt]
    · simp only [hshut.locked, Bool.true_eq_false, Nat.not_lt.2 hle, forall_const, true_and]
      rw [Cursor.position, hshut.behind_length, Nat.add_zero]

/-- A block with another one in it, and a word. -/
def nested : List TokenTree :=
  let opening : Token := { kind := .punctuation, value := "(", position := .start }
  [.block opening [Source.word "a", .block opening [Source.word "b"]], Source.word "c"]

/-- The outer block is entered, and is then let go of by the stream around it.
The inner one is still locked. -/
theorem unlocked_iff_passed_nested :
    let h := (start (.trees nested)).after [([], .next), ([0], .next), ([0], .peek 0),
      ([], .next), ([], .savepoint), ([], .commit 2)]
    ∃ s x, h.gone [0] = some s ∧ h.stream? [0] = some s ∧ h.stream? [1, 0] = some x ∧
      s.locked = false ∧ x.locked = true ∧
      h.request [1, 0] .next = (some (.error (.stream .locked)), h) := by
  intro h
  obtain ⟨root, hroot⟩ := Option.isSome_iff_exists.1 (by decide : (h.stream? []).isSome)
  obtain ⟨s, hs⟩ := Option.isSome_iff_exists.1 (by decide : (h.stream? [0]).isSome)
  obtain ⟨x, hx⟩ := Option.isSome_iff_exists.1 (by decide : (h.stream? [1, 0]).isSome)
  have hrootPosition : root.position = 2 := by
    have hmap : (h.stream? []).map Cursor.position = some 2 := by decide
    simpa [hroot] using hmap
  have hposition : s.position = 1 := by
    have hmap : (h.stream? [0]).map Cursor.position = some 1 := by decide
    simpa [hs] using hmap
  have houter := ((unlocked_iff_passed _ _ [] root hroot).2.1 0 s hs).1
  have hinner := ((unlocked_iff_passed _ _ [0] s hs).2.1 1 x hx).1
  have hlocked : x.locked = true := by
    rw [← Bool.not_eq_false, hinner]
    omega
  refine ⟨s, x, ?_, hs, hx, houter.2 (by omega), hlocked, ?_⟩
  · rw [← hs]
    rfl
  · exact (unlocked_iff_passed _ _ [1, 0] x hx).2.2 hlocked .next (.inl rfl)

end Holder

end DualSql
