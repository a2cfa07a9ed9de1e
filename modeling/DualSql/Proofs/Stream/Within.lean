import DualSql.Proofs.Stream.PlainCursor

/-! # Reading in any block that is known

The contents of a block can be read as soon as the block is known, before it is
consumed or long after, while the streams around it stand where they are. What
is drawn then belongs to the innermost block that is still open, so the lines
around stay what they were.

Main definitions: `Stream.setKnown` and `Source.readAt`. Main results:
`Source.ready_within` and `Source.keeps_within`. -/

namespace DualSql

namespace Stream

variable {s x : Stream} {t : Token} {i : Nat} {c : Cell}

/-- Replaces a known item, consumed or not. -/
def setKnown (i : Nat) (c : Cell) (s : Stream) : Stream :=
  let cells := s.known.set i c
  { s with
    behind := (cells.take s.behind.length).reverse
    ahead := cells.drop s.behind.length }

@[simp] theorem known_setKnown (i : Nat) (c : Cell) (s : Stream) :
    (s.setKnown i c).known = s.known.set i c := by
  simp [setKnown, known]

@[simp] theorem length_behind_setKnown (i : Nat) (c : Cell) (s : Stream) :
    (s.setKnown i c).behind.length = s.behind.length := by
  simp [setKnown, known]

theorem place_setKnown (i : Nat) (c : Cell) (s : Stream) : (s.setKnown i c).place = s.place := by
  simp only [place, length_behind_setKnown]
  rfl

theorem mem_behind_setKnown {d : Cell} (h : d ∈ (s.setKnown i c).behind) :
    d ∈ s.behind ∨ d = c ∧ i < s.behind.length := by
  simp only [setKnown, List.mem_reverse] at h
  rw [List.take_set, known, List.take_left' (by simp)] at h
  rcases List.mem_or_eq_of_mem_set h with hd | rfl
  · exact .inl (List.mem_reverse.1 hd)
  · by_cases hi : i < s.behind.length
    · exact .inr ⟨rfl, hi⟩
    · rw [List.set_eq_of_length_le (by simpa using hi)] at h
      exact .inl (List.mem_reverse.1 h)

theorem mem_ahead_setKnown {d : Cell} (h : d ∈ (s.setKnown i c).ahead) :
    d ∈ s.ahead ∨ d = c ∧ s.behind.length ≤ i := by
  simp only [setKnown] at h
  by_cases hi : i < s.behind.length
  · rw [List.drop_set_of_lt hi, known, List.drop_left' (by simp)] at h
    exact .inl h
  · rw [List.drop_set, if_neg hi, known, List.drop_left' (by simp)] at h
    rcases List.mem_or_eq_of_mem_set h with hd | rfl
    · exact .inl hd
    · exact .inr ⟨rfl, Nat.le_of_not_lt hi⟩

theorem set_last {l : List Cell} (hi : i + 1 = l.length) (c : Cell) :
    l.set i c = l.dropLast ++ [c] := by
  obtain ⟨init, d, rfl⟩ := List.eq_nil_or_concat l |>.resolve_left fun h => by simp [h] at hi
  obtain rfl : i = init.length := by simpa using hi
  simp

/-- The latest item is the last of the known ones. -/
theorem setKnown_latest (hi : i + 1 = s.known.length) (c : Cell) :
    s.setKnown i c = s.setLatest c := by
  have hset := set_last hi c
  unfold setLatest
  split
  next b rest ha hb =>
    have hknown : s.known.dropLast = rest.reverse := by simp [known, ha, hb]
    rw [hknown] at hset
    simp only [setKnown, hset, hb, List.length_cons]
    rw [List.take_of_length_le (by simp), List.drop_of_length_le (by simp)]
    simp [ha]
  next hne =>
    have ha : s.ahead ≠ [] := by
      intro ha
      cases hb : s.behind with
      | nil => simp [known, ha, hb] at hi
      | cons b rest => exact hne b rest ha hb
    rw [known, List.dropLast_append_of_ne_nil ha, List.append_assoc] at hset
    simp only [setKnown, known, hset]
    rw [List.take_left' (by simp), List.drop_left' (by simp), List.reverse_reverse,
      setLast_eq c ha]

/-- A known block is complete, unless it is the open one, which is the latest. -/
theorem settled_or_open (h : s.Tidy) (hk : s.known[i]? = some (.block t x)) :
    (Cell.block t x).Settled ∨ s.openBlock? = some (t, x) ∧ i + 1 = s.known.length := by
  cases h with
  | closed _ _ cells => exact .inl (cells _ (List.mem_append_left _ (List.mem_of_getElem? hk)))
  | @opened _ _ u y some _ _ cells =>
      have hknown := known_eq_of_openBlock some
      by_cases hi : i < s.known.dropLast.length
      · rw [hknown, List.getElem?_append_left hi] at hk
        exact .inl (cells _ (List.mem_of_getElem? hk))
      · obtain ⟨hlt, -⟩ := List.getElem?_eq_some_iff.1 hk
        rw [List.length_dropLast] at hi
        have hlast : i = s.known.length - 1 := by omega
        subst hlast
        rw [← List.getLast?_eq_getElem?, (openBlock?_eq_some.1 some).2] at hk
        obtain ⟨rfl, rfl⟩ : u = t ∧ y = x := by simpa using hk
        exact .inr ⟨some, by omega⟩

end Stream

namespace Source

variable {s : Source} {t : Token} {x y : Stream} {i : Nat}

/-- Reads at the stream of a block, given by the places of the blocks around
it, outermost first, which are put back afterwards. There is nothing to read
from where no block is known. -/
def readAt {α : Type} (action : Reading α) :
    List Nat → Source → Option (Except Error α × Source)
  | [], s => some (action s)
  | i :: path, s =>
    match s.stream.known[i]? with
    | some (.block t x) =>
      match readAt action path { s with stream := x } with
      | some (result, u) =>
        some (result, { stream := s.stream.setKnown i (.block t u.stream), feed := u.feed })
      | none => none
    | _ => none

/-- The contents of a known block are in good order. -/
theorem ready_within (h : s.Ready) (hk : s.stream.known[i]? = some (.block t x)) :
    Ready { s with stream := x } := by
  have hmem := List.mem_of_getElem? hk
  refine ⟨?_, ?_⟩
  · rcases Stream.settled_or_open h.tidy hk with settled | ⟨hopen, -⟩
    · exact Stream.tidy_of_settled settled
    · cases h.tidy with
      | closed _ none _ => simp [hopen] at none
      | opened _ some _ tidy _ =>
          obtain ⟨rfl, rfl⟩ : t = _ ∧ x = _ := by simpa [hopen] using some
          exact tidy
  · rcases List.mem_append.1 hmem with hmem | hmem
    · exact (Cell.kept_block_iff.1 (h.orderly.behind _ (List.mem_reverse.1 hmem))).2
    · exact (Cell.kept_block_iff.1 (h.orderly.ahead _ hmem).1).2

/-- A known block is whole if the level around it is. -/
theorem whole_within (h : s.Ready) (hs : s.Whole) (hk : s.stream.known[i]? = some (.block t x)) :
    Whole { s with stream := x } := by
  rcases Stream.settled_or_open h.tidy hk with settled | ⟨hopen, -⟩
  · cases settled with
    | block _ _ shut _ => exact ⟨s.feed.queue, by rw [line, Stream.line_of_shut shut]⟩
  · obtain ⟨rest, hrest⟩ := hs
    have hu := h.tidy.consistent.lexed
      (Stream.lexed_of_isArriving (Stream.isArriving_of_openBlock hopen))
    rw [line, Stream.line_of_openBlock hopen hu] at hrest
    cases hx : (x.line s.feed.last s.feed.queue).ending with
    | ok after => exact ⟨after, hx⟩
    | error e =>
        rw [hx] at hrest
        cases hrest

/-- The contents of a known block are in the line around it. -/
theorem line_within (hk : s.stream.known[i]? = some (.block t x)) :
    s.line.trees[i]? = some (.block t (line { s with stream := x }).trees) := by
  obtain ⟨more, hmore⟩ := s.trees_line
  obtain ⟨hlt, -⟩ := List.getElem?_eq_some_iff.1 hk
  rw [hmore, List.append_assoc, List.getElem?_append_left (by simpa using hlt),
    List.getElem?_map, hk]
  rfl

/-- What is read in a known block leaves the stream around it on its line. A
block that was not consumed has to stay at its place. -/
theorem keeps_within {feed : Feed} (h : s.Ready) (hk : s.stream.known[i]? = some (.block t x))
    (keeps : Keeps { s with stream := x } { stream := y, feed })
    (place : s.stream.behind.length ≤ i → y.place = x.place) :
    s.Keeps { stream := s.stream.setKnown i (.block t y), feed } := by
  have hmem := List.mem_of_getElem? hk
  have horderly : (s.stream.setKnown i (.block t y)).Orderly := by
    refine ⟨fun d hd => ?_, fun d hd => ?_, h.orderly.unseen⟩
    · rcases Stream.mem_behind_setKnown hd with hd | ⟨rfl, -⟩
      · exact h.orderly.behind d hd
      · exact Cell.kept_block_iff.2 ⟨by simp, keeps.ready.orderly⟩
    · rcases Stream.mem_ahead_setKnown hd with hd | ⟨rfl, hi⟩
      · exact h.orderly.ahead d hd
      · have hahead : Cell.block t x ∈ s.stream.ahead := by
          rw [Stream.known, List.getElem?_append_right (by simpa using hi)] at hk
          exact List.mem_of_getElem? hk
        exact (h.orderly.ahead _ hahead).replace (fun _ => keeps.ready.orderly) (place hi)
  rcases Stream.settled_or_open h.tidy hk with settled | ⟨hopen, hi⟩
  · have shut : x.isArriving = false := by
      cases settled with
      | block _ _ shut _ => exact shut
    obtain ⟨alike, rfl⟩ := alike_of_keeps_shut (Stream.tidy_of_settled settled) shut keeps
    refine keeps_of_alike h (Stream.alike_of_known rfl rfl rfl ?_) horderly rfl rfl
    rw [Stream.known_setKnown]
    refine List.forall₂_iff_get.2 ⟨(List.length_set ..).symm, fun j hj hj' => ?_⟩
    simp only [List.get_eq_getElem, List.getElem_set]
    split
    next hij =>
      subst hij
      rw [(List.getElem?_eq_some_iff.1 hk).2]
      exact .block t alike
    next => exact .refl _
  · -- The block is the open one, so its contents and the level share the run.
    have hlast : feed.last = s.feed.last := keeps.last
    have hxy : y.line s.feed.last feed.queue = x.line s.feed.last s.feed.queue := by
      have hline : y.line feed.last feed.queue = x.line s.feed.last s.feed.queue := keeps.line
      rwa [hlast] at hline
    cases h.tidy with
    | closed _ none _ => simp [hopen] at none
    | opened consistent some lexed tidy cells =>
        obtain ⟨rfl, rfl⟩ : t = _ ∧ x = _ := by simpa [hopen] using some
        have hu := consistent.lexed
          (Stream.lexed_of_isArriving (Stream.isArriving_of_openBlock hopen))
        have htidy := Stream.tidy_setLatest hopen consistent cells (keeps.lexed lexed)
          keeps.ready.tidy
        have hline : (s.stream.setLatest (.block t y)).line s.feed.last feed.queue =
            s.stream.line s.feed.last s.feed.queue := Stream.line_setLatest hopen hu cells hxy
        rw [← Stream.setKnown_latest hi] at htidy hline
        refine ⟨⟨htidy, horderly⟩, ?_, hlast, rfl, rfl, id, id⟩
        rw [line, line, ← hline, hlast]

end Source

end DualSql
