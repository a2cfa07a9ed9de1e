import DualSql.Proofs.Fallible
import DualSql.Proofs.Stream.Locks

/-! # Reading keeps the line

Every operation on a source that succeeds leaves the line of its stream as it
was; what it changes is how far the stream has come. So the operations are
those of a list: what is upcoming is the line without what was consumed.

Main definitions: `Source.upcoming`, `Source.Ready`, `Source.Keeps`. Main
results: one for each operation, such as `Source.nextCell_some` and
`Source.restore_ok`. -/

namespace DualSql

/-- Whether a tree is whitespace or a comment. -/
def TokenTree.isTrivia (t : TokenTree) : Bool :=
  t.token.kind.isTrivia

/-- What comes after whitespace and comments. -/
def TokenTree.significant (trees : List TokenTree) : List TokenTree :=
  trees.dropWhile isTrivia

namespace Source

open Fallible

/-- Everything that the level of the stream will ever have. -/
def line (s : Source) : Span :=
  s.stream.line s.feed.last s.feed.queue

/-- What the stream will give next, with the contents of its blocks. -/
def upcoming (s : Source) : List TokenTree :=
  s.line.trees.drop s.stream.behind.length

/-- The tree of a cell of the stream. -/
def treeOf (s : Source) (c : Cell) : TokenTree :=
  c.tree s.feed.last s.feed.queue

/-- A source in good order: only open blocks are arriving, and the blocks ahead
wait to be consumed. -/
structure Ready (s : Source) : Prop where
  tidy : s.stream.Tidy
  orderly : s.stream.Orderly

/-- The second source is the first one after some reading. -/
structure Keeps (s s' : Source) : Prop where
  ready : s'.Ready
  line : s'.line = s.line
  last : s'.feed.last = s.feed.last
  discarded : s'.stream.discarded = s.stream.discarded
  locked : s'.stream.locked = s.stream.locked
  shut : s.stream.isArriving = false → s'.stream.isArriving = false
  lexed : s.stream.supply ≠ .given → s'.stream.supply ≠ .given

variable {s s' s'' : Source}

theorem Keeps.refl (h : s.Ready) : s.Keeps s :=
  ⟨h, rfl, rfl, rfl, rfl, id, id⟩

theorem Keeps.trans (h : s.Keeps s') (h' : s'.Keeps s'') : s.Keeps s'' where
  ready := h'.ready
  line := h'.line.trans h.line
  last := h'.last.trans h.last
  discarded := h'.discarded.trans h.discarded
  locked := h'.locked.trans h.locked
  shut := h'.shut ∘ h.shut
  lexed := h'.lexed ∘ h.lexed

/-- What is upcoming depends on the position alone. -/
theorem Keeps.upcoming (h : s.Keeps s') (hp : s'.stream.position = s.stream.position) :
    s'.upcoming = s.upcoming := by
  have hlen : s'.stream.behind.length = s.stream.behind.length := by
    simp only [Cursor.position, h.discarded] at hp
    omega
  rw [Source.upcoming, Source.upcoming, h.line, hlen]

/-! ### Looking ahead -/

theorem trees_line (s : Source) :
    ∃ more, s.line.trees = s.stream.known.map s.treeOf ++ s.stream.unseen.map s.treeOf ++ more := by
  rw [line, Stream.line_eq]
  split
  · obtain ⟨more, h⟩ := Span.trees_andThen_prefix
      ⟨s.stream.trees s.feed.last s.feed.queue, s.stream.openBlock?.elim (.ok s.feed.queue)
        fun b => (b.2.line s.feed.last s.feed.queue).ending⟩ (Queue.level s.feed.last)
    refine ⟨more, h.trans ?_⟩
    rw [Stream.trees, List.map_append]
    rfl
  · refine ⟨[], ?_⟩
    rw [Stream.trees, List.map_append, List.append_nil]
    rfl

/-- The items ahead are the first of what is upcoming. -/
theorem upcoming_eq (s : Source) :
    ∃ more, s.upcoming = s.stream.ahead.map s.treeOf ++ more := by
  obtain ⟨more, h⟩ := s.trees_line
  refine ⟨s.stream.unseen.map s.treeOf ++ more, ?_⟩
  rw [upcoming, h, Stream.known]
  simp

theorem upcoming_of_done (h : s.Ready) (hd : s.stream.done = true) :
    s.upcoming = s.stream.ahead.map s.treeOf := by
  obtain ⟨shut, hu⟩ := h.tidy.consistent.done hd
  rw [upcoming, line, Stream.line_of_shut shut, Stream.trees, hu, Stream.known]
  simp only [List.append_nil, List.map_append, List.map_reverse]
  rw [List.drop_left' (by simp)]
  rfl

theorem upcoming_getElem? {n : Nat} (h : s.Ready) (hs : s.stream.Shows n) :
    s.upcoming[n]? = s.stream.ahead[n]?.map s.treeOf := by
  rcases hs with hd | hlt
  · rw [upcoming_of_done h hd, List.getElem?_map]
  · obtain ⟨more, hm⟩ := s.upcoming_eq
    rw [hm, List.getElem?_append_left (by simpa using hlt), List.getElem?_map]

theorem fillTo_ok {n : Nat} (h : s.Ready) (hf : fillTo n s = (.ok (), s')) :
    s.Keeps s' ∧ s'.stream.place = s.stream.place ∧ s'.stream.Shows n := by
  simp only [fillTo, bind_eq_ok, get_eq_ok] at hf
  obtain ⟨a, t, ⟨rfl, rfl⟩, hf⟩ := hf
  cases hs : s.stream.supply with
  | given =>
      simp only [hs, set_eq_ok] at hf
      subst hf
      obtain ⟨hsupply, htidy, hline, hshow⟩ :=
        Stream.showTo_given s.feed.last s.feed.queue n h.tidy hs
      refine ⟨⟨⟨htidy, h.orderly.showTo n⟩, hline, rfl, ?_, ?_, ?_, ?_⟩,
        Stream.place_showTo n, hshow⟩
      · exact congrArg Place.discarded (Stream.place_showTo n)
      · exact congrArg Place.locked (Stream.place_showTo n)
      · intro _
        simp [Stream.isArriving, hsupply]
      · intro hne
        exact absurd hs hne
  | lexed blockOpen finished =>
      simp only [hs, bind_eq_ok, set_eq_ok] at hf
      obtain ⟨-, t, rfl, hf⟩ := hf
      rcases hd : s.stream.drawTo n s.feed.last s.feed.queue with ⟨e | ⟨⟩, stream, queue⟩
      · simp only [hd, throw_eq_ok] at hf
      · simp only [hd, pure_eq_ok, true_and] at hf
        subst hf
        have hlexed : s.stream.supply ≠ .given := by simp [hs]
        obtain ⟨drawn, hshow⟩ := Stream.drawTo_ok h.tidy hlexed hd
        exact ⟨⟨⟨drawn.tidy, h.orderly.drawTo hd⟩, drawn.line, rfl,
          congrArg Place.discarded drawn.place, congrArg Place.locked drawn.place, drawn.shut,
          fun _ => drawn.lexed⟩, drawn.place, hshow⟩

theorem position_of_place {x y : Stream} (h : x.place = y.place) : x.position = y.position := by
  have h₁ : x.behind.length = y.behind.length := congrArg Place.consumed h
  have h₂ : x.discarded = y.discarded := congrArg Place.discarded h
  simp [Cursor.position, h₁, h₂]

/-- The item `n` places ahead is the one upcoming there. -/
theorem peekCell_ok {n : Nat} {c : Option Cell} (h : s.Ready)
    (hp : peekCell n s = (.ok c, s')) :
    s.Keeps s' ∧ s'.stream.place = s.stream.place ∧ s'.stream.ahead[n]? = c ∧
      s.upcoming[n]? = c.map s'.treeOf := by
  simp only [peekCell, bind_eq_ok, get_eq_ok, pure_eq_ok] at hp
  obtain ⟨⟨⟩, t, hf, a, t', ⟨rfl, rfl⟩, hc, rfl⟩ := hp
  obtain ⟨keeps, place, hshow⟩ := fillTo_ok h hf
  refine ⟨keeps, place, hc, ?_⟩
  rw [← keeps.upcoming (position_of_place place), upcoming_getElem? keeps.ready hshow, hc]

theorem token_treeOf (s : Source) (c : Cell) : (s.treeOf c).token = c.token :=
  Cell.token_tree ..

theorem peek_ok {n : Nat} {t : Option Token} (h : s.Ready) (hp : peek n s = (.ok t, s')) :
    s.Keeps s' ∧ s'.stream.position = s.stream.position ∧
      t = s.upcoming[n]?.map TokenTree.token := by
  simp only [peek, bind_eq_ok, pure_eq_ok] at hp
  obtain ⟨c, t', hp, rfl, rfl⟩ := hp
  obtain ⟨keeps, place, -, hget⟩ := peekCell_ok h hp
  refine ⟨keeps, position_of_place place, ?_⟩
  rw [hget, Option.map_map]
  cases c <;> simp [token_treeOf]

theorem isExhausted_ok {b : Bool} (h : s.Ready) (he : isExhausted s = (.ok b, s')) :
    s.Keeps s' ∧ s'.stream.position = s.stream.position ∧ b = s.upcoming.isEmpty := by
  simp only [isExhausted, bind_eq_ok, pure_eq_ok] at he
  obtain ⟨t, s₁, hp, rfl, rfl⟩ := he
  obtain ⟨keeps, position, rfl⟩ := peek_ok h hp
  refine ⟨keeps, position, ?_⟩
  cases s.upcoming <;> simp

/-! ### Consuming -/

theorem checkUnlocked_ok (h : checkUnlocked s = (.ok (), s')) :
    s = s' ∧ s.stream.locked = false := by
  simp only [checkUnlocked, bind_eq_ok, get_eq_ok] at h
  obtain ⟨a, t, ⟨rfl, rfl⟩, h⟩ := h
  cases hl : s.stream.locked with
  | true => simp [hl, throw_eq_ok] at h
  | false =>
      rw [hl] at h
      exact ⟨(pure_eq_ok.1 h).2, rfl⟩

/-- A stream that moves along its line. -/
theorem keeps_of_alike {x : Stream} (h : s.Ready) (alike : s.stream.Alike x) (orderly : x.Orderly)
    (discarded : x.discarded = s.stream.discarded) (locked : x.locked = s.stream.locked) :
    s.Keeps { s with stream := x } where
  ready := ⟨alike.tidy h.tidy, orderly⟩
  line := alike.line h.tidy _ _
  last := rfl
  discarded := discarded
  locked := locked
  shut := alike.shut
  lexed := alike.lexed

/-- The source after its next item is consumed, which is unlocked. -/
def stepOver (s : Source) (c : Cell) (rest : List Cell) : Source :=
  { s with stream := { s.stream with
    behind := c.setLocked false :: s.stream.behind
    ahead := rest
    hasCurrent := true
    started := true } }

theorem keeps_stepOver {c : Cell} {rest : List Cell} (h : s.Ready)
    (ha : s.stream.ahead = c :: rest) : s.Keeps (s.stepOver c rest) := by
  have hahead := h.orderly.ahead
  simp only [ha, List.mem_cons, forall_eq_or_imp] at hahead
  refine keeps_of_alike h (Stream.alike_of_known rfl rfl rfl ?_) ⟨?_, hahead.2, h.orderly.unseen⟩
    rfl rfl
  · simp only [Stream.known, ha, List.reverse_cons, List.append_assoc, List.singleton_append]
    exact List.rel_append (Stream.forall₂_refl _)
      (.cons (Cell.alike_setLocked false c) (Stream.forall₂_refl _))
  · simp only [List.mem_cons, forall_eq_or_imp]
    exact ⟨(hahead.1.1.setLocked false).enter, h.orderly.behind⟩

/-- How the next item is consumed: it has to be known, and there may be none. -/
theorem nextCell_ok {c : Option Cell} (hn : nextCell s = (.ok c, s')) :
    ∃ t, fillTo 0 s = (.ok (), t) ∧ s.stream.locked = false ∧
      ((∃ d rest, t.stream.ahead = d :: rest ∧ c = some (d.setLocked false) ∧
          s' = t.stepOver d rest) ∨
        (t.stream.ahead = [] ∧ c = none ∧ s' = { t with stream := t.stream.step.2 })) := by
  simp only [nextCell, bind_eq_ok, get_eq_ok, set_eq_ok, pure_eq_ok] at hn
  obtain ⟨⟨⟩, t, hu, ⟨⟩, t', hf, a, t'', ⟨rfl, rfl⟩, -, t₃, rfl, hitem, rfl⟩ := hn
  obtain ⟨rfl, hl⟩ := checkUnlocked_ok hu
  refine ⟨t', hf, hl, ?_⟩
  cases ha : t'.stream.ahead with
  | cons d rest =>
      simp only [ha, Cursor.step] at hitem
      exact .inl ⟨d, rest, rfl, hitem.symm, rfl⟩
  | nil =>
      simp only [ha, Cursor.step] at hitem
      exact .inr ⟨rfl, hitem.symm, rfl⟩

/-- At the end of the level nothing is consumed. -/
theorem nextCell_none (h : s.Ready) (hn : nextCell s = (.ok none, s')) :
    s.Keeps s' ∧ s'.stream.position = s.stream.position ∧ s.upcoming = [] := by
  obtain ⟨t, hf, -, ⟨_, _, _, hc, _⟩ | ⟨ha, -, rfl⟩⟩ := nextCell_ok hn
  · cases hc
  obtain ⟨keeps, place, hshow⟩ := fillTo_ok h hf
  have hstep : t.stream.step.2 = { t.stream with
      hasCurrent := false, started := t.stream.started || t.stream.hasCurrent } := by
    simp [Cursor.step, ha]
  have hget := upcoming_getElem? keeps.ready hshow
  rw [keeps.upcoming (position_of_place place), ha] at hget
  refine ⟨keeps.trans ?_, ?_, ?_⟩
  · rw [hstep]
    obtain ⟨hb, hah, hun⟩ := keeps.ready.orderly
    exact keeps_of_alike keeps.ready
      (Stream.alike_of_known rfl rfl rfl (Stream.forall₂_refl t.stream.known)) ⟨hb, hah, hun⟩ rfl rfl
  · rw [hstep]
    exact position_of_place (x := t.stream) place
  · simpa using hget

/-- The next item is the first upcoming one, and becomes the current one. -/
theorem nextCell_some {c : Cell} (h : s.Ready) (hn : nextCell s = (.ok (some c), s')) :
    s.Keeps s' ∧ s'.stream.position = s.stream.position + 1 ∧
      s.upcoming = s'.treeOf c :: s'.upcoming ∧ s'.stream.current = some c ∧
      ∀ x ∈ c.contents?, x.behind = [] ∧ x.locked = false := by
  obtain ⟨t, hf, hl, ⟨d, rest, ha, hc, rfl⟩ | ⟨_, hc, _⟩⟩ := nextCell_ok hn
  · obtain ⟨keeps, place, hshow⟩ := fillTo_ok h hf
    obtain rfl : c = d.setLocked false := by simpa using hc
    have hstep := keeps_stepOver keeps.ready ha
    have hposition : (t.stepOver d rest).stream.position = s.stream.position + 1 := by
      have := position_of_place place
      simp only [stepOver, Cursor.position, List.length_cons] at this ⊢
      omega
    refine ⟨keeps.trans hstep, hposition, ?_, rfl, ?_⟩
    · obtain ⟨more, hmore⟩ := (t.stepOver d rest).trees_line
      have hknown : (t.stepOver d rest).stream.known =
          t.stream.behind.reverse ++ d.setLocked false :: rest := by
        simp [stepOver, Stream.known]
      have hbehind : (t.stepOver d rest).stream.behind.length = t.stream.behind.length + 1 := rfl
      rw [← keeps.upcoming (position_of_place place), upcoming, upcoming, ← hstep.line, hbehind,
        hmore, hknown]
      simp [← List.drop_drop]
    · cases d with
      | leaf t => simp [Cell.setLocked, Cell.mapContents, Cell.contents?]
      | block t x =>
          have hwaits := keeps.ready.orderly.ahead (.block t x) (by simp [ha])
          have hstart := (Cell.kept_block_iff.1 hwaits.1).1 rfl
          simpa [Cell.setLocked, Cell.mapContents, Cell.contents?] using hstart
  · cases hc

/-! ### Going back -/

theorem savepoint_ok {index : Nat} (h : s.Ready) (hs : savepoint s = (.ok index, s')) :
    s.Keeps s' ∧ s'.stream.position = s.stream.position ∧ index = s.stream.position := by
  simp only [savepoint, bind_eq_ok, get_eq_ok, modify_eq_ok, pure_eq_ok] at hs
  obtain ⟨⟨⟩, t, hu, ⟨⟩, t', rfl, a, t'', ⟨rfl, rfl⟩, rfl, rfl⟩ := hs
  obtain ⟨rfl, -⟩ := checkUnlocked_ok hu
  refine ⟨keeps_of_alike h ?_ ⟨h.orderly.behind, h.orderly.ahead, h.orderly.unseen⟩ rfl rfl,
    rfl, rfl⟩
  exact Stream.alike_of_known rfl rfl rfl (Stream.forall₂_refl s.stream.known)

theorem bounds_of_canReturnTo {x : Stream} {index : Nat} (h : x.canReturnTo index = true) :
    x.discarded ≤ index ∧ index ≤ x.position := by
  simp only [Cursor.canReturnTo, Bool.and_eq_true, decide_eq_true_eq] at h
  refine ⟨Nat.le_trans ?_ h.1, h.2⟩
  unfold Cursor.leastPosition
  split <;> omega

/-- Going back gives back the latest items, which wait again. -/
theorem known_backUp (x : Stream) (index : Nat) :
    List.Forall₂ Cell.Alike x.known (Stream.known (x.backUp Cell.rewound index)) := by
  have hsplit := List.take_append_drop (x.position - index) x.behind
  simp only [Stream.known, Cursor.backUp, ← List.append_assoc]
  refine List.rel_append ?_ (Stream.forall₂_refl _)
  nth_rewrite 1 [← hsplit]
  rw [List.reverse_append]
  refine List.rel_append (Stream.forall₂_refl _) ?_
  rw [List.forall₂_reverse_iff, List.forall₂_map_right_iff, List.forall₂_same]
  exact fun c _ => Cell.alike_rewound c

theorem orderly_backUp {x : Stream} (h : x.Orderly) (index : Nat) :
    Stream.Orderly (x.backUp Cell.rewound index) := by
  refine ⟨fun c hm => h.behind c (List.mem_of_mem_drop hm), ?_, h.unseen⟩
  intro c hm
  simp only [Cursor.backUp, List.mem_append, List.mem_reverse, List.mem_map] at hm
  rcases hm with ⟨d, hd, rfl⟩ | hm
  · exact Cell.kept_rewound (h.behind d (List.mem_of_mem_take hd))
  · exact h.ahead c hm

theorem checkIndex_ok {index : Nat} (h : checkIndex index s = (.ok (), s')) :
    s = s' ∧ s.stream.canReturnTo index = true := by
  simp only [checkIndex, bind_eq_ok, get_eq_ok] at h
  obtain ⟨a, t, ⟨rfl, rfl⟩, h⟩ := h
  cases hc : s.stream.canReturnTo index with
  | false => simp [hc, throw_eq_ok] at h
  | true =>
      simp only [hc, Bool.not_true, Bool.false_eq_true, if_false, pure_eq_ok, true_and] at h
      exact ⟨h, rfl⟩

/-- Going back is being at an earlier position of the same line. -/
theorem restore_ok {index : Nat} (h : s.Ready) (hr : restore index s = (.ok (), s')) :
    s.Keeps s' ∧ s'.stream.position = index := by
  simp only [restore, bind_eq_ok, modify_eq_ok] at hr
  obtain ⟨⟨⟩, t, hu, ⟨⟩, t', hi, rfl⟩ := hr
  obtain ⟨rfl, -⟩ := checkUnlocked_ok hu
  obtain ⟨rfl, hc⟩ := checkIndex_ok hi
  obtain ⟨hleast, hmost⟩ := bounds_of_canReturnTo hc
  refine ⟨keeps_of_alike h (Stream.alike_of_known rfl rfl rfl (known_backUp _ index))
    (orderly_backUp h.orderly index) rfl rfl, ?_⟩
  simp only [Cursor.position, Cursor.backUp, List.length_drop] at hmost ⊢
  omega

/-! ### Whitespace and comments -/

theorem length_upcoming_le (h : s.Ready) : s.upcoming.length ≤ s.remaining := by
  have := (Stream.line_bounds s.feed.last s.feed.queue h.tidy).1
  simp only [Stream.known, List.length_append, List.length_reverse] at this
  simp only [upcoming, line, remaining, List.length_drop]
  omega

theorem next_ok {t : Option Token} (h : s.Ready) (hn : next s = (.ok t, s')) :
    s.Keeps s' ∧ s.stream.position ≤ s'.stream.position ∧ t = s.upcoming.head?.map TokenTree.token ∧
      s'.upcoming = s.upcoming.tail := by
  simp only [next, bind_eq_ok, pure_eq_ok] at hn
  obtain ⟨c, t', hn, rfl, rfl⟩ := hn
  cases c with
  | none =>
      obtain ⟨keeps, position, hnil⟩ := nextCell_none h hn
      rw [keeps.upcoming position, hnil]
      exact ⟨keeps, Nat.le_of_eq position.symm, rfl, rfl⟩
  | some c =>
      obtain ⟨keeps, position, hcons, -⟩ := nextCell_some h hn
      rw [hcons]
      exact ⟨keeps, by omega, by simp [token_treeOf], rfl⟩

theorem skipTriviaUpTo_ok {fuel : Nat} (h : s.Ready) (hs : skipTriviaUpTo fuel s = (.ok (), s')) :
    s.Keeps s' ∧ s.stream.position ≤ s'.stream.position ∧
      (s.upcoming.length < fuel → s'.upcoming = TokenTree.significant s.upcoming) := by
  induction fuel generalizing s with
  | zero =>
      obtain ⟨-, rfl⟩ := pure_eq_ok.1 hs
      exact ⟨.refl h, Nat.le_refl _, fun hlt => absurd hlt (Nat.not_lt_zero _)⟩
  | succ fuel ih =>
      simp only [skipTriviaUpTo, bind_eq_ok] at hs
      obtain ⟨t, s₁, hp, hs⟩ := hs
      obtain ⟨keeps₁, position₁, rfl⟩ := peek_ok h hp
      have hup := keeps₁.upcoming position₁
      cases hl : s.upcoming with
      | nil =>
          simp only [hl, List.getElem?_nil, Option.map_none, Option.any_none, Bool.false_eq_true,
            if_false, pure_eq_ok, true_and] at hs
          subst hs
          exact ⟨keeps₁, Nat.le_of_eq position₁.symm, fun _ => by rw [hup, hl]; rfl⟩
      | cons tree rest =>
          simp only [hl, List.getElem?_cons_zero, Option.map_some, Option.any_some] at hs
          cases ht : tree.token.kind.isTrivia with
          | false =>
              simp only [ht, Bool.false_eq_true, if_false, pure_eq_ok, true_and] at hs
              subst hs
              refine ⟨keeps₁, Nat.le_of_eq position₁.symm, fun _ => ?_⟩
              rw [hup, hl, TokenTree.significant, List.dropWhile_cons_of_neg]
              simp [TokenTree.isTrivia, ht]
          | true =>
              simp only [ht, if_true, bind_eq_ok] at hs
              obtain ⟨t, s₂, hn, hs⟩ := hs
              obtain ⟨keeps₂, position₂, -, htail⟩ := next_ok keeps₁.ready hn
              obtain ⟨keeps₃, position₃, hsig⟩ := ih keeps₂.ready hs
              refine ⟨(keeps₁.trans keeps₂).trans keeps₃, by omega, fun hlt => ?_⟩
              rw [hup, hl, List.tail_cons] at htail
              rw [hsig (by rw [htail]; simpa using hlt), htail, TokenTree.significant,
                TokenTree.significant, List.dropWhile_cons_of_pos]
              simp [TokenTree.isTrivia, ht]

/-- Skipping leaves what is significant. -/
theorem skipTrivia_ok (h : s.Ready) (hs : skipTrivia s = (.ok (), s')) :
    s.Keeps s' ∧ s.stream.position ≤ s'.stream.position ∧
      s'.upcoming = TokenTree.significant s.upcoming := by
  simp only [skipTrivia, bind_eq_ok] at hs
  obtain ⟨t, s₁, hp, hs⟩ := hs
  obtain ⟨keeps₁, position₁, rfl⟩ := peek_ok h hp
  have hup := keeps₁.upcoming position₁
  by_cases ht : (Option.map TokenTree.token s.upcoming[0]?).any (·.kind.isTrivia) = true
  · simp only [ht, if_true, bind_eq_ok, get_eq_ok] at hs
    obtain ⟨a, s₂, ⟨rfl, rfl⟩, hs⟩ := hs
    obtain ⟨keeps₂, position₂, hsig⟩ := skipTriviaUpTo_ok keeps₁.ready hs
    refine ⟨keeps₁.trans keeps₂, by omega, ?_⟩
    rw [hsig (Nat.lt_succ_of_le (length_upcoming_le keeps₁.ready)), hup]
  · simp only [ht, Bool.false_eq_true, if_false, pure_eq_ok, true_and] at hs
    subst hs
    refine ⟨keeps₁, Nat.le_of_eq position₁.symm, ?_⟩
    rw [hup]
    cases hl : s.upcoming with
    | nil => rfl
    | cons tree rest =>
        rw [TokenTree.significant, List.dropWhile_cons_of_neg]
        simpa [hl, TokenTree.isTrivia] using ht

theorem peekPastTrivia_ok {fuel n : Nat} {t : Option Token} (h : s.Ready)
    (hp : peekPastTrivia fuel n s = (.ok t, s')) :
    s.Keeps s' ∧ s'.stream.position = s.stream.position ∧
      (s.upcoming.length < n + fuel →
        t = (TokenTree.significant (s.upcoming.drop n)).head?.map TokenTree.token) := by
  induction fuel generalizing s n with
  | zero =>
      obtain ⟨rfl, rfl⟩ := pure_eq_ok.1 hp
      refine ⟨.refl h, rfl, fun hlt => ?_⟩
      rw [List.drop_of_length_le (by omega)]
      rfl
  | succ fuel ih =>
      simp only [peekPastTrivia, bind_eq_ok] at hp
      obtain ⟨u, s₁, hpeek, hp⟩ := hp
      obtain ⟨keeps₁, position₁, rfl⟩ := peek_ok h hpeek
      have hup := keeps₁.upcoming position₁
      cases hl : s.upcoming[n]? with
      | none =>
          simp only [hl, Option.map_none, pure_eq_ok] at hp
          obtain ⟨rfl, rfl⟩ := hp
          refine ⟨keeps₁, position₁, fun _ => ?_⟩
          rw [List.drop_of_length_le (List.getElem?_eq_none_iff.1 hl)]
          rfl
      | some tree =>
          have hdrop : s.upcoming.drop n = tree :: s.upcoming.drop (n + 1) :=
            List.drop_eq_getElem?_toList_append.trans (by rw [hl]; rfl)
          simp only [hl, Option.map_some] at hp
          cases ht : tree.token.kind.isTrivia with
          | false =>
              simp only [ht, Bool.false_eq_true, if_false, pure_eq_ok] at hp
              obtain ⟨rfl, rfl⟩ := hp
              refine ⟨keeps₁, position₁, fun _ => ?_⟩
              rw [hdrop, TokenTree.significant, List.dropWhile_cons_of_neg]
              · rfl
              · simp [TokenTree.isTrivia, ht]
          | true =>
              simp only [ht, if_true] at hp
              obtain ⟨keeps₂, position₂, hsig⟩ := ih keeps₁.ready hp
              refine ⟨keeps₁.trans keeps₂, position₂.trans position₁, fun hlt => ?_⟩
              rw [hsig (by rw [hup]; omega), hup, hdrop, TokenTree.significant,
                TokenTree.significant, List.dropWhile_cons_of_pos]
              simp [TokenTree.isTrivia, ht]

/-- The next token that is neither whitespace nor a comment. -/
theorem peekSignificant_ok {t : Option Token} (h : s.Ready)
    (hp : peekSignificant s = (.ok t, s')) :
    s.Keeps s' ∧ s'.stream.position = s.stream.position ∧
      t = (TokenTree.significant s.upcoming).head?.map TokenTree.token := by
  simp only [peekSignificant, bind_eq_ok] at hp
  obtain ⟨u, s₁, hpeek, hp⟩ := hp
  obtain ⟨keeps₁, position₁, rfl⟩ := peek_ok h hpeek
  have hup := keeps₁.upcoming position₁
  cases hl : s.upcoming with
  | nil =>
      simp only [hl, List.getElem?_nil, Option.map_none, pure_eq_ok] at hp
      obtain ⟨rfl, rfl⟩ := hp
      exact ⟨keeps₁, position₁, rfl⟩
  | cons tree rest =>
      simp only [hl, List.getElem?_cons_zero, Option.map_some] at hp
      cases ht : tree.token.kind.isTrivia with
      | false =>
          simp only [ht, Bool.false_eq_true, if_false, pure_eq_ok] at hp
          obtain ⟨rfl, rfl⟩ := hp
          refine ⟨keeps₁, position₁, ?_⟩
          rw [TokenTree.significant, List.dropWhile_cons_of_neg]
          · rfl
          · simp [TokenTree.isTrivia, ht]
      | true =>
          simp only [ht, if_true, bind_eq_ok, get_eq_ok] at hp
          obtain ⟨a, s₂, ⟨rfl, rfl⟩, hp⟩ := hp
          obtain ⟨keeps₂, position₂, hsig⟩ := peekPastTrivia_ok keeps₁.ready hp
          refine ⟨keeps₁.trans keeps₂, position₂.trans position₁, ?_⟩
          have hlen := length_upcoming_le keeps₁.ready
          rw [hsig (by omega), hup, hl, List.drop_zero]

/-! ### Inside a block -/

/-- The current item is the latest consumed one. -/
theorem behind_of_current {x : Stream} {c : Cell} (h : x.current = some c) :
    ∃ below, x.behind = c :: below := by
  unfold Cursor.current at h
  split at h
  · cases hb : x.behind with
    | nil => simp [hb] at h
    | cons d below =>
        obtain rfl : d = c := by simpa [hb] using h
        exact ⟨below, rfl⟩
  · cases h

/-- The contents of the block that was consumed last. -/
theorem ready_contents {t : Token} {x : Stream} {rest : List Cell} (h : s.Ready)
    (hb : s.stream.behind = .block t x :: rest) : Ready { s with stream := x } := by
  have hmem : Cell.block t x ∈ s.stream.known := by simp [Stream.known, hb]
  have hkept : (Cell.block t x).Kept true := h.orderly.behind _ (by simp [hb])
  refine ⟨?_, (Cell.kept_block_iff.1 hkept).2⟩
  cases h.tidy with
  | closed _ _ cells => exact Stream.tidy_of_settled (cells _ (List.mem_append_left _ hmem))
  | opened _ some _ tidy cells =>
      rw [Stream.known_eq_of_openBlock some, List.mem_append, List.mem_singleton] at hmem
      rcases hmem with hmem | heq
      · exact Stream.tidy_of_settled (cells _ hmem)
      · cases heq
        exact tidy

/-- Reading in contents that are complete draws nothing from the run. -/
theorem alike_of_keeps_shut {x y : Stream} {feed : Feed} (hx : x.Tidy) (shut : x.isArriving = false)
    (keeps : Keeps { s with stream := x } { stream := y, feed }) :
    x.Alike y ∧ feed = s.feed := by
  have hshut : y.isArriving = false := keeps.shut shut
  have hline := keeps.line
  simp only [line, Stream.line_of_shut hshut, Stream.line_of_shut shut, Span.mk.injEq,
    Except.ok.injEq] at hline
  have hfeed : feed = s.feed := by
    have hlast : feed.last = s.feed.last := keeps.last
    rw [show feed = ⟨feed.queue, feed.last⟩ from rfl, hline.2, hlast]
  refine ⟨⟨fun _ => hshut, keeps.lexed, fun _ => keeps.ready.tidy, fun _ last q => ?_⟩, hfeed⟩
  have htrees (z : Stream) (hz : ∀ c ∈ z.known ++ z.unseen, c.Settled) (last' : Option LexError)
      (q' : Queue) : z.trees last q = z.trees last' q' :=
    List.map_congr_left fun c hm => (hz c hm).tree_eq ..
  rw [Stream.line_of_shut hshut, Stream.line_of_shut shut,
    htrees y (keeps.ready.tidy.cells hshut), hline.1, ← htrees x (hx.cells shut)]

/-- What is read inside a block leaves the stream around it on its line. -/
theorem keeps_inside {t : Token} {x y : Stream} {feed : Feed} {rest : List Cell} (h : s.Ready)
    (hb : s.stream.behind = .block t x :: rest)
    (keeps : Keeps { s with stream := x } { stream := y, feed }) :
    s.Keeps { stream := { s.stream with behind := .block t y :: rest }, feed } := by
  have hready := ready_contents h hb
  have horderly : Stream.Orderly { s.stream with behind := .block t y :: rest } := by
    refine ⟨?_, h.orderly.ahead, h.orderly.unseen⟩
    have hbehind := h.orderly.behind
    simp only [hb, List.mem_cons, forall_eq_or_imp] at hbehind ⊢
    exact ⟨Cell.kept_block_iff.2 ⟨by simp, keeps.ready.orderly⟩, hbehind.2⟩
  by_cases hopen : s.stream.openBlock? = some (t, x) ∧ s.stream.ahead = []
  · -- The block is the open one, so its contents and the level share the run.
    obtain ⟨hopen, ha⟩ := hopen
    have hset : s.stream.setLatest (.block t y) = { s.stream with behind := .block t y :: rest } := by
      simp [Stream.setLatest, ha, hb]
    have hlast : feed.last = s.feed.last := keeps.last
    have hxy : y.line s.feed.last feed.queue = x.line s.feed.last s.feed.queue := by
      have hline : y.line feed.last feed.queue = x.line s.feed.last s.feed.queue := keeps.line
      rwa [hlast] at hline
    cases h.tidy with
    | closed _ none _ => simp [hopen] at none
    | opened consistent some lexed tidy cells =>
        obtain ⟨rfl, rfl⟩ : t = _ ∧ x = _ := by simpa [hopen] using some
        have hu := consistent.lexed
          (Stream.lexed_of_isArriving (Stream.isArriving_of_openBlock hopen))
        have htidy := Stream.tidy_setLatest hopen consistent cells (keeps.lexed lexed)
          keeps.ready.tidy
        have hline : (s.stream.setLatest (.block t y)).line s.feed.last feed.queue =
            s.stream.line s.feed.last s.feed.queue := Stream.line_setLatest hopen hu cells hxy
        rw [hset] at htidy hline
        refine ⟨⟨htidy, horderly⟩, ?_, hlast, rfl, rfl, id, id⟩
        rw [line, line, ← hline, hlast]
  · have hsettled : (Cell.block t x).Settled := by
      have hmem : Cell.block t x ∈ s.stream.known := by simp [Stream.known, hb]
      cases h.tidy with
      | closed _ _ cells => exact cells _ (List.mem_append_left _ hmem)
      | opened _ some _ _ cells =>
          apply cells
          have ha : s.stream.ahead ≠ [] := by
            intro ha
            have hl := (Stream.openBlock?_eq_some.1 some).2
            obtain ⟨rfl, rfl⟩ : t = _ ∧ x = _ := by simpa [Stream.known, ha, hb] using hl
            exact hopen ⟨some, ha⟩
          rw [Stream.known, List.dropLast_append_of_ne_nil ha]
          simp [hb]
    have shut : x.isArriving = false := by
      cases hsettled with
      | block _ _ shut _ => exact shut
    obtain ⟨alike, rfl⟩ := alike_of_keeps_shut hready.tidy shut keeps
    refine keeps_of_alike h (Stream.alike_of_known rfl rfl rfl ?_) horderly rfl rfl
    simp only [Stream.known, hb, List.reverse_cons, List.append_assoc]
    exact List.rel_append (Stream.forall₂_refl _)
      (.cons (.block t alike) (Stream.forall₂_refl _))

end Source

end DualSql
