import Mathlib.Data.List.Forall2
import DualSql.Proofs.Stream.Line

/-! # Moving along a line

Looking ahead, consuming and going back change which items of a stream are
known and where it stands among them, but never its line.

Main definitions: `Stream.Alike`, being the same stream at another place, and
`Stream.place`, where it stands. -/

namespace DualSql

/-- The second stream is the first one, standing at another place. -/
structure Stream.Alike (x y : Stream) : Prop where
  shut : x.isArriving = false → y.isArriving = false
  lexed : x.supply ≠ .given → y.supply ≠ .given
  tidy : x.Tidy → y.Tidy
  line : x.Tidy → ∀ last q, y.line last q = x.line last q

/-- The second cell is the first one, with its contents at another place. -/
inductive Cell.Alike : Cell → Cell → Prop
  | leaf (t : Token) : Alike (.leaf t) (.leaf t)
  | block (t : Token) {x y : Stream} (contents : x.Alike y) : Alike (.block t x) (.block t y)

namespace Cell

variable {c d : Cell}

theorem Alike.refl : (c : Cell) → c.Alike c
  | .leaf t => .leaf t
  | .block t _ => .block t ⟨id, id, id, fun _ _ _ => rfl⟩

theorem Alike.settled (h : c.Alike d) (hc : c.Settled) : d.Settled := by
  cases h with
  | leaf t => exact hc
  | @block t x y contents =>
      have shut : y.isArriving = false := by
        cases hc with
        | block _ _ shut _ => exact contents.shut shut
      exact Stream.settled_of_tidy t (contents.tidy (Stream.tidy_of_settled hc)) shut

theorem Alike.tree (h : c.Alike d) (hc : c.Settled) (last : Option LexError) (q : Queue) :
    d.tree last q = c.tree last q := by
  cases h with
  | leaf t => rfl
  | block t contents =>
      simp only [Cell.tree, contents.line (Stream.tidy_of_settled hc)]

end Cell

namespace Stream

variable {last : Option LexError} {q : Queue} {s s' : Stream}

theorem settled_of_forall₂ {l l' : List Cell} (h : List.Forall₂ Cell.Alike l l')
    (hc : ∀ c ∈ l, c.Settled) : ∀ c ∈ l', c.Settled := by
  induction h with
  | nil => simp
  | @cons c d l l' hcd _ ih =>
      simp only [List.mem_cons, forall_eq_or_imp] at hc ⊢
      exact ⟨hcd.settled hc.1, ih hc.2⟩

theorem map_tree_of_forall₂ {l l' : List Cell} (h : List.Forall₂ Cell.Alike l l')
    (hc : ∀ c ∈ l, c.Settled) (last : Option LexError) (q : Queue) :
    l'.map (Cell.tree last q) = l.map (Cell.tree last q) := by
  induction h with
  | nil => rfl
  | @cons c d l l' hcd _ ih =>
      simp only [List.mem_cons, forall_eq_or_imp] at hc
      simp [hcd.tree hc.1, ih hc.2]

/-- Items at the end of alike lists are alike. -/
theorem forall₂_concat {l l' : List Cell} {c : Cell}
    (h : List.Forall₂ Cell.Alike (l ++ [c]) l') :
    ∃ m d, l' = m ++ [d] ∧ List.Forall₂ Cell.Alike l m ∧ c.Alike d := by
  induction l generalizing l' with
  | nil =>
      obtain ⟨d, m, hcd, hm, rfl⟩ := List.forall₂_cons_left_iff.1 h
      exact ⟨[], d, by rw [List.forall₂_nil_left_iff.1 hm]; rfl, .nil, hcd⟩
  | cons a l ih =>
      obtain ⟨b, l'', hab, hl, rfl⟩ := List.forall₂_cons_left_iff.1 h
      obtain ⟨m, d, rfl, hlm, hcd⟩ := ih hl
      exact ⟨b :: m, d, rfl, .cons hab hlm, hcd⟩

theorem getLast?_of_forall₂ {l l' : List Cell} (h : List.Forall₂ Cell.Alike l l') {d : Cell}
    (hd : l'.getLast? = some d) : ∃ c, l.getLast? = some c ∧ c.Alike d := by
  obtain ⟨m, rfl⟩ := List.getLast?_eq_some_iff.1 hd
  rcases List.eq_nil_or_concat l with rfl | ⟨l, c, rfl⟩
  · simp at h
  · rw [List.concat_eq_append] at h
    obtain ⟨m', d', heq, -, hcd⟩ := forall₂_concat h
    obtain rfl : d = d' := by simpa using congrArg List.getLast? heq
    exact ⟨c, by simp, hcd⟩

/-- Streams are alike if their items are. -/
theorem alike_of_known (supply : s'.supply = s.supply) (done : s'.done = s.done)
    (unseen : s'.unseen = s.unseen) (known : List.Forall₂ Cell.Alike s.known s'.known) :
    s.Alike s' := by
  have harr : s'.isArriving = s.isArriving := by simp [isArriving, supply]
  have hcons (h : s.Consistent) : s'.Consistent :=
    ⟨by simpa [supply, unseen] using h.lexed, by simpa [done, harr, unseen] using h.done⟩
  have hnone (h : s.openBlock? = none) : s'.openBlock? = none := by
    cases h' : s'.openBlock? with
    | none => rfl
    | some b =>
        obtain ⟨hs, hl⟩ := openBlock?_eq_some.1 h'
        obtain ⟨c, hc, hcd⟩ := getLast?_of_forall₂ known hl
        cases hcd with
        | block t contents =>
            rw [openBlock?_eq_some.2 ⟨supply ▸ hs, hc⟩] at h
            cases h
  have hsome {t : Token} {x : Stream} (h : s.openBlock? = some (t, x)) :
      ∃ y, s'.openBlock? = some (t, y) ∧ x.Alike y ∧
        List.Forall₂ Cell.Alike s.known.dropLast s'.known.dropLast := by
    have hk := known_eq_of_openBlock h
    rw [hk] at known
    obtain ⟨m, d, hm, hlm, hcd⟩ := forall₂_concat known
    cases hcd with
    | @block _ _ y contents =>
        refine ⟨y, openBlock?_eq_some.2 ⟨supply ▸ (openBlock?_eq_some.1 h).1, by simp [hm]⟩,
          contents, ?_⟩
        simpa [hm] using hlm
  refine ⟨by simp [harr], by simp [supply], fun h => ?_, fun h last q => ?_⟩
  · cases h with
    | closed consistent none cells =>
        refine .closed (hcons consistent) (hnone none) ?_
        intro c hm
        rcases List.mem_append.1 hm with hm | hm
        · exact settled_of_forall₂ known (fun c hm => cells c (List.mem_append_left _ hm)) c hm
        · exact cells c (List.mem_append_right _ (unseen ▸ hm))
    | opened consistent some lexed tidy cells =>
        obtain ⟨y, hy, contents, hdrop⟩ := hsome some
        exact .opened (hcons consistent) hy (contents.lexed lexed) (contents.tidy tidy)
          (settled_of_forall₂ hdrop cells)
  · cases h with
    | closed consistent none cells =>
        have htrees : s'.trees last q = s.trees last q := by
          simp only [trees, unseen, List.map_append]
          rw [map_tree_of_forall₂ known fun c hm => cells c (List.mem_append_left _ hm)]
        rw [line_eq, line_eq last q s, harr, htrees, none, hnone none]
    | opened consistent some lexed tidy cells =>
        obtain ⟨y, hy, contents, hdrop⟩ := hsome some
        have hu : s.unseen = [] :=
          consistent.lexed (lexed_of_isArriving (isArriving_of_openBlock some))
        rw [line_of_openBlock hy (unseen ▸ hu), line_of_openBlock some hu,
          map_tree_of_forall₂ hdrop cells, contents.line tidy]

theorem forall₂_refl (l : List Cell) : List.Forall₂ Cell.Alike l l :=
  List.forall₂_same.2 fun c _ => Cell.Alike.refl c

theorem alike_locked (locked : Bool) : s.Alike { s with locked } :=
  alike_of_known rfl rfl rfl (forall₂_refl _)

end Stream

namespace Cell

theorem alike_setLocked (locked : Bool) : (c : Cell) → c.Alike (c.setLocked locked)
  | .leaf t => .leaf t
  | .block t _ => .block t (Stream.alike_locked locked)

theorem rewound_block (t : Token) (x : Stream) :
    (block t x).rewound = .block t { x with
      behind := []
      ahead := (x.behind.map rewound).reverse ++ x.ahead
      hasCurrent := false
      locked := true } := by
  rw [rewound]
  simp

/-- A block that is given back has the same contents. -/
theorem alike_rewound (c : Cell) : c.Alike c.rewound := by
  induction c using rewound.induct with
  | case1 t => rw [rewound]; exact .leaf t
  | case2 t x ih =>
      rw [rewound_block]
      refine .block t (Stream.alike_of_known rfl rfl rfl ?_)
      simp only [Stream.known, List.reverse_nil, List.nil_append]
      refine List.rel_append ?_ (Stream.forall₂_refl _)
      rw [List.forall₂_reverse_iff, List.forall₂_map_right_iff, List.forall₂_same]
      exact ih

end Cell

/-- Where a stream stands among its items. -/
structure Place where
  /-- The number of consumed items that are retained. -/
  consumed : Nat
  discarded : Nat
  anchor : Option Nat
  hasCurrent : Bool
  started : Bool
  locked : Bool

namespace Stream

variable {last : Option LexError} {q : Queue} {s s' : Stream}

/-- Where the stream stands. -/
def place (s : Stream) : Place :=
  ⟨s.behind.length, s.discarded, s.anchor, s.hasCurrent, s.started, s.locked⟩

@[simp] theorem place_setLatest (c : Cell) : (s.setLatest c).place = s.place := by
  unfold setLatest
  split
  next x rest ha hb => simp [place, hb]
  next => rfl

@[simp] theorem place_absorbHere (e : Event) : (s.absorbHere e).place = s.place := by
  cases e <;> rfl

@[simp] theorem place_absorb (e : Event) : (s.absorb e).place = s.place := by
  cases ho : s.openBlock? with
  | none => rw [absorb_of_none e ho, place_absorbHere]
  | some b =>
      rw [absorb_of_some e ho]
      split
      · rw [place_absorbHere, place_setLatest]
      · rw [place_setLatest]

@[simp] theorem place_conclude : s.conclude.place = s.place := by
  cases ho : s.openBlock? with
  | none => rw [conclude_of_none ho]; rfl
  | some b => rw [conclude_of_some ho]; exact place_setLatest (.block b.1 b.2.conclude)

@[simp] theorem place_showTo (count : Nat) : (s.showTo count).place = s.place := by
  unfold showTo
  split <;> rfl

/-! ### Looking ahead -/

theorem lexed_conclude : s.conclude.supply ≠ .given := by
  simp [supply_conclude]

/-- Whether nothing more than `count` items ahead can be asked for. -/
def Shows (s : Stream) (count : Nat) : Prop :=
  s.done = true ∨ count < s.ahead.length

theorem done_conclude : s.conclude.done = true := by
  cases ho : s.openBlock? with
  | none => rw [conclude_of_none ho]; simp [finishHere]
  | some b => rw [conclude_of_some ho]; simp [finishHere]

/-- What drawing from the run does to a stream. -/
structure Drawn (last : Option LexError) (q : Queue) (s : Stream) (q' : Queue) (s' : Stream) :
    Prop where
  lexed : s'.supply ≠ .given
  tidy : s'.Tidy
  line : s'.line last q' = s.line last q
  place : s'.place = s.place
  shut : s.isArriving = false → s'.isArriving = false

/-- Looking ahead in a run without meeting an error. -/
theorem drawTo_ok {count : Nat} {q' : Queue} (h : s.Tidy) (lexed : s.supply ≠ .given)
    (hd : s.drawTo count last q = (.ok (), s', q')) :
    Drawn last q s q' s' ∧ s'.Shows count := by
  fun_induction drawTo count last q s with
  | case1 q s hshow =>
      obtain ⟨rfl, rfl⟩ : s = s' ∧ q = q' := by simpa using hd
      refine ⟨⟨lexed, h, rfl, rfl, id⟩, ?_⟩
      simpa [Shows, List.getElem?_eq_some_iff, Option.isSome_iff_exists] using hshow
  | case2 q s _ hfin =>
      obtain ⟨rfl, rfl⟩ : { s with done := true } = s' ∧ q = q' := by simpa using hd
      have shut : s.isArriving = false := by simpa [isFinished_eq lexed] using hfin
      exact ⟨⟨lexed, h.done shut (h.consistent.lexed lexed), line_done true, rfl, id⟩, .inl rfl⟩
  | case3 s _ _ hlast =>
      obtain ⟨rfl, rfl⟩ : s.conclude = s' ∧ [] = q' := by simpa using hd
      have hline : s.conclude.line last [] = s.line last [] := hlast ▸ line_conclude h lexed
      exact ⟨⟨lexed_conclude, h.conclude lexed, hline, place_conclude,
        fun _ => isArriving_conclude s⟩, .inl done_conclude⟩
  | case4 => simp at hd
  | case5 s _ hfin e rest ih =>
      have harr : s.isArriving = true := by simpa [isFinished_eq lexed] using hfin
      obtain ⟨drawn, hshow⟩ := ih (h.absorb e harr) (lexed_absorb e lexed) hd
      refine ⟨⟨drawn.lexed, drawn.tidy, ?_, ?_, ?_⟩, hshow⟩
      · rw [drawn.line, line_absorb e h harr]
      · rw [drawn.place, place_absorb]
      · intro shut
        simp [harr] at shut
  | case6 => simp at hd

/-- What each step of drawing keeps is kept by drawing that meets no error. -/
theorem drawTo_keeps {P : Stream → Prop} (done : ∀ s, P s → P { s with done := true })
    (conclude : ∀ s, P s → P s.conclude) (absorb : ∀ s e, P s → P (s.absorb e)) {count : Nat}
    {q' : Queue} (h : P s) (hd : s.drawTo count last q = (.ok (), s', q')) : P s' := by
  fun_induction drawTo count last q s with
  | case1 q s _ =>
      obtain ⟨rfl, -⟩ : s = s' ∧ q = q' := by simpa using hd
      exact h
  | case2 q s _ _ =>
      obtain ⟨rfl, -⟩ : { s with done := true } = s' ∧ q = q' := by simpa using hd
      exact done s h
  | case3 s _ _ _ =>
      obtain ⟨rfl, -⟩ : s.conclude = s' ∧ [] = q' := by simpa using hd
      exact conclude s h
  | case4 => simp at hd
  | case5 s _ _ e rest ih => exact ih (absorb s e h) hd
  | case6 => simp at hd

/-- The items that have been shown after a look ahead, with the next ones in line. -/
theorem known_showTo (count : Nat) (hd : s.done = false) :
    (s.showTo count).known ++ (s.showTo count).unseen =
      s.known ++ ((s.unseen.take (count + 1 - s.ahead.length)).map (Cell.setLocked true) ++
        s.unseen.drop (count + 1 - s.ahead.length)) := by
  simp [showTo, hd, known]

/-- Looking ahead among items that were given. -/
theorem showTo_given (last : Option LexError) (q : Queue) (count : Nat) (h : s.Tidy) (given : s.supply = .given) :
    (s.showTo count).supply = .given ∧ (s.showTo count).Tidy ∧
      (s.showTo count).line last q = s.line last q ∧ (s.showTo count).Shows count := by
  have shut {x : Stream} (hx : x.supply = .given) : x.isArriving = false := by
    simp [isArriving, hx]
  cases hd : s.done with
  | true =>
      have hsame : s.showTo count = s := by simp [showTo, hd]
      rw [hsame]
      exact ⟨given, h, rfl, .inl hd⟩
  | false =>
      have hsupply : (s.showTo count).supply = .given := by simpa [showTo, hd] using given
      have hdone : (s.showTo count).done = decide (s.unseen.length < count + 1 - s.ahead.length) := by
        simp [showTo, hd]
      have hunseen : (s.showTo count).unseen = s.unseen.drop (count + 1 - s.ahead.length) := by
        simp [showTo, hd]
      have halike : List.Forall₂ Cell.Alike (s.known ++ s.unseen)
          ((s.showTo count).known ++ (s.showTo count).unseen) := by
        rw [known_showTo count hd]
        refine List.rel_append (forall₂_refl _) ?_
        nth_rewrite 1 [← List.take_append_drop (count + 1 - s.ahead.length) s.unseen]
        refine List.rel_append ?_ (forall₂_refl _)
        rw [List.forall₂_map_right_iff, List.forall₂_same]
        exact fun c _ => Cell.alike_setLocked true c
      refine ⟨hsupply, .closed ⟨fun h => absurd hsupply h, fun hdone' => ⟨shut hsupply, ?_⟩⟩
        (openBlock?_of_shut (shut hsupply)) (settled_of_forall₂ halike (h.cells (shut given))),
        ?_, ?_⟩
      · rw [hdone, decide_eq_true_iff] at hdone'
        rw [hunseen]
        exact List.drop_of_length_le (Nat.le_of_lt hdone')
      · rw [line_of_shut (shut hsupply), line_of_shut (shut given), trees, trees,
          map_tree_of_forall₂ halike (h.cells (shut given))]
      · by_cases hlt : s.unseen.length < count + 1 - s.ahead.length
        · exact .inl (by rw [hdone]; simpa using hlt)
        · have hlen : (s.showTo count).ahead.length =
              s.ahead.length + (count + 1 - s.ahead.length) := by
            simp [showTo, hd]
            omega
          exact .inr (by omega)

end Stream

end DualSql
