import DualSql.Proofs.Stream.Outlook

/-! # Streams that differ in trivia

Two sources that will give the same tokens, whitespace and comments apart, and
fail alike, cannot be told apart by a reader who skips trivia: it gets the same
answers from both, and afterwards they still will give the same.

Main definitions: `TokenTree.essences` and `Source.Twin`. Main results: one for
each operation, such as `Source.Twin.skipTrivia` and `Source.Twin.restore`. -/

namespace DualSql

namespace TokenTree

mutual

/-- A tree without the whitespace and comments in it. -/
def essence : TokenTree → TokenTree
  | leaf t => leaf t
  | block t contents => block t (essences contents)

/-- Trees without whitespace and comments, at any level. -/
def essences : List TokenTree → List TokenTree
  | [] => []
  | tree :: rest => if tree.isTrivia then essences rest else tree.essence :: essences rest

end

variable {tree : TokenTree} {trees rest : List TokenTree} {o : Option Token}

@[simp] theorem token_essence (tree : TokenTree) : tree.essence.token = tree.token := by
  cases tree <;> rfl

theorem essences_cons_trivia (h : tree.token.kind.isTrivia = true) :
    essences (tree :: rest) = essences rest := by
  rw [essences]
  exact if_pos h

theorem essences_cons_content (h : tree.token.kind.isTrivia = false) :
    essences (tree :: rest) = tree.essence :: essences rest := by
  rw [essences, if_neg (by simp [isTrivia, h])]

@[simp] theorem essences_significant (trees : List TokenTree) :
    essences (significant trees) = essences trees := by
  induction trees with
  | nil => rfl
  | cons tree rest ih =>
      cases h : tree.token.kind.isTrivia with
      | true => rw [Source.significant_cons_trivia h, ih, essences_cons_trivia h]
      | false => rw [Source.significant_cons_content h]

/-- What is significant next is what is left of the trees next. -/
theorem head_essences (trees : List TokenTree) :
    (essences trees).head?.map token = (significant trees).head?.map token := by
  induction trees with
  | nil => rfl
  | cons tree rest ih =>
      cases h : tree.token.kind.isTrivia with
      | true => rw [Source.significant_cons_trivia h, ih.symm, essences_cons_trivia h]
      | false =>
          rw [Source.significant_cons_content h, essences_cons_content h]
          simp

/-- Behind the next token the same is left, if it is trivia, and else the rest. -/
theorem essences_tail (ho : trees.head?.map token = o) :
    essences trees.tail =
      if o.any (·.kind.isTrivia) then essences trees else (essences trees).tail := by
  subst ho
  cases trees with
  | nil => rfl
  | cons tree rest =>
      cases h : tree.token.kind.isTrivia with
      | true => simp [h, essences_cons_trivia h]
      | false => simp [h, essences_cons_content h]

end TokenTree

namespace Source

open Fallible TokenTree

/-- Two sources that will give the same, trivia apart, and fail alike. -/
structure Twin (s t : Source) : Prop where
  left : s.Sound
  right : t.Sound
  fault : t.fault = s.fault
  outlook : ∀ mark depth, mark.kind.isTrivia = false →
    essences (t.outlook mark depth) = essences (s.outlook mark depth)

/-- What two sources have become by reading that did not fail. -/
structure Pace (s t s' t' : Source) : Prop where
  twin : s'.Twin t'
  left : s.Later s'
  right : t.Later t'

/-- Twins that come to the same token next. -/
structure Poised (s t s' t' : Source) : Prop where
  pace : s.Pace t s' t'
  heads : ∃ o, s'.Heads o ∧ t'.Heads o

variable {s t s' t' : Source} {o o' : Option Token} {l : LexError}

theorem Twin.symm (h : s.Twin t) : t.Twin s :=
  ⟨h.right, h.left, h.fault.symm, fun mark depth hmark => (h.outlook mark depth hmark).symm⟩

/-- What keeps its place stays a twin. -/
theorem Twin.stay (h : s.Twin t) (left : s.Later s') (right : t.Later t')
    (hs : s'.stream.position = s.stream.position) (ht : t'.stream.position = t.stream.position) :
    s.Pace t s' t' := by
  refine ⟨⟨left.sound, right.sound, ?_, fun mark depth hmark => ?_⟩, left, right⟩
  · rw [left.fault, right.fault, h.fault]
  · rw [left.outlook hs, right.outlook ht, h.outlook mark depth hmark]

/-! ### What comes next -/

theorem Shows.left (h : s.Twin t) (ho : t.Shows o) (depth : Nat) {mark : Token}
    (hmark : mark.kind.isTrivia = false) :
    (significant (s.outlook mark depth)).head?.map token = o := by
  rw [← head_essences, ← h.outlook mark depth hmark, head_essences]
  exact ho mark depth

/-- Twins show the same. -/
theorem Twin.shows_eq (h : s.Twin t) (hs : s.Shows o) (ht : t.Shows o') : o = o' := by
  obtain ⟨mark, hmark, -⟩ := exists_mark_ne none
  rw [← ht.left h 0 hmark]
  exact (hs mark 0).symm

/-- Where one twin shows something, the other does not fail. -/
theorem Twin.not_blocked (h : s.Twin t) (hs : s.Shows o) : ¬t.Blocked l := by
  rintro ⟨-, below, hbelow⟩
  obtain ⟨mark, hmark, hne⟩ := exists_mark_ne o
  refine hne ?_
  rw [← hs.left h.symm (0 + below) hmark, hbelow 0 mark hmark]
  rfl

theorem Blocked.unique (h : s.Twin t) {l' : LexError} (hs : s.Blocked l) (ht : t.Blocked l') :
    l = l' := by
  have hfault := h.fault
  rw [hs.1, ht.1] at hfault
  exact (Option.some.inj hfault).symm

/-- What comes next after trivia was skipped is what was shown before. -/
theorem shows_of_skipped (houtlook : ∀ mark depth,
    s'.outlook mark depth = significant (s.outlook mark depth)) (ho : s'.Heads o) : s.Shows o := by
  intro mark depth
  rw [← houtlook]
  exact ho mark depth

/-! ### Reading -/

/-- Skipping trivia brings twins to the same token. -/
theorem Twin.skipTrivia (h : s.Twin t) : Agree (s.Poised t) skipTrivia skipTrivia s t := by
  rcases skipTrivia_cases h.left with ⟨s', hs, left, hleft, o, ho⟩ | ⟨l, s', hs, hleft⟩
  · have hshows := shows_of_skipped hleft ho
    rcases skipTrivia_cases h.right with ⟨t', ht, right, hright, o', ho'⟩ | ⟨l, t', ht, hright⟩
    · obtain rfl := h.shows_eq hshows (shows_of_skipped hright ho')
      refine .of_ok hs ht ⟨⟨⟨left.sound, right.sound, ?_, fun mark depth hmark => ?_⟩, left, right⟩,
        o, ho, ho'⟩
      · rw [left.fault, right.fault, h.fault]
      · rw [hleft, hright, essences_significant, essences_significant, h.outlook mark depth hmark]
    · exact absurd hright (h.not_blocked hshows)
  · rcases skipTrivia_cases h.right with ⟨t', ht, right, hright, o', ho'⟩ | ⟨l', t', ht, hright⟩
    · exact absurd hleft (h.symm.not_blocked (shows_of_skipped hright ho'))
    · obtain rfl := hleft.unique h hright
      exact .of_error hs ht

/-- Twins tell the same significant token. -/
theorem Twin.peekSignificant (h : s.Twin t) :
    Agree (s.Pace t) peekSignificant peekSignificant s t := by
  rcases peekSignificant_cases h.left with ⟨o, s', hs, left, hp, ho⟩ | ⟨l, s', hs, hleft⟩
  · rcases peekSignificant_cases h.right with ⟨o', t', ht, right, hp', ho'⟩ | ⟨l, t', ht, hright⟩
    · obtain rfl := h.shows_eq ho ho'
      exact .of_ok hs ht (h.stay left right hp hp')
    · exact absurd hright (h.not_blocked ho)
  · rcases peekSignificant_cases h.right with ⟨o', t', ht, right, hp', ho'⟩ | ⟨l', t', ht, hright⟩
    · exact absurd hleft (h.symm.not_blocked ho')
    · obtain rfl := hleft.unique h hright
      exact .of_error hs ht

theorem Twin.peek (h : s.Twin t) (hs : s.Heads o) (ht : t.Heads o) :
    Agree (s.Poised t) (peek 0) (peek 0) s t := by
  obtain ⟨s', hs', left, hp⟩ := peek_of_heads h.left hs
  obtain ⟨t', ht', right, hp'⟩ := peek_of_heads h.right ht
  exact .of_ok hs' ht' ⟨h.stay left right hp hp', o, left.heads hp hs, right.heads hp' ht⟩

theorem Twin.isExhausted (h : s.Twin t) (hs : s.Heads o) (ht : t.Heads o) :
    Agree (s.Poised t) isExhausted isExhausted s t := by
  obtain ⟨s', hs', left, hp⟩ := isExhausted_of_heads h.left hs
  obtain ⟨t', ht', right, hp'⟩ := isExhausted_of_heads h.right ht
  exact .of_ok hs' ht' ⟨h.stay left right hp hp', o, left.heads hp hs, right.heads hp' ht⟩

theorem Twin.next (h : s.Twin t) (hs : s.Heads o) (ht : t.Heads o) :
    Agree (s.Pace t) next next s t := by
  cases o with
  | none =>
      obtain ⟨s', hs', left, hp⟩ := next_of_heads_none h.left hs
      obtain ⟨t', ht', right, hp'⟩ := next_of_heads_none h.right ht
      exact .of_ok hs' ht' (h.stay left right hp hp')
  | some token =>
      obtain ⟨s', hs', left, htail⟩ := next_of_heads h.left hs
      obtain ⟨t', ht', right, htail'⟩ := next_of_heads h.right ht
      refine .of_ok hs' ht' ⟨⟨left.sound, right.sound, ?_, fun mark depth hmark => ?_⟩, left, right⟩
      · rw [left.fault, right.fault, h.fault]
      · rw [htail, htail', essences_tail (hs mark depth), essences_tail (ht mark depth),
          h.outlook mark depth hmark]

/-- A savepoint of each twin. -/
theorem Twin.savepoint (h : s.Twin t) :
    ∃ s' t', savepoint s = (.ok s.stream.position, s') ∧
      savepoint t = (.ok t.stream.position, t') ∧ s.Pace t s' t' := by
  obtain ⟨s', hs, left, hp⟩ := savepoint_of_sound h.left
  obtain ⟨t', ht, right, hp'⟩ := savepoint_of_sound h.right
  exact ⟨s', t', hs, ht, h.stay left right hp hp'⟩

/-- Twins that go back to where they were twins are twins again. -/
theorem Twin.restore (h : s.Twin t) (hp : s.Pace t s' t') :
    Agree (s.Pace t) (restore s.stream.position) (restore t.stream.position) s' t' := by
  obtain ⟨u, hu, left, position⟩ := restore_of_later hp.left
  obtain ⟨v, hv, right, position'⟩ := restore_of_later hp.right
  exact .of_ok hu hv (h.stay left right position position')

theorem Twin.commit (hp : s.Pace t s' t') :
    Agree (fun _ _ => True) (commit s.stream.position) (commit t.stream.position) s' t' := by
  obtain ⟨u, hu⟩ := commit_of_later hp.left
  obtain ⟨v, hv⟩ := commit_of_later hp.right
  exact .of_ok hu hv trivial

/-! ### Blocks -/

/-- What the contents of a block will give is in the tree of the block. -/
theorem outlook_contents {x : Stream} (hx : x.behind = []) (mark : Token) (depth : Nat) :
    Source.outlook { s with stream := x } mark depth =
      (x.line none (Queue.marked mark depth s.feed.last s.feed.queue)).trees := by
  rw [outlook, upcoming, marked]
  simp only [hx, List.length_nil, List.drop_zero]
  rfl

/-- The contents of a block that both twins consumed are twins. -/
theorem Twin.contents {token token' : Token} {x y : Stream} {below below' : List Cell}
    (h : s.Twin t) (hb : s.stream.behind = .block token x :: below)
    (hb' : t.stream.behind = .block token' y :: below') (hx : x.behind = [] ∧ x.locked = false)
    (hy : y.behind = [] ∧ y.locked = false)
    (htree : ∀ mark depth, mark.kind.isTrivia = false →
      ((t.marked mark depth).treeOf (.block token' y)).essence =
        ((s.marked mark depth).treeOf (.block token x)).essence) :
    Twin { s with stream := x } { t with stream := y } := by
  refine ⟨h.left.contents hb hx.2, h.right.contents hb' hy.2, h.fault, fun mark depth hmark => ?_⟩
  have hcontents := (TokenTree.block.inj (htree mark depth hmark)).2
  rw [outlook_contents hx.1, outlook_contents hy.1]
  exact hcontents

/-- What twins consumed is a token for both, or a block for both with contents
that are twins. -/
inductive Alike (s t : Source) : Cell → Cell → Prop
  | leaf (token token' : Token) : Alike s t (.leaf token) (.leaf token')
  | block {token token' : Token} {x y : Stream} {below below' : List Cell}
      (left : s.stream.behind = .block token x :: below)
      (right : t.stream.behind = .block token' y :: below')
      (contents : Twin { s with stream := x } { t with stream := y }) :
      Alike s t (.block token x) (.block token' y)

/-- Twins that come to the same significant token consume it alike. -/
theorem Twin.nextCell {token : Token} (h : s.Twin t) (hs : s.Heads (some token))
    (ht : t.Heads (some token)) (hcontent : token.kind.isTrivia = false) :
    ∃ c d s' t', nextCell s = (.ok (some c), s') ∧ nextCell t = (.ok (some d), t') ∧
      s.Pace t s' t' ∧ s'.Alike t' c d := by
  obtain ⟨c, s', below, hnext, left, hc, hb, hleft, hx⟩ := nextCell_of_heads h.left hs
  obtain ⟨d, t', below', hnext', right, hd, hb', hright, hy⟩ := nextCell_of_heads h.right ht
  have hcons (mark : Token) (depth : Nat) (hmark : mark.kind.isTrivia = false) :
      ((t'.marked mark depth).treeOf d).essence = ((s'.marked mark depth).treeOf c).essence ∧
        essences (t'.outlook mark depth) = essences (s'.outlook mark depth) := by
    have houtlook := h.outlook mark depth hmark
    rw [hleft, hright, essences_cons_content, essences_cons_content] at houtlook
    · exact List.cons.inj houtlook
    · rw [token_treeOf, hc, hcontent]
    · rw [token_treeOf, hd, hcontent]
  have twin : s'.Twin t' :=
    ⟨left.sound, right.sound, by rw [left.fault, right.fault, h.fault],
      fun mark depth hmark => (hcons mark depth hmark).2⟩
  refine ⟨c, d, s', t', hnext, hnext', ⟨twin, left, right⟩, ?_⟩
  obtain ⟨mark, hmark, -⟩ := exists_mark_ne none
  have htree := (hcons mark 0 hmark).1
  cases c with
  | leaf u =>
      cases d with
      | leaf v => exact .leaf u v
      | block v y => cases htree
  | block u x =>
      cases d with
      | leaf v => cases htree
      | block v y =>
          exact .block hb hb' (twin.contents hb hb' (hx x rfl) (hy y rfl)
            fun mark depth hmark => (hcons mark depth hmark).1)

/-- Twins that were read inside a block go on as twins around it. -/
theorem Twin.leave {token token' : Token} {x y : Stream} {u v : Source}
    {below below' : List Cell} (h : s.Twin t) (hb : s.stream.behind = .block token x :: below)
    (hb' : t.stream.behind = .block token' y :: below')
    (hp : Pace { s with stream := x } { t with stream := y } u v) :
    s.Pace t { stream := { s.stream with behind := .block token u.stream :: below }, feed := u.feed }
      { stream := { t.stream with behind := .block token' v.stream :: below' }, feed := v.feed } :=
  h.stay (hp.left.leave h.left hb) (hp.right.leave h.right hb')
    (by simp [Cursor.position, hb]) (by simp [Cursor.position, hb'])

end Source

end DualSql
