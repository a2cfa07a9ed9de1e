import DualSql.Lexer.Scanner

/-! # Complete lexing runs

A run gives a scanner the pieces of a text one after the other, each when the
scanner asks for it, until the events end or an error stops them.

Main definitions: `Scanner.run` and `Feed`, the events of a run in the order
in which a consumer draws them. -/

namespace DualSql

namespace Scanner

/-- The most events that can still come from what has arrived. -/
def size (s : Scanner) : Nat :=
  s.unread.length + s.words.length + s.ready.length

theorem size_close (s : Scanner) : s.close.size = s.size := rfl

theorem size_wait_le (s : Scanner) (t : Token) : (s.wait t).size ≤ s.size + 1 := by
  have h := Phrase.length_settle s.dialect false (s.words ++ [t])
  simp [wait, size] at h ⊢
  omega

theorem size_flush_le (s : Scanner) : s.flush.size ≤ s.size := by
  have h := Phrase.length_settle s.dialect true s.words
  simp [flush, size] at h ⊢
  omega

theorem size_deliver_le (s : Scanner) (e : Event) : (s.deliver e).size ≤ s.size + 1 := by
  have h := s.size_flush_le
  simp [deliver, size] at h ⊢
  omega

theorem size_stageContent_le (s : Scanner) (t : Token) :
    (s.stageContent t).size ≤ s.size + 1 := by
  unfold stageContent
  dsimp only
  split
  · exact size_wait_le { s with spacePending := false } _
  · exact size_deliver_le { s with spacePending := false } _

theorem size_stage_le (s : Scanner) (t : Token) : (s.stage t).size ≤ s.size + 1 := by
  unfold stage
  split
  · dsimp only
    split
    · exact size_wait_le { s with spacePending := true } _
    · simp [size]
  · dsimp only
    split
    · exact size_deliver_le { s with spacePending := true } _
    · exact Nat.le_succ_of_le (size_flush_le { s with spacePending := true })
  · exact s.size_stageContent_le t

theorem size_openBlock_le (s : Scanner) (b : Bracket) (p : Position) :
    (s.openBlock b p).size ≤ s.size + 1 := by
  unfold openBlock
  dsimp only
  split
  · exact size_deliver_le { s with nesting := (b, p) :: s.nesting } _
  · exact size_stageContent_le { s with nesting := (b, p) :: s.nesting } _

theorem size_closeBlock_le (s : Scanner) (b : Bracket) (p : Position) :
    (s.closeBlock b p).size ≤ s.size + 1 := by
  unfold closeBlock
  dsimp only
  split
  · exact size_deliver_le { s with nesting := s.nesting.tail } _
  · exact size_stageContent_le { s with nesting := s.nesting.tail } _

theorem size_accept_le {s s' : Scanner} {p : Position} {lx : Lexeme}
    (h : s.accept p lx = .ok s') : s'.size ≤ s.size + 1 := by
  cases lx with
  | token t => simp only [accept, Except.ok.injEq] at h; exact h ▸ s.size_stage_le t
  | opening b => simp only [accept, Except.ok.injEq] at h; exact h ▸ s.size_openBlock_le b p
  | closing b =>
    simp only [accept] at h
    split at h
    · simp only [Except.ok.injEq] at h; exact h ▸ s.size_closeBlock_le b p
    · cases h

theorem unread_stageContent (s : Scanner) (t : Token) : (s.stageContent t).unread = s.unread := by
  unfold stageContent
  dsimp only
  split <;> rfl

theorem unread_accept {s s' : Scanner} {p : Position} {lx : Lexeme}
    (h : s.accept p lx = .ok s') : s'.unread = s.unread := by
  cases lx with
  | token t =>
    simp only [accept, Except.ok.injEq] at h
    subst h
    unfold stage
    split
    · dsimp only; split <;> rfl
    · dsimp only; split <;> rfl
    · exact s.unread_stageContent t
  | opening b =>
    simp only [accept, Except.ok.injEq] at h
    subst h
    unfold openBlock
    dsimp only
    split
    · rfl
    · rw [unread_stageContent]
  | closing b =>
    simp only [accept] at h
    split at h
    · simp only [Except.ok.injEq] at h
      subst h
      unfold closeBlock
      dsimp only
      split
      · rfl
      · rw [unread_stageContent]
    · cases h

theorem size_pop_lt {s s' : Scanner} {e : Event} (h : s.pop = (.event e, s')) :
    s'.size < s.size := by
  unfold pop at h
  split at h
  next e' rest hr =>
    simp only [Prod.mk.injEq] at h
    obtain ⟨-, rfl⟩ := h
    simp [size, hr]
  next => cases h

theorem size_finish_lt {s s' : Scanner} {e : Event} (h : s.finish = (.event e, s')) :
    s'.size < s.size := by
  unfold finish at h
  dsimp only at h
  split at h
  · cases h
  · have := size_pop_lt h
    exact Nat.lt_of_lt_of_le this s.size_flush_le

/-- Accepting a lexeme and moving behind it adds at most one event and takes at
least one character. -/
theorem size_skip_accept_le {s s' : Scanner} {c : Char} {rest : List Char} {lx : Lexeme}
    {p : Position} (width : Nat) (hu : s.unread = c :: rest) (h : s.accept p lx = .ok s') :
    (s'.skip c rest width).size ≤ s.size := by
  have h₁ := size_accept_le h
  have h₂ := unread_accept h
  simp [size, skip, h₂, hu] at h₁ ⊢
  omega

/-- Every event that is delivered brings the end of the run closer. -/
theorem size_next_lt {s s' : Scanner} {e : Event} (h : s.next = (.event e, s')) :
    s'.size < s.size := by
  fun_induction next s with
  | case1 s _ _ _ => exact size_finish_lt h
  | case2 => cases h
  | case3 => cases h
  | case4 => cases h
  | case5 => cases h
  | case6 s _ c rest hu lx width _ t ht ih =>
    exact Nat.lt_of_lt_of_le (ih h) (size_skip_accept_le width hu ht)
  | case7 s _ => exact size_pop_lt h

/-- Asking for more text leaves no more events than there were. -/
theorem size_next_le {s s' : Scanner} (h : s.next = (.needMore, s')) : s'.size ≤ s.size := by
  fun_induction next s with
  | case1 s _ _ _ =>
    unfold finish at h
    dsimp only at h
    split at h
    · cases h
    · unfold pop at h; split at h <;> cases h
  | case2 => cases h; exact Nat.le_refl _
  | case3 => cases h; exact Nat.le_refl _
  | case4 => cases h
  | case5 => cases h
  | case6 s _ c rest hu lx width _ t ht ih =>
    exact Nat.le_trans (ih h) (size_skip_accept_le width hu ht)
  | case7 s _ => unfold pop at h; split at h <;> cases h

/-- The next event, feeding pieces of text as they are asked for. -/
def pull (s : Scanner) : List String → Answer × Scanner × List String
  | [] =>
    match s.next with
    | (.needMore, s') =>
      let (answer, s'') := s'.close.next
      (answer, s'', [])
    | (answer, s') => (answer, s', [])
  | chunk :: chunks =>
    match s.next with
    | (.needMore, s') => pull (s'.feed chunk) chunks
    | (answer, s') => (answer, s', chunk :: chunks)

/-- The number of characters in the pieces of a text. -/
def charCount (chunks : List String) : Nat :=
  chunks.foldr (fun chunk total => chunk.toList.length + total) 0

theorem size_pull_lt {s s' : Scanner} {chunks rest : List String} {e : Event}
    (h : s.pull chunks = (.event e, s', rest)) :
    s'.size + charCount rest < s.size + charCount chunks := by
  induction chunks generalizing s with
  | nil =>
    unfold pull at h
    split at h
    next t ht =>
      simp only [Prod.mk.injEq] at h
      obtain ⟨ha, rfl, rfl⟩ := h
      have h₁ := size_next_lt (s := t.close) (Prod.ext ha rfl)
      have h₂ := size_next_le ht
      rw [size_close] at h₁
      exact Nat.add_lt_add_right (Nat.lt_of_lt_of_le h₁ h₂) _
    next a t _ ht =>
      simp only [Prod.mk.injEq] at h
      obtain ⟨rfl, rfl, rfl⟩ := h
      have := size_next_lt ht
      omega
  | cons chunk chunks ih =>
    unfold pull at h
    split at h
    next t ht =>
      have h₁ := ih h
      have h₂ := size_next_le ht
      simp [size, feed, charCount] at h₁ h₂ ⊢
      omega
    next a t _ ht =>
      simp only [Prod.mk.injEq] at h
      obtain ⟨rfl, rfl, rfl⟩ := h
      have := size_next_lt ht
      omega

/-- The events up to the end or the first error, with the answer that stopped
them and the scanner at that point. -/
def run (s : Scanner) (chunks : List String) : List Event × Answer × Scanner :=
  match _pulled : s.pull chunks with
  | (.event e, s', rest) =>
    let (events, answer, last) := run s' rest
    (e :: events, answer, last)
  | (answer, s', _) => ([], answer, s')
termination_by s.size + charCount chunks
decreasing_by exact size_pull_lt _pulled

end Scanner

/-- The events of a run in the order in which they are drawn. An error is
drawn like an event; behind it come the words that were waiting when it
arose. -/
structure Feed where
  queue : List (Except LexError Event)
  /-- What every draw answers once the queue is empty: the end, or the error. -/
  last : Option LexError
  deriving Repr

namespace Feed

/-- A feed that has ended. -/
def empty : Feed := ⟨[], none⟩

/-- The feed of a text that arrives in pieces. -/
def ofChunks (d : Dialect) (options : LexOptions) (chunks : List String) : Feed :=
  let start : Scanner := { dialect := d, options }
  match start.run chunks with
  | (events, .failed e, last) =>
    ⟨events.map .ok ++ .error e :: last.ready.map .ok, some e⟩
  | (events, _, _) => ⟨events.map .ok, none⟩

end Feed

/-- The events of a text that arrives in pieces, up to the end or the first error. -/
def lexEvents (d : Dialect) (options : LexOptions) (chunks : List String) :
    List Event × Option LexError :=
  match ({ dialect := d, options : Scanner }).run chunks with
  | (events, .failed e, _) => (events, some e)
  | (events, _, _) => (events, none)

end DualSql
