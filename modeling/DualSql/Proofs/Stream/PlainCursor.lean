import DualSql.Proofs.Stream.Reached

/-! # A stream is a place in a list

A stream keeps what was consumed and what was looked at, draws the rest when it
is asked for, and lets go of what nobody will return to. None of that shows: a
reader sees a list of tokens, a position in it, the oldest position that it can
return to, and the position that the next commit is for.

Main definitions: `PlainCursor.answer`, the replies of a place in a list, and
`PlainCursor.Describes`, which relates such a place to a stream. Main results:
`PlainCursor.Describes.run`, for one request, and `trace_eq_plain`, for any
number of them. -/

namespace DualSql

/-- What can be asked of a stream. -/
inductive Request where
  | next
  | peek (n : Nat)
  | lookingAt (n : Nat) (kind : TokenKind) (value : Option String)
  | eat (kind : TokenKind) (value : Option String)
  | expect (kind : TokenKind) (value : Option String)
  | savepoint
  | restore (index : Nat)
  | commit (index : Nat)
  | isExhausted
  | collect

/-- What a stream replies. -/
inductive Reply where
  | token (token : Option Token)
  | tokens (tokens : List Token)
  | flag (flag : Bool)
  | index (index : Nat)
  | done
  deriving DecidableEq

/-- The reply of a source. -/
def Request.run : Request → Reading Reply
  | next => return .token (← Source.next)
  | peek n => return .token (← Source.peek n)
  | lookingAt n kind value => return .flag (← Source.lookingAt n kind value)
  | eat kind value => return .token (← Source.eat kind value)
  | expect kind value => return .token (some (← Source.expect kind value))
  | savepoint => return .index (← Source.savepoint)
  | restore index => do
    Source.restore index
    return .done
  | commit index => do
    Source.commit index
    return .done
  | isExhausted => return .flag (← Source.isExhausted)
  | collect => return .tokens (← Source.collect)

/-- A position among tokens, with the oldest one that can be returned to, the
one that the next commit is for, and whether the end was met since the last
movement. -/
structure PlainCursor where
  position : Nat := 0
  least : Nat := 0
  root : Option Nat := none
  ended : Bool := false

namespace PlainCursor

/-- The token before the position. -/
def current (tokens : List Token) (c : PlainCursor) : Option Token :=
  if c.ended then none
  else
    match c.position with
    | 0 => none
    | n + 1 => tokens[n]?

/-- Whether a position can be returned to. -/
def reaches (c : PlainCursor) (index : Nat) : Bool :=
  c.least ≤ index && index ≤ c.position

/-- The reply to a position that cannot be returned to. -/
def refusal (c : PlainCursor) (index : Nat) : Error :=
  .stream (.invalidSavepoint index c.least c.position)

/-- A token that was expected, in words. -/
def wanted (kind : TokenKind) : Option String → String
  | some v => s!"{kind.name} '{v}'"
  | none => kind.name

/-- The reply where another token was expected. -/
def complaint (tokens : List Token) (c : PlainCursor) (kind : TokenKind)
    (value : Option String) : Error :=
  .parse { mismatch := Source.mismatch (wanted kind value) tokens[c.position]? }

/-- Passes the next token, if there is one. -/
def pass (tokens : List Token) (c : PlainCursor) : PlainCursor :=
  if c.position < tokens.length then { c with position := c.position + 1, ended := false }
  else { c with ended := true }

/-- Gives up the positions before `index`, if that is what the commit is for.
The token before a position is needed to return to it, so that positions 0 and 1
give up nothing. -/
def settle (index : Nat) (c : PlainCursor) : PlainCursor :=
  if c.root = some index then
    { c with root := none, least := if 2 ≤ index then index else c.least }
  else c

/-- The reply to a request, and the place from then on. -/
def answer (tokens : List Token) (c : PlainCursor) : Request → Except Error Reply × PlainCursor
  | .next => (.ok (.token tokens[c.position]?), c.pass tokens)
  | .peek n => (.ok (.token tokens[c.position + n]?), c)
  | .lookingAt n kind value => (.ok (.flag (tokens[c.position + n]?.any (·.is kind value))), c)
  | .eat kind value =>
    if tokens[c.position]?.any (·.is kind value) then
      (.ok (.token tokens[c.position]?), c.pass tokens)
    else (.ok (.token none), c)
  | .expect kind value =>
    if tokens[c.position]?.any (·.is kind value) then
      (.ok (.token tokens[c.position]?), c.pass tokens)
    else (.error (c.complaint tokens kind value), c)
  | .savepoint => (.ok (.index c.position), { c with root := c.root.or (some c.position) })
  | .restore index =>
    if c.reaches index then (.ok .done, { c with position := index, ended := false })
    else (.error (c.refusal index), c)
  | .commit index =>
    if c.reaches index then (.ok .done, c.settle index) else (.error (c.refusal index), c)
  | .isExhausted => (.ok (.flag (tokens.length ≤ c.position)), c)
  | .collect =>
    (.ok (.tokens (tokens.drop c.position)), { c with position := tokens.length, ended := true })

end PlainCursor

/-- What a reader can see of a stream. -/
structure View where
  current : Option Token
  position : Nat
  least : Nat
  root : Option Nat
  upcoming : List TokenTree

/-- What a reader can see of the stream of a source. -/
def Source.view (s : Source) : View where
  current := s.stream.current.map Cell.token
  position := s.stream.position
  least := s.stream.leastPosition
  root := s.stream.anchor
  upcoming := s.upcoming

/-- What a reader can see at a place in a list. -/
def PlainCursor.view (trees : List TokenTree) (c : PlainCursor) : View where
  current := c.current (trees.map TokenTree.token)
  position := c.position
  least := c.least
  root := c.root
  upcoming := trees.drop c.position

/-- Requests that are made one after the other, with each reply and what can be
seen after it, and where they lead. -/
def Source.trace : List Request → Source → List (Except Error Reply × View) × Source
  | [], s => ([], s)
  | r :: rest, s =>
    let (reply, t) := r.run s
    let (seen, last) := trace rest t
    ((reply, t.view) :: seen, last)

/-- The same of a place in a list. -/
def PlainCursor.trace (trees : List TokenTree) :
    List Request → PlainCursor → List (Except Error Reply × View)
  | [], _ => []
  | r :: rest, c =>
    let (reply, d) := c.answer (trees.map TokenTree.token) r
    (reply, d.view trees) :: trace trees rest d

namespace Stream

variable {s : Stream} {last : Option LexError} {q : Queue}

/-! ### Runs that do not fail -/

/-- Where the run has nothing but an error, the line of a stream that waits for
the run ends in it. -/
theorem ending_of_level {e : LexError} (hq : (Queue.level last q).ending = .error e) (h : s.Tidy)
    (harr : s.isArriving = true) : (s.line last q).ending = .error e := by
  induction h with
  | @closed s consistent none cells =>
      rw [line_eq, harr, none]
      exact hq
  | @opened s consistent t x some lexed tidy cells ih =>
      have hu := consistent.lexed (lexed_of_isArriving harr)
      rw [line_of_openBlock some hu]
      cases hx : x.isArriving with
      | true =>
          rw [ih hx]
          rfl
      | false =>
          rw [line_of_shut hx]
          exact hq

/-- Looking ahead along a line without an error succeeds. -/
theorem drawTo_total (count : Nat) {rest : Queue} (h : s.Tidy) (lexed : s.supply ≠ .given)
    (hline : (s.line last q).ending = .ok rest) :
    ∃ s' q', s.drawTo count last q = (.ok (), s', q') := by
  fun_induction drawTo count last q s with
  | case1 q s _ => exact ⟨_, _, rfl⟩
  | case2 q s _ _ => exact ⟨_, _, rfl⟩
  | case3 s _ _ _ => exact ⟨_, _, rfl⟩
  | case4 s _ hfin e hlast =>
      have harr : s.isArriving = true := by simpa [isFinished_eq lexed] using hfin
      rw [ending_of_level (by rw [Queue.level_nil, hlast]; rfl) h harr] at hline
      cases hline
  | case5 s _ hfin e q ih =>
      have harr : s.isArriving = true := by simpa [isFinished_eq lexed] using hfin
      rw [← line_absorb e h harr] at hline
      exact ih (h.absorb e harr) (lexed_absorb e lexed) hline
  | case6 s _ hfin e q =>
      have harr : s.isArriving = true := by simpa [isFinished_eq lexed] using hfin
      rw [ending_of_level (by rw [Queue.level_error]) h harr] at hline
      cases hline

/-- Letting go of items takes them off the line. -/
theorem line_release {index : Nat} (hi : s.canReturnTo index = true) :
    Stream.line last q (s.release index) =
      ⟨(s.line last q).trees.drop (index - s.discarded - 1), (s.line last q).ending⟩ := by
  obtain ⟨-, hmost⟩ := Source.bounds_of_canReturnTo hi
  have hlength : index - s.discarded - 1 ≤ (s.trees last q).length := by
    rw [length_trees, known, List.length_append, List.length_reverse]
    rw [Cursor.position] at hmost
    omega
  have htrees : Stream.trees last q (s.release index) =
      (s.trees last q).drop (index - s.discarded - 1) := by
    have hunseen : (Cursor.release index s).unseen = s.unseen := rfl
    rw [trees, trees, Source.known_release hi, hunseen, List.map_drop.symm]
    rw [List.drop_append_of_le_length]
    rw [known, List.length_append, List.length_reverse]
    rw [Cursor.position] at hmost
    omega
  have hopen : Stream.openBlock? (s.release index) = s.openBlock? := by
    apply Option.ext
    rintro ⟨t, x⟩
    rw [openBlock?_eq_some, openBlock?_eq_some, Source.getLast?_known_release hi]
    rfl
  have harr : Stream.isArriving (s.release index) = s.isArriving := rfl
  rw [line_eq, line_eq last q s, harr, hopen, htrees]
  generalize s.openBlock?.elim (.ok q) (fun b => (line last q b.2).ending) = ending
  split
  · cases ending with
    | error e => rfl
    | ok rest => simp only [Span.andThen_ok, List.drop_append_of_le_length hlength]
  · rfl

end Stream

namespace Source

open Fallible

variable {s s' : Source}

/-- The run brings everything that the level of the stream will have. -/
def Whole (s : Source) : Prop :=
  ∃ rest, s.line.ending = .ok rest

theorem Keeps.whole (h : s.Keeps s') (hs : s.Whole) : s'.Whole := by
  obtain ⟨rest, hrest⟩ := hs
  exact ⟨rest, by rw [h.line, hrest]⟩

theorem fillTo_total (h : s.Ready) (hs : s.Whole) (n : Nat) : ∃ s', fillTo n s = (.ok (), s') := by
  obtain ⟨rest, hrest⟩ := hs
  simp only [fillTo, bind_eq_ok, get_eq_ok]
  cases hsupply : s.stream.supply with
  | given =>
      refine ⟨{ s with stream := s.stream.showTo n }, s, s, ⟨rfl, rfl⟩, ?_⟩
      simp only [hsupply]
      exact set_eq_ok.2 rfl
  | lexed blockOpen finished =>
      obtain ⟨x, q, hdraw⟩ := Stream.drawTo_total n h.tidy (by simp [hsupply]) hrest
      refine ⟨{ s with stream := x, feed := { s.feed with queue := q } }, s, s, ⟨rfl, rfl⟩, ?_⟩
      simp only [hsupply, hdraw, bind_eq_ok, set_eq_ok]
      exact ⟨⟨⟩, _, rfl, pure_eq_ok.2 ⟨rfl, rfl⟩⟩

theorem peek_total (h : s.Ready) (hs : s.Whole) (n : Nat) :
    ∃ t, peek n s = (.ok (s.upcoming[n]?.map TokenTree.token), t) ∧ s.Keeps t ∧
      t.stream.place = s.stream.place := by
  obtain ⟨t, hfill⟩ := fillTo_total h hs n
  have hcell : peekCell n s = (.ok t.stream.ahead[n]?, t) := by
    simp only [peekCell, bind_eq_ok, get_eq_ok, pure_eq_ok]
    exact ⟨⟨⟩, t, hfill, t, t, ⟨rfl, rfl⟩, rfl, rfl⟩
  obtain ⟨keeps, place, -, hget⟩ := peekCell_ok h hcell
  refine ⟨t, ?_, keeps, place⟩
  simp only [peek, bind_eq_ok, pure_eq_ok]
  refine ⟨_, t, hcell, ?_, rfl⟩
  rw [hget, Option.map_map]
  cases t.stream.ahead[n]? <;> simp [token_treeOf]

theorem checkUnlocked_total (hu : s.stream.locked = false) : checkUnlocked s = (.ok (), s) := by
  simp only [checkUnlocked, bind_eq_ok, get_eq_ok]
  refine ⟨s, s, ⟨rfl, rfl⟩, ?_⟩
  rw [hu]
  exact pure_eq_ok.2 ⟨rfl, rfl⟩

/-- The next item that is known is consumed. -/
theorem nextCell_of_fillTo {c : Cell} {rest : List Cell} (hl : s.stream.locked = false)
    (hf : fillTo 0 s = (.ok (), s')) (ha : s'.stream.ahead = c :: rest) :
    nextCell s = (.ok (some (c.setLocked false)), s'.stepOver c rest) := by
  simp only [nextCell, bind_eq_ok, get_eq_ok, set_eq_ok, pure_eq_ok]
  refine ⟨⟨⟩, s, checkUnlocked_total hl, ⟨⟩, s', hf, s', s', ⟨rfl, rfl⟩, ⟨⟩,
    s'.stepOver c rest, ?_, ?_, rfl⟩
  · simp only [ha, Cursor.step, stepOver]
  · simp only [ha, Cursor.step]

theorem nextCell_of_fillTo_nil (hl : s.stream.locked = false) (hf : fillTo 0 s = (.ok (), s'))
    (ha : s'.stream.ahead = []) :
    nextCell s = (.ok none, { s' with stream := s'.stream.step.2 }) := by
  simp only [nextCell, bind_eq_ok, get_eq_ok, set_eq_ok, pure_eq_ok]
  refine ⟨⟨⟩, s, checkUnlocked_total hl, ⟨⟩, s', hf, s', s', ⟨rfl, rfl⟩, ⟨⟩,
    { s' with stream := s'.stream.step.2 }, ?_, ?_, rfl⟩
  · simp only [ha]
  · simp only [ha, Cursor.step]

theorem checkIndex_eq (index : Nat) : checkIndex index s =
    (if s.stream.canReturnTo index then .ok ()
      else .error (.stream (.invalidSavepoint index s.stream.leastPosition s.stream.position)),
      s) := by
  have happly : checkIndex index s = (if !s.stream.canReturnTo index then
      throw (.stream (.invalidSavepoint index s.stream.leastPosition s.stream.position))
      else pure () : Reading Unit) s := rfl
  rw [happly]
  cases s.stream.canReturnTo index <;> rfl

theorem nextCell_total (h : s.Ready) (hs : s.Whole) (hu : s.stream.locked = false) :
    ∃ c t, nextCell s = (.ok c, t) := by
  obtain ⟨t, hfill⟩ := fillTo_total h hs 0
  simp only [nextCell, bind_eq_ok, get_eq_ok, set_eq_ok, pure_eq_ok]
  exact ⟨_, _, ⟨⟩, s, checkUnlocked_total hu, ⟨⟩, t, hfill, t, t, ⟨rfl, rfl⟩, ⟨⟩, _, rfl, rfl, rfl⟩

end Source

namespace PlainCursor

open Fallible Source

/-- The reader of a stream stands at a place in a list. -/
structure Describes (trees : List TokenTree) (s : Source) (c : PlainCursor) : Prop where
  ready : s.Ready
  whole : s.Whole
  unlocked : s.stream.locked = false
  line : s.line.trees = trees.drop s.stream.discarded
  discarded : s.stream.discarded ≤ trees.length
  position : s.stream.position = c.position
  least : s.stream.leastPosition = c.least
  ordered : c.least ≤ c.position
  root : s.stream.anchor = c.root
  current : s.stream.hasCurrent = (!c.ended && decide (0 < c.position))

namespace Describes

variable {trees : List TokenTree} {s s' : Source} {c c' : PlainCursor}

theorem upcoming (h : c.Describes trees s) : s.upcoming = trees.drop c.position := by
  rw [Source.upcoming, h.line, List.drop_drop, ← h.position, Cursor.position]

/-- The token that is `n` places ahead. -/
theorem getElem? (h : c.Describes trees s) (n : Nat) :
    s.upcoming[n]?.map TokenTree.token = (trees.map TokenTree.token)[c.position + n]? := by
  rw [h.upcoming, List.getElem?_drop, List.getElem?_map]

theorem position_le (h : c.Describes trees s) : c.position ≤ trees.length := by
  obtain ⟨more, hmore⟩ := s.trees_line
  have hlength := congrArg List.length (h.line.symm.trans hmore)
  have hdiscarded := h.discarded
  rw [← h.position, Cursor.position]
  simp only [List.length_drop, List.length_append, List.length_map, Stream.known,
    List.length_reverse] at hlength
  omega

/-- The latest consumed token is the one before the position. -/
theorem getElem?_behind {cell : Cell} {rest : List Cell} (h : c.Describes trees s)
    (hb : s.stream.behind = cell :: rest) :
    (trees.map TokenTree.token)[c.position - 1]? = some cell.token := by
  obtain ⟨more, hmore⟩ := s.trees_line
  have hposition := h.position
  rw [h.line, Stream.known, hb] at hmore
  rw [Cursor.position, hb, List.length_cons] at hposition
  have hget : (trees.drop s.stream.discarded)[rest.length]? = some (s.treeOf cell) := by
    rw [hmore]
    simp
  rw [List.getElem?_drop] at hget
  rw [List.getElem?_map, ← hposition, Nat.add_succ_sub_one, hget, Option.map_some, token_treeOf]

/-- A stream that retains nothing has consumed nothing. -/
theorem position_of_nil (h : c.Describes trees s) (hb : s.stream.behind = []) :
    c.position = 0 := by
  have hposition := h.position
  have hordered := h.ordered
  rw [← h.least, Cursor.leastPosition] at hordered
  rw [Cursor.position, hb, List.length_nil] at hposition
  split at hordered <;> omega

theorem current_eq (h : c.Describes trees s) :
    s.stream.current.map Cell.token = c.current (trees.map TokenTree.token) := by
  rw [Cursor.current, PlainCursor.current, h.current]
  cases c.ended with
  | true => rfl
  | false =>
      cases hb : s.stream.behind with
      | nil =>
          rw [h.position_of_nil hb]
          rfl
      | cons cell rest =>
          have hget := h.getElem?_behind hb
          have hposition : c.position = s.stream.discarded + rest.length + 1 := by
            rw [← h.position, Cursor.position, hb, List.length_cons, Nat.add_assoc]
          rw [hposition] at hget ⊢
          exact hget.symm

theorem view_eq (h : c.Describes trees s) : s.view = c.view trees := by
  rw [Source.view, PlainCursor.view, h.current_eq, h.position, h.least, h.root, h.upcoming]

/-- Reading moves the place and nothing else. -/
theorem move (h : c.Describes trees s) (keeps : s.Keeps s')
    (position : s'.stream.position = c'.position) (least : c'.least = c.least)
    (ordered : c'.least ≤ c'.position) (root : s'.stream.anchor = c'.root)
    (current : s'.stream.hasCurrent = (!c'.ended && decide (0 < c'.position))) :
    c'.Describes trees s' where
  ready := keeps.ready
  whole := keeps.whole h.whole
  unlocked := keeps.locked.trans h.unlocked
  line := by rw [keeps.line, keeps.discarded, h.line]
  discarded := by rw [keeps.discarded]; exact h.discarded
  position := position
  least := by rw [least, ← h.least, Cursor.leastPosition, Cursor.leastPosition, keeps.discarded]
  ordered := ordered
  root := root
  current := current

/-- Looking ahead does not move. -/
theorem stay (h : c.Describes trees s) (keeps : s.Keeps s')
    (place : s'.stream.place = s.stream.place) : c.Describes trees s' :=
  h.move keeps ((position_of_place place).trans h.position) rfl h.ordered
    ((congrArg Place.anchor place).trans h.root) ((congrArg Place.hasCurrent place).trans h.current)

theorem peek (h : c.Describes trees s) (n : Nat) :
    ∃ t, Source.peek n s = (.ok (trees.map TokenTree.token)[c.position + n]?, t) ∧
      c.Describes trees t := by
  obtain ⟨t, hpeek, keeps, place⟩ := peek_total h.ready h.whole n
  rw [h.getElem?] at hpeek
  exact ⟨t, hpeek, h.stay keeps place⟩

theorem next (h : c.Describes trees s) :
    ∃ t, Source.next s = (.ok (trees.map TokenTree.token)[c.position]?, t) ∧
      (c.pass (trees.map TokenTree.token)).Describes trees t := by
  obtain ⟨item, t, hnext⟩ := nextCell_total h.ready h.whole h.unlocked
  have htoken : Source.next s = (.ok (item.map Cell.token), t) := by
    rw [Source.next, bind_of_ok hnext]
    rfl
  have hhead := (next_ok h.ready htoken).2.2.1
  rw [List.head?_eq_getElem?, h.getElem?, Nat.add_zero] at hhead
  refine ⟨t, by rw [htoken, hhead], ?_⟩
  obtain ⟨u, hfill, -, hcases⟩ := nextCell_ok hnext
  obtain ⟨-, place, -⟩ := fillTo_ok h.ready hfill
  have hanchor : u.stream.anchor = c.root := (congrArg Place.anchor place).trans h.root
  obtain ⟨cell, rest, ha, rfl, rfl⟩ | ⟨ha, rfl, rfl⟩ := hcases
  · obtain ⟨keeps, position, -⟩ := nextCell_some h.ready hnext
    have hlt : c.position < (trees.map TokenTree.token).length := by
      by_contra hge
      rw [List.getElem?_eq_none (Nat.le_of_not_lt hge)] at hhead
      cases hhead
    rw [pass, if_pos hlt]
    refine h.move keeps (by rw [position, h.position]) rfl (Nat.le_succ_of_le h.ordered) hanchor ?_
    simp [stepOver]
  · obtain ⟨keeps, position, -⟩ := nextCell_none h.ready hnext
    have hge : ¬ c.position < (trees.map TokenTree.token).length := by
      intro hlt
      rw [List.getElem?_eq_getElem hlt] at hhead
      cases hhead
    rw [pass, if_neg hge]
    refine h.move keeps (position.trans h.position) rfl h.ordered ?_ ?_
    · simp [Cursor.step, ha, hanchor]
    · simp [Cursor.step, ha]

theorem lookingAt (h : c.Describes trees s) (n : Nat) (kind : TokenKind) (value : Option String) :
    ∃ t, Source.lookingAt n kind value s =
        (.ok ((trees.map TokenTree.token)[c.position + n]?.any (·.is kind value)), t) ∧
      c.Describes trees t := by
  obtain ⟨t, hpeek, ht⟩ := h.peek n
  refine ⟨t, ?_, ht⟩
  rw [Source.lookingAt, bind_of_ok hpeek]
  rfl

theorem eat_of_match (h : c.Describes trees s) {kind : TokenKind} {value : Option String}
    (hany : (trees.map TokenTree.token)[c.position]?.any (·.is kind value) = true) :
    ∃ t, Source.eat kind value s = (.ok (trees.map TokenTree.token)[c.position]?, t) ∧
      (c.pass (trees.map TokenTree.token)).Describes trees t := by
  obtain ⟨t, hlook, ht⟩ := h.lookingAt 0 kind value
  obtain ⟨u, hnext, hu⟩ := ht.next
  rw [Nat.add_zero, hany] at hlook
  exact ⟨u, (bind_of_ok hlook).trans hnext, hu⟩

/-- A token that does not match stays where it is. -/
theorem eat_of_mismatch (h : c.Describes trees s) {kind : TokenKind} {value : Option String}
    (hany : ¬ (trees.map TokenTree.token)[c.position]?.any (·.is kind value) = true) :
    ∃ t, Source.eat kind value s = (.ok none, t) ∧ c.Describes trees t := by
  obtain ⟨t, hlook, ht⟩ := h.lookingAt 0 kind value
  rw [Nat.add_zero, eq_false_of_ne_true hany] at hlook
  exact ⟨t, bind_of_ok hlook, ht⟩

theorem expect_of_match (h : c.Describes trees s) {kind : TokenKind} {value : Option String}
    {token : Token} (hget : (trees.map TokenTree.token)[c.position]? = some token)
    (his : token.is kind value = true) :
    ∃ t, Source.expect kind value s = (.ok token, t) ∧
      (c.pass (trees.map TokenTree.token)).Describes trees t := by
  obtain ⟨t, heat, ht⟩ := h.eat_of_match (by rw [hget]; exact his)
  rw [hget] at heat
  exact ⟨t, bind_of_ok heat, ht⟩

theorem expect_of_mismatch (h : c.Describes trees s) {kind : TokenKind} {value : Option String}
    (hany : ¬ (trees.map TokenTree.token)[c.position]?.any (·.is kind value) = true) :
    ∃ t, Source.expect kind value s =
        (.error (c.complaint (trees.map TokenTree.token) kind value), t) ∧
      c.Describes trees t := by
  obtain ⟨t, heat, ht⟩ := h.eat_of_mismatch hany
  obtain ⟨u, hpeek, hu⟩ := ht.peek 0
  refine ⟨u, ?_, hu⟩
  refine (bind_of_ok heat).trans ((bind_of_ok hpeek).trans ?_)
  cases value <;> rfl

theorem isExhausted (h : c.Describes trees s) :
    ∃ t, Source.isExhausted s = (.ok (decide (trees.length ≤ c.position)), t) ∧
      c.Describes trees t := by
  obtain ⟨t, hpeek, ht⟩ := h.peek 0
  refine ⟨t, ?_, ht⟩
  rw [Source.isExhausted, bind_of_ok hpeek]
  by_cases hle : trees.length ≤ c.position
  · rw [List.getElem?_eq_none (by simpa using hle), decide_eq_true hle]
    rfl
  · rw [List.getElem?_eq_getElem (by simpa using hle), decide_eq_false hle]
    rfl

theorem savepoint (h : c.Describes trees s) :
    ∃ t, Source.savepoint s = (.ok c.position, t) ∧
      { c with root := c.root.or (some c.position) }.Describes trees t := by
  have hsave : Source.savepoint s = (.ok s.stream.position, { s with stream := { s.stream with
      anchor := s.stream.anchor.or (some s.stream.position) } }) := by
    rw [Source.savepoint, bind_of_ok (checkUnlocked_total h.unlocked)]
    rfl
  refine ⟨_, hsave.trans (congrArg (fun index => (Except.ok index, _)) h.position), ?_⟩
  obtain ⟨keeps, position, -⟩ := savepoint_ok h.ready hsave
  refine h.move keeps (position.trans h.position) rfl h.ordered ?_ h.current
  rw [← h.root, ← h.position]

theorem canReturnTo (h : c.Describes trees s) (index : Nat) :
    s.stream.canReturnTo index = c.reaches index := by
  rw [Cursor.canReturnTo, reaches, h.least, h.position]

theorem checkIndex (h : c.Describes trees s) (index : Nat) : Source.checkIndex index s =
    (if c.reaches index then .ok () else .error (c.refusal index), s) := by
  rw [checkIndex_eq, h.canReturnTo, h.least, h.position]
  rfl

theorem restore (h : c.Describes trees s) {index : Nat} (hi : c.reaches index = true) :
    ∃ t, Source.restore index s = (.ok (), t) ∧
      { c with position := index, ended := false }.Describes trees t := by
  have hcheck := h.checkIndex index
  rw [if_pos hi] at hcheck
  have hrestore : Source.restore index s =
      (.ok (), { s with stream := s.stream.backUp Cell.rewound index }) := by
    rw [Source.restore, bind_of_ok (checkUnlocked_total h.unlocked), bind_of_ok hcheck]
    rfl
  refine ⟨_, hrestore, ?_⟩
  obtain ⟨keeps, position⟩ := restore_ok h.ready hrestore
  have hbounds := hi
  rw [← h.canReturnTo, Cursor.canReturnTo] at hbounds
  simp only [Bool.and_eq_true, decide_eq_true_eq] at hbounds
  refine h.move keeps position rfl ?_ h.root ?_
  · rw [← h.least]
    exact hbounds.1
  · -- The oldest position that can be returned to has a token before it, unless it is the first.
    have hlength : (s.stream.behind.drop (s.stream.position - index)).length =
        index - s.stream.discarded := by
      have hposition : s.stream.position = s.stream.discarded + s.stream.behind.length := rfl
      rw [List.length_drop]
      omega
    have hleast := hbounds.1
    rw [Cursor.leastPosition] at hleast
    change (!(s.stream.behind.drop (s.stream.position - index)).isEmpty) = _
    rw [Bool.eq_iff_iff]
    simp only [Bool.not_eq_true', List.isEmpty_eq_false_iff, ← List.length_pos_iff, hlength,
      Bool.not_false, Bool.true_and, decide_eq_true_eq]
    split at hleast <;> omega

/-- A commit that is accepted has its tokens still at hand. -/
theorem bounds (h : c.Describes trees s) {index : Nat} (hi : c.reaches index = true) :
    s.stream.discarded ≤ index ∧ index ≤ s.stream.position :=
  bounds_of_canReturnTo (h.canReturnTo index ▸ hi)

theorem release (h : c.Describes trees s) {index : Nat} (hi : c.reaches index = true) :
    { c with root := none, least := if 2 ≤ index then index else c.least }.Describes trees
      { s with stream := s.stream.release index } := by
  have hreturn : s.stream.canReturnTo index = true := h.canReturnTo index ▸ hi
  have hline : Source.line { s with stream := s.stream.release index } =
      ⟨s.line.trees.drop (index - s.stream.discarded - 1), s.line.ending⟩ :=
    Stream.line_release hreturn
  obtain ⟨hleast, hmost⟩ : c.least ≤ index ∧ index ≤ c.position := by
    simpa [reaches] using hi
  have hposition : s.stream.discarded + s.stream.behind.length = c.position := h.position
  have hdiscarded := h.least
  rw [Cursor.leastPosition] at hdiscarded
  have hwithin := h.position_le
  obtain ⟨rest, hrest⟩ := h.whole
  refine ⟨ready_release h.ready hreturn, ⟨rest, ?_⟩, h.unlocked, ?_, ?_, ?_, ?_, ?_, rfl, h.current⟩
  · rw [hline, hrest]
  · rw [hline, h.line, List.drop_drop]
    rfl
  · simp only [Cursor.release]
    split at hdiscarded <;> omega
  · simp only [Cursor.release, Cursor.position, List.length_take]
    split at hdiscarded <;> omega
  · change (if s.stream.discarded + (index - s.stream.discarded - 1) = 0 then 0
      else s.stream.discarded + (index - s.stream.discarded - 1) + 1) =
        if 2 ≤ index then index else c.least
    by_cases hzero : s.stream.discarded = 0
    · by_cases htwo : 2 ≤ index
      · rw [if_neg (by omega), if_pos htwo]
        omega
      · rw [if_pos (by omega), if_neg htwo, ← hdiscarded, if_pos hzero]
    · rw [if_neg hzero] at hdiscarded
      rw [if_neg (by omega), if_pos (by omega)]
      omega
  · dsimp only
    split <;> omega

theorem commit (h : c.Describes trees s) {index : Nat} (hi : c.reaches index = true) :
    ∃ t, Source.commit index s = (.ok (), t) ∧ (c.settle index).Describes trees t := by
  have hcheck := h.checkIndex index
  rw [if_pos hi] at hcheck
  have hcommit : Source.commit index s = (.ok (), if s.stream.anchor = some index then
      { s with stream := s.stream.release index } else s) := by
    rw [Source.commit, bind_of_ok (checkUnlocked_total h.unlocked), bind_of_ok hcheck]
    rfl
  refine ⟨_, hcommit, ?_⟩
  rw [h.root, settle]
  split
  · exact h.release hi
  · exact h

/-- A position that cannot be returned to is refused, and nothing changes. -/
theorem refused (h : c.Describes trees s) {index : Nat} (hi : ¬ c.reaches index = true) :
    Source.restore index s = (.error (c.refusal index), s) ∧
      Source.commit index s = (.error (c.refusal index), s) := by
  have hcheck := h.checkIndex index
  rw [if_neg hi] at hcheck
  have hunlocked := checkUnlocked_total h.unlocked
  constructor
  · rw [Source.restore, bind_of_ok hunlocked, bind_of_error hcheck]
  · rw [Source.commit, bind_of_ok hunlocked, bind_of_error hcheck]

theorem collectUpTo (h : c.Describes trees s) {fuel : Nat}
    (hfuel : trees.length < c.position + fuel) :
    ∃ t, Source.collectUpTo fuel s = (.ok ((trees.map TokenTree.token).drop c.position), t) ∧
      { c with position := trees.length, ended := true }.Describes trees t := by
  induction fuel generalizing s c with
  | zero => exact absurd h.position_le (Nat.not_le_of_lt hfuel)
  | succ fuel ih =>
      obtain ⟨t, hnext, ht⟩ := h.next
      rw [Source.collectUpTo, bind_of_ok hnext]
      by_cases hlt : c.position < (trees.map TokenTree.token).length
      · have hdrop := List.drop_eq_getElem_cons hlt
        rw [pass, if_pos hlt] at ht
        obtain ⟨u, hrest, hu⟩ := ih ht (by dsimp only; omega)
        refine ⟨u, ?_, hu⟩
        rw [List.getElem?_eq_getElem hlt, hdrop]
        dsimp only
        rw [bind_of_ok hrest]
        rfl
      · have hposition : c.position = trees.length :=
          Nat.le_antisymm h.position_le (by simpa using hlt)
        rw [pass, if_neg hlt] at ht
        refine ⟨t, ?_, hposition ▸ ht⟩
        rw [List.getElem?_eq_none (Nat.le_of_not_lt hlt), List.drop_of_length_le (Nat.le_of_not_lt hlt)]
        rfl

theorem collect (h : c.Describes trees s) :
    ∃ t, Source.collect s = (.ok ((trees.map TokenTree.token).drop c.position), t) ∧
      { c with position := trees.length, ended := true }.Describes trees t := by
  have hlength := length_upcoming_le h.ready
  rw [h.upcoming, List.length_drop] at hlength
  exact h.collectUpTo (by omega)

/-- A stream replies as a place in a list does, and stands at that place afterwards. -/
theorem run (h : c.Describes trees s) (r : Request) :
    ∃ t, r.run s = ((c.answer (trees.map TokenTree.token) r).1, t) ∧
      (c.answer (trees.map TokenTree.token) r).2.Describes trees t := by
  cases r with
  | next =>
      obtain ⟨t, hnext, ht⟩ := h.next
      exact ⟨t, bind_of_ok hnext, ht⟩
  | peek n =>
      obtain ⟨t, hpeek, ht⟩ := h.peek n
      exact ⟨t, bind_of_ok hpeek, ht⟩
  | lookingAt n kind value =>
      obtain ⟨t, hlook, ht⟩ := h.lookingAt n kind value
      exact ⟨t, bind_of_ok hlook, ht⟩
  | eat kind value =>
      rw [answer]
      split
      next hany =>
        obtain ⟨t, heat, ht⟩ := h.eat_of_match hany
        exact ⟨t, bind_of_ok heat, ht⟩
      next hany =>
        obtain ⟨t, heat, ht⟩ := h.eat_of_mismatch hany
        exact ⟨t, bind_of_ok heat, ht⟩
  | expect kind value =>
      rw [answer]
      split
      next hany =>
        cases hget : (trees.map TokenTree.token)[c.position]? with
        | none =>
            rw [hget] at hany
            cases hany
        | some token =>
            rw [hget] at hany
            obtain ⟨t, hexpect, ht⟩ := h.expect_of_match hget hany
            exact ⟨t, bind_of_ok hexpect, ht⟩
      next hany =>
        obtain ⟨t, hexpect, ht⟩ := h.expect_of_mismatch hany
        exact ⟨t, bind_of_error hexpect, ht⟩
  | savepoint =>
      obtain ⟨t, hsave, ht⟩ := h.savepoint
      exact ⟨t, bind_of_ok hsave, ht⟩
  | restore index =>
      rw [answer]
      split
      next hi =>
        obtain ⟨t, hrestore, ht⟩ := h.restore hi
        exact ⟨t, bind_of_ok hrestore, ht⟩
      next hi => exact ⟨s, bind_of_error (h.refused hi).1, h⟩
  | commit index =>
      rw [answer]
      split
      next hi =>
        obtain ⟨t, hcommit, ht⟩ := h.commit hi
        exact ⟨t, bind_of_ok hcommit, ht⟩
      next hi => exact ⟨s, bind_of_error (h.refused hi).2, h⟩
  | isExhausted =>
      obtain ⟨t, hexhausted, ht⟩ := h.isExhausted
      rw [answer, List.length_map]
      exact ⟨t, bind_of_ok hexhausted, ht⟩
  | collect =>
      obtain ⟨t, hcollect, ht⟩ := h.collect
      rw [answer, List.length_map]
      exact ⟨t, bind_of_ok hcollect, ht⟩

end Describes

/-- A request that fails does not move the place. -/
theorem answer_error {tokens : List Token} {c : PlainCursor} {r : Request} {e : Error}
    (h : (c.answer tokens r).1 = .error e) : (c.answer tokens r).2 = c := by
  cases r with
  | next | peek | lookingAt | savepoint | isExhausted | collect => cases h
  | eat kind value | expect kind value | restore index | commit index =>
      simp only [answer] at h ⊢
      split at h
      next => cases h
      next hneg => rw [if_neg hneg]

/-- A token that is not eaten does not move the place. -/
theorem answer_eat_none {tokens : List Token} {c : PlainCursor} {kind : TokenKind}
    {value : Option String} (h : (c.answer tokens (.eat kind value)).1 = .ok (.token none)) :
    (c.answer tokens (.eat kind value)).2 = c := by
  simp only [answer] at h ⊢
  split at h
  next hany =>
    have hnone : tokens[c.position]? = none := by simpa using h
    rw [hnone] at hany
    cases hany
  next hneg => rw [if_neg hneg]

variable {trees : List TokenTree} {s : Source} {c : PlainCursor}

/-- Any number of requests is answered as by a place in a list, which is where
the stream stands after them. -/
theorem Describes.trace (h : c.Describes trees s) (requests : List Request) :
    (s.trace requests).1 = c.trace trees requests ∧
      ∃ d : PlainCursor, d.Describes trees (s.trace requests).2 := by
  induction requests generalizing s c with
  | nil => exact ⟨rfl, c, h⟩
  | cons r rest ih =>
      obtain ⟨t, hrun, ht⟩ := h.run r
      obtain ⟨hseen, d, hd⟩ := ih ht
      simp only [Source.trace, PlainCursor.trace, hrun]
      exact ⟨by rw [hseen, ht.view_eq], d, hd⟩

end PlainCursor

namespace Source

/-- A source that nobody has read from, whose run brings all of its level. -/
structure Fresh (s : Source) : Prop where
  ready : s.Ready
  whole : s.Whole
  unlocked : s.stream.locked = false
  behind : s.stream.behind = []
  discarded : s.stream.discarded = 0
  anchor : s.stream.anchor = none
  current : s.stream.hasCurrent = false

variable {s : Source}

theorem Fresh.describes (h : s.Fresh) : ({} : PlainCursor).Describes s.upcoming s where
  ready := h.ready
  whole := h.whole
  unlocked := h.unlocked
  line := by rw [upcoming, h.behind, h.discarded, List.length_nil, List.drop_zero, List.drop_zero]
  discarded := by rw [h.discarded]; exact Nat.zero_le _
  position := by rw [Cursor.position, h.discarded, h.behind]; rfl
  least := by rw [Cursor.leastPosition, h.discarded]; rfl
  ordered := Nat.le_refl _
  root := h.anchor
  current := h.current

mutual

theorem tree_toCell (last : Option LexError) (q : Queue) :
    (t : TokenTree) → t.toCell.tree last q = t
  | .leaf t => rfl
  | .block t contents => by
      rw [TokenTree.toCell, Cell.tree, Stream.line_of_shut rfl]
      exact congrArg (TokenTree.block t) (trees_toCells last q contents)

theorem trees_toCells (last : Option LexError) (q : Queue) :
    (ts : List TokenTree) → (TokenTree.toCells ts).map (Cell.tree last q) = ts
  | [] => rfl
  | t :: ts => by
      rw [TokenTree.toCells, List.map_cons, tree_toCell last q t, trees_toCells last q ts]

end

/-- Every list of trees is what some source has to give. -/
theorem fresh_ofTrees (trees : List TokenTree) :
    Fresh { stream := .ofCells (TokenTree.toCells trees) } ∧
      upcoming { stream := .ofCells (TokenTree.toCells trees) } = trees := by
  have hline : line { stream := .ofCells (TokenTree.toCells trees) } = ⟨trees, .ok []⟩ := by
    rw [line, Stream.line_of_shut rfl]
    exact congrArg (Span.mk · (.ok [])) (trees_toCells none [] trees)
  refine ⟨⟨ready_ofCells trees, ⟨[], by rw [hline]⟩, rfl, rfl, rfl, rfl, rfl⟩, ?_⟩
  rw [upcoming, hline]
  rfl

/-- A reader cannot tell a stream from a place in the list of what it has to
give. What is refused changes nothing, and a commit that is accepted is for a
position from which tokens are still retained. -/
theorem trace_eq_plain (s : Source) (h : s.Fresh) (requests : List Request) :
    (s.trace requests).1 = PlainCursor.trace s.upcoming requests {} ∧
    ∀ t, t = (s.trace requests).2 →
      (∀ (r : Request) e t', r.run t = (.error e, t') → t'.view = t.view) ∧
      (∀ kind value t', (Request.eat kind value).run t = (.ok (.token none), t') →
        t'.view = t.view) ∧
      ∀ index t', (Request.commit index).run t = (.ok .done, t') →
        t.stream.discarded ≤ index ∧ index ≤ t.stream.position := by
  obtain ⟨hseen, c, hc⟩ := h.describes.trace requests
  refine ⟨hseen, ?_⟩
  rintro t rfl
  refine ⟨fun r e t' hr => ?_, fun kind value t' hr => ?_, fun index t' hr => ?_⟩
  · obtain ⟨u, hrun, hu⟩ := hc.run r
    obtain ⟨hanswer, rfl⟩ := Prod.mk.inj (hrun.symm.trans hr)
    rw [hu.view_eq, hc.view_eq, PlainCursor.answer_error hanswer]
  · obtain ⟨u, hrun, hu⟩ := hc.run (.eat kind value)
    obtain ⟨hanswer, rfl⟩ := Prod.mk.inj (hrun.symm.trans hr)
    rw [hu.view_eq, hc.view_eq, PlainCursor.answer_eat_none hanswer]
  · obtain ⟨u, hrun, hu⟩ := hc.run (.commit index)
    obtain ⟨hanswer, -⟩ := Prod.mk.inj (hrun.symm.trans hr)
    by_cases hi : c.reaches index = true
    · exact hc.bounds hi
    · rw [PlainCursor.answer, if_neg hi] at hanswer
      cases hanswer

/-- A word. -/
def word (value : String) : TokenTree :=
  .leaf { kind := .identifier, value, position := .start }

/-- After the end was met and the first word was given up, one cannot return to
the start, but to the position that was committed. -/
theorem words_read_plainly :
    let s : Source := { stream := .ofCells (TokenTree.toCells [word "a", word "b", word "c"]) }
    let requests : List Request := [.next, .next, .savepoint, .collect, .commit 2, .restore 1,
      .eat .keyword none, .restore 2, .next]
    s.Fresh ∧ (s.trace requests).1 = PlainCursor.trace s.upcoming requests {} ∧
      (PlainCursor.trace s.upcoming requests {}).map (·.2.position) =
        [1, 2, 2, 3, 3, 3, 3, 2, 3] := by
  intro s requests
  obtain ⟨hfresh, hupcoming⟩ := fresh_ofTrees [word "a", word "b", word "c"]
  refine ⟨hfresh, (trace_eq_plain s hfresh requests).1, ?_⟩
  rw [hupcoming]
  decide

end Source

end DualSql
