import DualSql.Stream.Source

/-! # Token trees

The tokens of a text with its brackets resolved: a block is the token of its
opening bracket and the trees between the brackets.

Main definitions: `TokenTree.ofEvents`, which builds the trees of a lexing run
at once, and `TokenTree.readAll`, which reads them through a stream. -/

namespace DualSql

/-- A token, or a block with the trees in it. -/
inductive TokenTree where
  | leaf (token : Token)
  | block (token : Token) (contents : List TokenTree)
  deriving Repr

namespace TokenTree

/-- The token that stands for the tree. -/
def token : TokenTree → Token
  | leaf t => t
  | block t _ => t

mutual

/-- The cell that delivers a tree. -/
def toCell : TokenTree → Cell
  | leaf t => .leaf t
  | block t contents => .block t (Stream.ofCells (toCells contents))

/-- The cells that deliver trees. -/
def toCells : List TokenTree → List Cell
  | [] => []
  | tree :: rest => tree.toCell :: toCells rest

end

/-- A level of nesting while trees are built: the bracket that opened it and
its trees so far, the latest first. -/
structure Level where
  opening : Token
  trees : List TokenTree

/-- The trees of the events up to the end, given the present level and those
around it. -/
def build (here : List TokenTree) (around : List Level) : List Event → List TokenTree
  | [] => here.reverse
  | .token t :: rest => build (leaf t :: here) around rest
  | .opened b position spaceBefore :: rest =>
    build [] (⟨Token.ofBracket b position spaceBefore, here⟩ :: around) rest
  | .closed .. :: rest =>
    match around with
    | level :: levels => build (block level.opening here.reverse :: level.trees) levels rest
    | [] => build here [] rest

/-- The trees of the events of a complete run. -/
def ofEvents (events : List Event) : List TokenTree :=
  build [] [] events

/-- Reads up to `fuel` items with their contents. An error ends the reading,
and what was read before it is kept. -/
def readUpTo : Nat → Source → (List TokenTree × Option Error) × Source
  | 0, s => (([], none), s)
  | fuel + 1, s =>
    match Source.nextCell.run.run s with
    | (.error e, s) => (([], some e), s)
    | (.ok none, s) => (([], none), s)
    | (.ok (some (.leaf t)), s) =>
      let ((trees, error), s) := readUpTo fuel s
      ((leaf t :: trees, error), s)
    | (.ok (some (.block t contents)), s) =>
      let ((inner, error), inside) := readUpTo fuel { s with stream := contents }
      let s := { s with feed := inside.feed }.setCurrentContents inside.stream
      match error with
      | some e => (([block t inner], some e), s)
      | none =>
        let ((trees, error), s) := readUpTo fuel s
        ((block t inner :: trees, error), s)

/-- Reads everything with its contents, the contents of each block before what
follows it. The bound covers one step for each event and each level. -/
def readAll (s : Source) : List TokenTree × Option Error :=
  (readUpTo (s.feed.queue.length + 2) s).1

end TokenTree

/-- The tree of everything that is known or was given of a cell. -/
def Cell.toTree : Cell → TokenTree
  | leaf t => .leaf t
  | block t s =>
    .block t ((s.behind.reverse ++ s.ahead ++ s.unseen).attach.map fun ⟨c, _⟩ => c.toTree)
termination_by c => sizeOf c
decreasing_by
  rename_i h
  simp only [List.mem_append, List.mem_reverse] at h
  cases s
  rcases h with (h | h) | h <;>
  · have := List.sizeOf_lt_of_mem h
    simp at this ⊢
    omega

/-- The number of tokens, trivia apart, that are known or were given of a cell. -/
def Cell.weight : Cell → Nat
  | leaf t => if t.kind.isTrivia then 0 else 1
  | block _ s =>
    1 + (s.behind ++ s.ahead ++ s.unseen).attach.foldr (fun ⟨c, _⟩ total => c.weight + total) 0
termination_by c => sizeOf c
decreasing_by
  rename_i h
  simp only [List.mem_append] at h
  cases s
  rcases h with (h | h) | h <;>
  · have := List.sizeOf_lt_of_mem h
    simp at this ⊢
    omega

/-- The number of tokens, trivia apart, that an event adds. -/
def Event.weight : Event → Nat
  | .token t => if t.kind.isTrivia then 0 else 1
  | .opened .. => 1
  | .closed .. => 0

/-- The number of tokens, trivia apart, that a run brings before an error is met. -/
def Feed.weightOf : List (Except LexError Event) → Nat
  | .ok e :: rest => e.weight + weightOf rest
  | _ => 0

namespace Source

/-- A bound on the number of tokens, trivia apart, that can be consumed, blocks
included. -/
def weight (s : Source) : Nat :=
  Feed.weightOf s.feed.queue +
    (s.stream.behind ++ s.stream.ahead ++ s.stream.unseen).foldr
      (fun c total => c.weight + total) 0

/-- Makes one more item known and gives its token, without consuming it. -/
def iterate (s : Source) : Option (Except LexError Token) × Source :=
  let known := s.stream.ahead.length
  let (result, stream, queue) := s.stream.drawTo known s.feed.last s.feed.queue
  let s := { s with stream, feed := { s.feed with queue } }
  match result with
  | .error e => (some (.error e), s)
  | .ok () => ((stream.ahead[known]?).map fun c => .ok c.token, s)

/-- Iterates over at most `fuel` tokens, up to the end or the first error. -/
def iterateUpTo : Nat → Source → (List Token × Option LexError) × Source
  | 0, s => (([], none), s)
  | fuel + 1, s =>
    match s.iterate with
    | (none, s) => (([], none), s)
    | (some (.error e), s) => (([], some e), s)
    | (some (.ok t), s) =>
      let ((tokens, error), s) := iterateUpTo fuel s
      ((t :: tokens, error), s)

/-- The tokens of the outermost level, up to the end or the first error, and
the source with their blocks filled. -/
def iterateAll (s : Source) : (List Token × Option LexError) × Source :=
  iterateUpTo (s.feed.queue.length + 1) s

end Source

/-- The token of an event when brackets are punctuation. -/
def Event.flat : Event → Token
  | .token t => t
  | .opened b position spaceBefore =>
    { kind := .punctuation, value := b.opener.toString, position, spaceBefore }
  | .closed b position => { kind := .punctuation, value := b.closer.toString, position }

end DualSql
