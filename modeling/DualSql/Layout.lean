import DualSql.Error

/-! # Layout

What is written for a tree, before it is broken into lines: the lexemes in
their order, with marks for where blanks are left out and where lines may
begin. Blanks between lexemes are decided by the characters on both sides.

Main definitions: `Layout.lexemes`, the pieces of text that are written,
`Layout.toText`, the text with its blanks and line breaks, and `Layout.print`,
which fails if a line cannot be indented as far as it should. -/

namespace DualSql

/-- The letter case of keywords. -/
inductive KeywordCase where
  | upper
  | lower
  deriving DecidableEq, Repr

/-- The choices in writing a tree. -/
structure FormatOptions where
  /-- One clause a line, with long lists broken up. -/
  pretty : Bool := false
  /-- The number of blanks a level, in a machine word. -/
  indentWidth : UInt64 := 4
  /-- The width in bytes past which a list is broken up. -/
  lineWidth : Nat := 80
  /-- Leaves out brackets that change nothing. -/
  minimalParens : Bool := false
  keywordCase : KeywordCase := .upper
  deriving DecidableEq, Repr

/-- What is written for a tree. -/
inductive Layout where
  /-- A piece of text that is kept together. -/
  | lexeme (text : String)
  /-- No blank before the next lexeme. -/
  | tight
  /-- A new line in the pretty form. -/
  | line
  /-- A part that is indented in the pretty form. -/
  | nested (body : Layout)
  | sequence (parts : List Layout)
  /-- Items with a separator between them. In the pretty form they stand on
  lines of their own if `eachOnLine` holds or a single line is too short for
  them; otherwise `tightFirst` holds the first one to what is before it. -/
  | list (eachOnLine tightFirst : Bool) (separator : Option String) (items : List Layout)
  deriving Repr

/-- A text that is being written. -/
structure Writer where
  /-- The characters so far, the latest first. -/
  written : List Char := []
  /-- The number of bytes since the line began. -/
  column : Nat := 0
  /-- The level of indentation of the next line. -/
  level : Nat := 0
  /-- Whether a line was begun and nothing is written on it. -/
  atLineStart : Bool := false
  /-- Whether the blank before the next lexeme is left out. -/
  tight : Bool := false
  /-- Whether a line was to be indented by more blanks than there can be. -/
  failed : Bool := false
  deriving DecidableEq, Repr

namespace Writer

/-- The greatest number of blanks that a line can be indented by. -/
def greatestIndentation : Nat := 0x7FFFFFFFFFFFFFFF

/-- The blanks that a line at a level is indented by, if there can be so many.
They are counted in a machine word, beyond which the product wraps around.
Memory for them is assumed. -/
def indentation? (level : Nat) (indentWidth : UInt64) : Option Nat :=
  let count := (UInt64.ofNat level * indentWidth).toNat
  if count ≤ greatestIndentation then some count else none

/-- Whether two characters together would begin a comment. -/
def startsComment (last first : Char) : Bool :=
  (last == '-' && first == '-') || (last == '/' && first == '*')

/-- Whether a lexeme stands close to what is before it. A number that begins
with its point does not. -/
def hugsBefore (text : List Char) : Bool :=
  match text with
  | [] => true
  | first :: rest =>
    let fraction := first == '.' && (rest.head?.any Char.isDigit)
    !fraction && ([',', ';', ')', ']', '\x7d', '.'].contains first ||
      [':', ':'].isPrefixOf text)

/-- Whether what is written, the latest first, holds the next lexeme close. -/
def hugsAfter (written : List Char) : Bool :=
  written.head?.any ['(', '[', '\x7b', '.'].contains || [':', ':'].isPrefixOf written

/-- Whether a blank is needed between what is written and a lexeme. -/
def needsSpace (written text : List Char) (tight : Bool) : Bool :=
  match written, text with
  | last :: _, first :: _ =>
    startsComment last first || (!tight && !hugsBefore text && !hugsAfter written)
  | _, _ => false

/-- Writes characters. -/
def put (w : Writer) (text : List Char) : Writer :=
  { w with
    written := text.reverse ++ w.written
    column := w.column + text.foldr (fun c total => c.utf8Size + total) 0 }

/-- Writes blanks. -/
def blanks (w : Writer) (count : Nat) : Writer :=
  w.put (List.replicate count ' ')

/-- Begins a line, unless one has just been begun. -/
def newline (w : Writer) : Writer :=
  if w.written.isEmpty || w.atLineStart then w
  else { w with written := '\n' :: w.written, column := 0, atLineStart := true }

/-- Indents a line that was begun, or fails to. -/
def indent (w : Writer) (indentWidth : UInt64) : Writer :=
  match indentation? w.level indentWidth with
  | some count => w.blanks count
  | none => { w with failed := true }

/-- Writes a lexeme with the indentation or the blank before it. -/
def lexeme (w : Writer) (indentWidth : UInt64) (text : String) : Writer :=
  let spaced :=
    if w.atLineStart then w.indent indentWidth
    else if needsSpace w.written text.toList w.tight then w.blanks 1
    else w
  { spaced with atLineStart := false, tight := false }.put text.toList

/-- The text so far. -/
def toText (w : Writer) : String :=
  String.ofList w.written.reverse

end Writer

namespace Layout

/-- Nothing. -/
def empty : Layout :=
  sequence []

/-- A lexeme, with or without the blank before it. -/
def token (text : String) (tight : Bool) : Layout :=
  if tight then sequence [.tight, lexeme text] else lexeme text

mutual

/-- The lexemes in the order in which they are written. -/
def lexemes : Layout → List String
  | lexeme text => [text]
  | tight | line => []
  | nested body => body.lexemes
  | sequence parts => lexemesAll parts
  | list _ _ separator items => lexemesBetween separator true items

/-- The lexemes of several parts. -/
def lexemesAll : List Layout → List String
  | [] => []
  | part :: rest => part.lexemes ++ lexemesAll rest

/-- The lexemes of items, each but the first after a separator. -/
def lexemesBetween (separator : Option String) (first : Bool) : List Layout → List String
  | [] => []
  | item :: rest =>
    (if first then [] else separator.toList) ++ item.lexemes ++
      lexemesBetween separator false rest

end

mutual

/-- Writes on one line, whatever the options. -/
def writeFlat (indentWidth : UInt64) (w : Writer) : Layout → Writer
  | lexeme text => w.lexeme indentWidth text
  | tight => { w with tight := true }
  | line => w
  | nested body => writeFlat indentWidth w body
  | sequence parts => writeFlatAll indentWidth w parts
  | list _ tightFirst separator items =>
    let w := if tightFirst && !items.isEmpty then { w with tight := true } else w
    writeFlatItems indentWidth separator true w items

/-- Writes several parts on one line. -/
def writeFlatAll (indentWidth : UInt64) (w : Writer) : List Layout → Writer
  | [] => w
  | part :: rest => writeFlatAll indentWidth (writeFlat indentWidth w part) rest

/-- Writes items on one line, each but the first after a separator. -/
def writeFlatItems (indentWidth : UInt64) (separator : Option String) (first : Bool) (w : Writer) :
    List Layout → Writer
  | [] => w
  | item :: rest =>
    let w := if first then w else separator.elim w (w.lexeme indentWidth)
    writeFlatItems indentWidth separator false (writeFlat indentWidth w item) rest

end

/-- The width in bytes of items on one line of their own. -/
def flatWidth (indentWidth : UInt64) (separator : Option String) (items : List Layout) : Nat :=
  (writeFlatItems indentWidth separator true {} items).column

mutual

/-- Writes the pretty form. -/
def writePretty (o : FormatOptions) (w : Writer) : Layout → Writer
  | lexeme text => w.lexeme o.indentWidth text
  | tight => { w with tight := true }
  | line => w.newline
  | nested body =>
    { writePretty o { w with level := w.level + 1 } body with level := w.level }
  | sequence parts => writePrettyAll o w parts
  | list eachOnLine tightFirst separator items =>
    if eachOnLine then writePrettyItems o true separator true w items
    else if items.length > 1 &&
        w.column + flatWidth o.indentWidth separator items > o.lineWidth then
      { writePrettyItems o true separator true { w with level := w.level + 1 } items with
        level := w.level }
    else
      let w := if tightFirst && !items.isEmpty then { w with tight := true } else w
      writePrettyItems o false separator true w items

/-- Writes several parts in the pretty form. -/
def writePrettyAll (o : FormatOptions) (w : Writer) : List Layout → Writer
  | [] => w
  | part :: rest => writePrettyAll o (writePretty o w part) rest

/-- Writes items in the pretty form, each but the first after a separator. -/
def writePrettyItems (o : FormatOptions) (onLines : Bool) (separator : Option String)
    (first : Bool) (w : Writer) : List Layout → Writer
  | [] => w
  | item :: rest =>
    let w := if first then w else separator.elim w (w.lexeme o.indentWidth)
    let w := if onLines then w.newline else w
    writePrettyItems o onLines separator false (writePretty o w item) rest

end

/-- Writes a layout, in the pretty form or on one line. -/
def write (o : FormatOptions) (l : Layout) : Writer :=
  if o.pretty then writePretty o {} l else writeFlat o.indentWidth {} l

/-- The text that is written for a tree, if every line can be indented. -/
def toText (o : FormatOptions) (l : Layout) : String :=
  (l.write o).toText

/-- Whether every line can be indented as far as it should. -/
def fits (o : FormatOptions) (l : Layout) : Bool :=
  !(l.write o).failed

/-- Writes the text for a tree, or breaks off at a line that is too wide. -/
def print (o : FormatOptions) (l : Layout) : Except Error String :=
  if l.fits o then .ok (l.toText o) else .error .capacity

end Layout

end DualSql
