import JakartaCheck.Text.Bytes
import JakartaCheck.Text.Span

/-!
# Lines and positions

An editor speaks of positions: a line and a column in UTF-16 code units, both from zero. A
`LineIndex` holds the lines of one text and maps byte offsets to positions (`position`) and back
(`offset?`). A line ends at `\n`, at `\r\n` or at a `\r` that stands alone.
-/

namespace JakartaCheck

/-- A line and a column in UTF-16 code units, both counted from zero. -/
structure Position where
  line : Nat
  column : Nat
deriving DecidableEq, Repr

namespace Position

/-- Positions are ordered by line, then by column. -/
def le (p q : Position) : Bool := p.line < q.line || (p.line == q.line && p.column ≤ q.column)

end Position

/-- Two positions, the second excluded. -/
structure PositionRange where
  start : Position
  stop : Position
deriving DecidableEq, Repr

/-- Where the content of a line starts and ends, its terminator excluded. -/
structure Line where
  start : Nat
  stop : Nat
deriving DecidableEq, Repr

/-- The lines of one text, in order. -/
structure LineIndex where
  lines : List Line
  textLen : Nat
deriving DecidableEq, Repr

namespace LineIndex

/-- The lines of the characters from offset `pos` on, when the current line began at `start`. -/
def linesFrom (start pos : Nat) : List Char → List Line
  | [] => [⟨start, pos⟩]
  | '\r' :: '\n' :: cs => ⟨start, pos⟩ :: linesFrom (pos + 2) (pos + 2) cs
  | '\r' :: cs => ⟨start, pos⟩ :: linesFrom (pos + 1) (pos + 1) cs
  | '\n' :: cs => ⟨start, pos⟩ :: linesFrom (pos + 1) (pos + 1) cs
  | c :: cs => linesFrom start (pos + c.utf8Size) cs

/-- The index of a text. -/
def ofText (text : String) : LineIndex :=
  ⟨linesFrom 0 0 text.toList, Text.length text⟩

/-- Number of lines, as a number of 32 bits. -/
def lineCount (index : LineIndex) : Nat := index.lines.length % ByteRange.modulus

/-- Number of the line that holds an offset: the last one that starts no later. -/
def lineOf (index : LineIndex) (offset : Nat) : Nat :=
  (index.lines.takeWhile (·.start ≤ offset)).length - 1

/-- The position of an offset. Past the end it is that of the end, and inside a line terminator
that of the end of the line. -/
def position (index : LineIndex) (text : String) (offset : Nat) : Outcome Position := do
  let offset := min offset index.textLen
  let number := index.lineOf offset
  let line := index.lines.getD number ⟨0, 0⟩
  let before ← Text.slice text line.start (min offset line.stop)
  return ⟨number, Text.units16 before.toList⟩

/-- The offset at which `column` code units of `cs` have been read, if a character ends there;
`pos` is the offset of `cs`. -/
def offsetIn (pos column : Nat) : List Char → Option Nat
  | [] => if column = 0 then some pos else none
  | c :: cs =>
    if column = 0 then some pos
    else if Text.units16Of c ≤ column then
      offsetIn (pos + c.utf8Size) (column - Text.units16Of c) cs
    else none

/-- The offset of a position: none for a line or column past the end, nor for a column between
the two halves of a surrogate pair. -/
def offset? (index : LineIndex) (text : String) (p : Position) : Option Nat := do
  let line ← index.lines[p.line]?
  let content ← Text.slice? text line.start line.stop
  offsetIn line.start p.column content.toList

/-- The positions of both ends of a range. -/
def range (index : LineIndex) (text : String) (r : ByteRange) : Outcome PositionRange := do
  let start ← index.position text r.start
  let stop ← index.position text r.stop
  return ⟨start, stop⟩

/-- The range between two positions, if both exist and are in order. -/
def byteRange? (index : LineIndex) (text : String) (r : PositionRange) : Option ByteRange := do
  let start ← index.offset? text r.start
  let stop ← index.offset? text r.stop
  if h : start ≤ stop then some ⟨start, stop, h⟩ else none

end LineIndex

end JakartaCheck
