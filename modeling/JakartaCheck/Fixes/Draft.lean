import JakartaCheck.Fixes.Proposal
import JakartaCheck.Text.Blank

/-!
# Drafting edits

The edits of a proposal are drafted one by one. Two insertions at one place become one, the later
text after the earlier. Removing an annotation or a keyword also removes the blanks after it, and
the whole line if nothing else stands there.
-/

namespace JakartaCheck.Draft

/-- Adds a text to the first edit that only inserts at `offset`, or as a new edit. -/
def insertAt (offset : Nat) (text : String) : List Edit → List Edit
  | [] => [.insert offset text]
  | edit :: edits =>
    if edit.range.isEmpty && edit.range.start == offset then
      { edit with replacement := edit.replacement ++ text } :: edits
    else edit :: insertAt offset text edits

/-- Inserts a text; only the low 32 bits of the offset count. -/
def insert (edits : List Edit) (offset : Nat) (text : String) : List Edit :=
  insertAt (offset % ByteRange.modulus) text edits

def replace (edits : List Edit) (span : Span) (text : String) : Outcome (List Edit) := do
  return edits ++ [⟨← span.toRange, text⟩]

def delete (edits : List Edit) (span : Span) : Outcome (List Edit) := replace edits span ""

/-- A first edit, if there is one. -/
def start (edit : Option Edit) : List Edit := edit.toList

/-! ### Lines around a place -/

def isGap (c : Char) : Bool := c == ' ' || c == '\t'

/-- The characters before an offset, and those of its line among them. -/
def lineBefore (text : String) (offset : Nat) : Outcome (List Char) := do
  let before ← Text.slice text 0 offset
  return Text.afterLast '\n' before.toList

/-- The offset after the blanks at `offset`. -/
def afterGap (text : String) (offset : Nat) : Nat :=
  match Text.splitBytes? offset text.toList with
  | some (_, rest) => offset + (rest.takeWhile isGap).length
  | none => offset

/-- Length of the line break in front of `cs`. -/
def lineBreakLength : List Char → Nat
  | '\r' :: '\n' :: _ => 2
  | '\n' :: _ => 1
  | _ => 0

/-- What to delete so that a span goes without a trace: the span and the blanks after it, or the
whole line if nothing else stands on it. -/
def removalSpan (text : String) (span : Span) : Outcome Span := do
  let stop := afterGap text (min span.stop (Text.length text))
  let before ← lineBefore text span.start
  if before.all Text.isBlank then
    let rest ← Text.slice text stop (Text.length text)
    let lineBreak := lineBreakLength rest.toList
    if 0 < lineBreak then return ⟨span.start - Text.byteLen before, stop + lineBreak⟩
  return ⟨span.start, stop⟩

/-- The blanks at the beginning of the line of an offset. -/
def lineIndent (text : String) (offset : Nat) : Outcome String := do
  let before ← lineBefore text offset
  let line := Text.dropBytes (offset - Text.byteLen before) text.toList
  return String.ofList (line.takeWhile isGap)

/-- How the lines of a text end. -/
def lineEnding (text : String) : String :=
  if Text.occursIn ['\r', '\n'] text.toList then "\r\n" else "\n"

end JakartaCheck.Draft
