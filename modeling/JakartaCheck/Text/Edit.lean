import JakartaCheck.Text.Bytes
import JakartaCheck.Text.Span

/-!
# Edits

An `Edit` replaces a range of a text. A list of edits is normalized before it is applied: sorted by
range, checked against the text and against each other, and edits that touch are joined into one.
-/

namespace JakartaCheck

/-- The replacement of one range of a text. -/
structure Edit where
  range : ByteRange
  replacement : String
deriving DecidableEq, Repr

/-- Why a list of edits does not fit a text. -/
inductive EditError where
  | outOfBounds (range : ByteRange) (textLen : Nat)
  | insideCharacter (offset : Nat)
  | overlap (first second : ByteRange)
deriving DecidableEq, Repr

namespace EditError

def message : EditError → String
  | .outOfBounds range textLen =>
    s!"edit range {range.describe} is out of bounds for text length {textLen}"
  | .insideCharacter offset => s!"offset {offset} is not a UTF-8 character boundary"
  | .overlap first second =>
    s!"overlapping edits: {first.describe} overlaps {second.describe}"

end EditError

namespace Edit

/-- Puts a text in at an offset. -/
def insert (offset : Nat) (text : String) : Edit := ⟨.point offset, text⟩

/-- Takes a range out. -/
def delete (range : ByteRange) : Edit := ⟨range, ""⟩

/-- The order of normalized edits: by start, then by end. -/
def le (a b : Edit) : Bool :=
  a.range.start < b.range.start ||
    (a.range.start == b.range.start && a.range.stop ≤ b.range.stop)

/-- Both edits as one: the first replacement, then the second. -/
def join (a b : Edit) : Edit := ⟨a.range.cover b.range, a.replacement ++ b.replacement⟩

/-- A range must end inside the text, and both its ends must lie between characters. -/
def checkRange (text : String) (range : ByteRange) : Except EditError Unit :=
  if Text.length text < range.stop then .error (.outOfBounds range (Text.length text))
  else if !Text.isBoundary text range.start then .error (.insideCharacter range.start)
  else if !Text.isBoundary text range.stop then .error (.insideCharacter range.stop)
  else .ok ()

/-- Two ranges clash if they share a byte or are both empty at one place: then the order of the
two replacements would be open. The first range starts no later than the second. -/
def clash (first second : ByteRange) : Bool :=
  second.start < first.stop ||
    (first.isEmpty && second.isEmpty && first.start == second.start)

/-- Checks sorted edits one after the other; `previous` is the range before them. -/
def check (text : String) (previous : Option ByteRange) : List Edit → Except EditError Unit
  | [] => .ok ()
  | edit :: edits => do
    checkRange text edit.range
    match previous with
    | some range => if clash range edit.range then throw (.overlap range edit.range)
    | none => pure ()
    check text (some edit.range) edits

/-- Joins each edit to the one before it when that one ends where it starts. -/
def joinTouching : List Edit → List Edit
  | [] => []
  | [edit] => [edit]
  | a :: b :: edits =>
    if a.range.stop = b.range.start then joinTouching (join a b :: edits)
    else a :: joinTouching (b :: edits)
termination_by edits => edits.length

/-- Sorts, checks and joins a list of edits. -/
def normalize (text : String) (edits : List Edit) : Except EditError (List Edit) := do
  let sorted := edits.mergeSort le
  check text none sorted
  return joinTouching sorted

/-- Replaces the ranges of normalized edits; `cs` starts at offset `cursor`. -/
def splice (cursor : Nat) : List Edit → List Char → List Char
  | [], cs => cs
  | edit :: edits, cs =>
    Text.takeBytes (edit.range.start - cursor) cs ++ edit.replacement.toList ++
      splice edit.range.stop edits (Text.dropBytes (edit.range.stop - cursor) cs)

/-- The text after all edits, whatever their order in the list. -/
def applyAll (text : String) (edits : List Edit) : Except EditError String := do
  let edits ← normalize text edits
  return String.ofList (splice 0 edits text.toList)

end Edit

end JakartaCheck
