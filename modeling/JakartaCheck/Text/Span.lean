import JakartaCheck.Fault

/-!
# Spans and ranges

A `Span` is a pair of 64-bit byte offsets, in any order, as declarations and findings carry them.
A `ByteRange` is what an edit replaces: 32-bit offsets that are in order.
-/

namespace JakartaCheck

/-- Two byte offsets into a text, the second excluded. -/
structure Span where
  start : Nat
  stop : Nat
deriving DecidableEq, Repr, Inhabited

namespace Span

def len (s : Span) : Nat := s.stop - s.start

def isEmpty (s : Span) : Bool := s.stop ≤ s.start

def contains (s other : Span) : Bool := s.start ≤ other.start && other.stop ≤ s.stop

/-- Spans that only touch intersect, so that an empty span at the edge of another selects it. -/
def intersects (s other : Span) : Bool := s.start ≤ other.stop && other.start ≤ s.stop

/-- The text by which messages name a span. -/
def describe (s : Span) : String := s!"Span({s.start}..{s.stop})"

end Span

/-- A range of a text shorter than four gigabytes. -/
structure ByteRange where
  start : Nat
  stop : Nat
  start_le_stop : start ≤ stop
deriving DecidableEq, Repr

namespace ByteRange

/-- Offsets of ranges have 32 bits. -/
def modulus : Nat := 0x100000000

/-- The range between two offsets. -/
def between (start stop : Nat) : Outcome ByteRange :=
  if h : start ≤ stop then .ok ⟨start, stop, h⟩ else .error (.invertedRange start stop)

/-- The empty range at an offset. -/
def point (offset : Nat) : ByteRange := ⟨offset, offset, Nat.le_refl _⟩

def isEmpty (r : ByteRange) : Bool := r.start == r.stop

/-- The smallest range that holds both. -/
def cover (r s : ByteRange) : ByteRange where
  start := min r.start s.start
  stop := max r.stop s.stop
  start_le_stop := by have := r.start_le_stop; omega

def toSpan (r : ByteRange) : Span := ⟨r.start, r.stop⟩

def describe (r : ByteRange) : String := s!"{r.start}..{r.stop}"

end ByteRange

/-- The range of a span; only the low 32 bits of its offsets count. -/
def Span.toRange (s : Span) : Outcome ByteRange :=
  ByteRange.between (s.start % ByteRange.modulus) (s.stop % ByteRange.modulus)

end JakartaCheck
