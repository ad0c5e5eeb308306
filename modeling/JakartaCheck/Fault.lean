/-!
# Faults

A computation that would read outside a text, or that is asked for a range that ends before it
starts, stops with a `Fault`. Faults are values: whoever runs rules and fixes decides how far one
reaches.
-/

namespace JakartaCheck

/-- Why a computation stopped without an answer. -/
inductive Fault where
  /-- The two offsets do not cut a piece out of the text: one lies inside a character or past the
  end, or they are out of order. -/
  | badSlice (start stop : Nat)
  /-- A range was to end before it starts. -/
  | invertedRange (start stop : Nat)
  /-- A rule or a fix gave up; the reason may not be readable. -/
  | aborted (reason : Option String)
deriving DecidableEq, Repr

/-- What is reported of a fault. -/
def Fault.message : Fault → String
  | .badSlice start stop => s!"no text between offsets {start} and {stop}"
  | .invertedRange start stop => s!"range from {start} to {stop} is inverted"
  | .aborted (some reason) => reason
  | .aborted none => "<non-string panic payload>"

/-- A result, or the fault that prevented it. -/
abbrev Outcome (α : Type) := Except Fault α

end JakartaCheck
