import JakartaCheck.Fault
import JakartaCheck.Text.Edit

/-!
# Proposals

A proposal is one way to mend a diagnostic: a label and the edits. Whoever cannot propose anything
says why with a `FixError`.
-/

namespace JakartaCheck

structure Proposal where
  label : String
  edits : List Edit
deriving DecidableEq, Repr

/-- Why there is nothing to propose. -/
inductive FixError where
  | noDeclaration (span : Span)
  | unexpectedDeclaration (expected : String) (span : Span)
  | missingData (code : String)
  | nothingAnnotated (span : Span)
  | alreadyExtends (name superclass : String)
  | nothingToChange
deriving DecidableEq, Repr

def FixError.message : FixError → String
  | .noDeclaration span => s!"no declaration encloses {span.describe}"
  | .unexpectedDeclaration expected span => s!"expected {expected} at {span.describe}"
  | .missingData code => s!"diagnostic {code} carries no annotation names"
  | .nothingAnnotated span => s!"no annotation at {span.describe}"
  | .alreadyExtends name superclass => s!"`{name}` already extends `{superclass}`"
  | .nothingToChange => "nothing to change"

/-- Why a fix has no answer: it declines, or it crashes. -/
inductive FixFailure where
  | declined (reason : FixError)
  | crash (fault : Fault)
deriving DecidableEq, Repr

/-- The answer of a fix. -/
abbrev FixResult (α : Type) := Except FixFailure α

def decline {α : Type} (reason : FixError) : FixResult α := .error (.declined reason)

/-- A computation that can only crash, as part of a fix. -/
def Outcome.toFix {α : Type} (o : Outcome α) : FixResult α := o.mapError .crash

end JakartaCheck
