import JakartaCheck.Fixes.Family
import JakartaCheck.Registry
import JakartaCheck.Text.Quoted

/-!
# Fixes and their codes

A fix answers for some codes of diagnostics. `proposalsFor` asks the fix of a diagnostic and keeps
only proposals whose edits fit the text, in normal form.
-/

namespace JakartaCheck

/-- A named source of proposals. -/
structure Fix where
  id : String
  codes : List String
  propose : Diagnostic → CompilationUnit → FixResult (List Proposal)

instance : Coded Fix := ⟨Fix.id, Fix.codes⟩

/-- A fix that makes one kind of change. -/
def Fix.ofFamily (id : String) (codes : List String) (family : Family) : Fix :=
  ⟨id, codes, fun d unit => family.propose d unit⟩

abbrev FixRegistry := Registry Fix

namespace FixRegistry

/-- A proposal with normal edits, if it has any and they fit the text. -/
def normalize? (text : String) (p : Proposal) : Option Proposal :=
  if p.edits.isEmpty then none
  else
    match Edit.normalize text p.edits with
    | .ok edits => some { p with edits := edits }
    | .error _ => none

/-- The proposals for a diagnostic. Unknown codes, fixes that decline or crash, and edits that do
not fit all mean fewer proposals. -/
def proposalsFor (r : FixRegistry) (d : Diagnostic) (unit : CompilationUnit) : List Proposal :=
  match r.entryFor? d.code with
  | none => []
  | some fix =>
    match fix.propose d unit with
    | .ok proposals => proposals.filterMap (normalize? unit.text)
    | .error _ => []

/-- Do two codes differ at most in the case of ASCII letters? -/
def sameCode (a b : String) : Bool := a.toList.map Char.toLower == b.toList.map Char.toLower

/-- The registered code that an editor means: the very same, or else one that differs only in
case. -/
def canonicalCode? (r : FixRegistry) (code : String) : Option String :=
  r.codes.find? (· == code) <|> r.codes.find? (sameCode · code)

def describe (r : FixRegistry) : String :=
  "FixRegistry \x7b generators: " ++ Text.quotedList r.ids ++ " \x7d"

def errorMessage : RegisterError → String
  | .duplicateId id => s!"duplicate fix generator id: {id}"
  | .duplicateCode code owner => s!"code {code} already has fix generator {owner}"

end FixRegistry

end JakartaCheck
