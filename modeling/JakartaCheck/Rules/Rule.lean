import JakartaCheck.Diagnostic.Basic
import JakartaCheck.Fault
import JakartaCheck.Java.CompilationUnit
import JakartaCheck.Registry
import JakartaCheck.Text.Quoted

/-!
# Rules

A rule looks at one unit and reports diagnostics. It may fail, it may crash, and while it runs it
may call off the work it is part of.
-/

namespace JakartaCheck

/-- A failure that a rule reports itself. -/
inductive RuleError where
  | unexpectedShape (what : String)
  | unresolvedBinding (name : String)
deriving DecidableEq, Repr

def RuleError.message : RuleError → String
  | .unexpectedShape what => s!"unexpected syntax shape: {what}"
  | .unresolvedBinding name => s!"unresolved binding for `{name}`"

/-- Why a rule reported no diagnostics. -/
inductive RuleFailure where
  | error (reason : RuleError)
  | crash (fault : Fault)
deriving DecidableEq, Repr

/-- Work is called off by a token; tokens are told apart by their numbers. -/
abbrev CancelToken := Nat

/-- What a run of a rule leaves behind. -/
structure Report where
  result : Except RuleFailure (List Diagnostic)
  /-- The tokens that the rule called off. -/
  cancels : List CancelToken

structure Rule where
  id : String
  /-- Every code that the rule may report. -/
  codes : List String
  /-- A quick test whether the rule can find anything in a unit. -/
  isApplicable : CompilationUnit → Bool
  collect : CompilationUnit → Report

instance : Coded Rule := ⟨Rule.id, Rule.codes⟩

/-- A rule that always reports and calls off nothing. -/
def Rule.ofFindings (id : String) (codes : List String) (isApplicable : CompilationUnit → Bool)
    (findings : CompilationUnit → List Diagnostic) : Rule :=
  ⟨id, codes, isApplicable, fun unit => ⟨.ok (findings unit), []⟩⟩

/-- A rule that may crash. -/
def Rule.ofOutcome (id : String) (codes : List String) (isApplicable : CompilationUnit → Bool)
    (findings : CompilationUnit → Outcome (List Diagnostic)) : Rule :=
  ⟨id, codes, isApplicable, fun unit => ⟨(findings unit).mapError .crash, []⟩⟩

/-- The rules of an analysis. -/
abbrev RuleRegistry := Registry Rule

namespace RuleRegistry

/-- A registry as text. -/
def describe (r : RuleRegistry) : String :=
  "RuleRegistry \x7b rules: " ++ Text.quotedList r.ids ++ " \x7d"

def errorMessage : RegisterError → String
  | .duplicateId id => s!"duplicate rule id: {id}"
  | .duplicateCode code owner => s!"code {code} is already emitted by rule {owner}"

end RuleRegistry

end JakartaCheck
