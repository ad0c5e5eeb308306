import JakartaCheck.Rules.Rule

/-!
# Running rules

An analysis runs the rules of a registry over a unit, in order. A rule that does not apply, fails or
crashes contributes nothing, and of each rule only the first few diagnostics are kept. Before each
rule and at the end the token of the analysis is looked at: once it is called off, there is no
result.
-/

namespace JakartaCheck

structure EngineOptions where
  /-- How many diagnostics of each rule are kept. -/
  maxPerRule : Nat
  /-- Rules may run side by side; the answer is the same. -/
  parallel : Bool
deriving DecidableEq, Repr

def EngineOptions.default : EngineOptions := ⟨256, false⟩

/-- The analysis was called off. -/
inductive Cancelled where
  | cancelled
deriving DecidableEq, Repr

def Cancelled.message : Cancelled → String
  | .cancelled => "request was cancelled"

namespace Engine

/-- The diagnostics that one rule contributes, and the tokens it calls off. -/
def runRule (maxPerRule : Nat) (rule : Rule) (unit : CompilationUnit) :
    List Diagnostic × List CancelToken :=
  if rule.isApplicable unit then
    let report := rule.collect unit
    match report.result with
    | .ok diagnostics => (diagnostics.take maxPerRule, report.cancels)
    | .error _ => ([], report.cancels)
  else ([], [])

/-- Runs rules in order. `cancelled` are the tokens called off so far; the result has those called
off at the end. -/
def analyze (maxPerRule : Nat) (unit : CompilationUnit) (token : CancelToken)
    (cancelled : List CancelToken) :
    List Rule → Except Cancelled (List Diagnostic) × List CancelToken
  | [] => (if cancelled.contains token then .error .cancelled else .ok [], cancelled)
  | rule :: rules =>
    if cancelled.contains token then (.error .cancelled, cancelled)
    else
      let (found, cancels) := runRule maxPerRule rule unit
      let (rest, cancelled) := analyze maxPerRule unit token (cancels ++ cancelled) rules
      (rest.map (found ++ ·), cancelled)

/-- The diagnostics of all rules, when nothing calls the work off. -/
def findings (maxPerRule : Nat) (unit : CompilationUnit) (rules : List Rule) :
    List Diagnostic :=
  rules.flatMap fun rule => (runRule maxPerRule rule unit).1

end Engine

end JakartaCheck
