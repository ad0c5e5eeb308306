import JakartaCheck.Rules.Constraints
import JakartaCheck.Rules.Endpoints
import JakartaCheck.Rules.Engine
import JakartaCheck.Rules.Entities
import JakartaCheck.Rules.Injection
import JakartaCheck.Rules.JsonDocuments
import JakartaCheck.Rules.Lifecycle
import JakartaCheck.Rules.RestResources
import JakartaCheck.Rules.Servlets

/-!
# The built-in rules
-/

namespace JakartaCheck.RuleRegistry

/-- All built-in rules, in the order in which they report. -/
def builtinRules : List Rule :=
  Injection.rules ++ RestResources.rules ++ Constraints.rules ++ JsonDocuments.rules ++
    Entities.rules ++ Servlets.rules ++ Endpoints.rules ++ Lifecycle.rules

/-- The registry of the built-in rules. -/
def builtin : RuleRegistry := ⟨builtinRules⟩

end JakartaCheck.RuleRegistry
