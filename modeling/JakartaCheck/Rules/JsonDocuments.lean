import JakartaCheck.Check.JsonPointer
import JakartaCheck.Check.Member
import JakartaCheck.Diagnostic.Code
import JakartaCheck.Rules.Rule

/-!
# JSON binding and JSON processing

Creators and transient members of bound classes, and pointers into documents.
-/

namespace JakartaCheck.JsonDocuments

def bindingPackage : String := "jakarta.json.bind.annotation"
def jsonbCreator : String := "jakarta.json.bind.annotation.JsonbCreator"
def jsonbTransient : String := "jakarta.json.bind.annotation.JsonbTransient"
def json : String := "jakarta.json.Json"

def bindingApplies (unit : CompilationUnit) : Bool := unit.mentions "jakarta.json.bind"

/-- Does an annotation belong to JSON binding? -/
def isBindingUse (unit : CompilationUnit) (a : AnnotationUse) : Bool :=
  match a.qualifiedName with
  | some qualified =>
    match Text.splitLast '.' qualified.toList with
    | some (before, _) => before == bindingPackage.toList
    | none => false
  | none =>
    Text.startsWith "Jsonb".toList a.simpleName.toList &&
      unit.denotes a.simpleName none (bindingPackage ++ "." ++ a.simpleName)

/-- At most one constructor or static method creates objects of a class. -/
def creatorUniqueness : Rule :=
  .ofFindings "jsonb-creator-uniqueness" [Code.multipleJsonbCreatorAnnotations] bindingApplies
    fun unit => unit.types.flatMap fun t =>
      let creators := t.methods.filter fun m =>
        (m.isConstructor || m.modifiers.isStatic) && unit.hasAnnotationOf m.modifiers jsonbCreator
      (Check.exceeding creators 1).map fun m =>
        (Diagnostic.error Source.jsonBinding Code.multipleJsonbCreatorAnnotations
          "Only one constructor or static factory method can be annotated with @JsonbCreator in a given class."
          m.nameSpan).withNames ["JsonbCreator"]

/-- A transient member has no other annotations of JSON binding. -/
def transientExclusion : Rule :=
  .ofFindings "jsonb-transient-exclusion" [Code.invalidJsonbTransient] bindingApplies fun unit =>
    unit.types.flatMap fun t =>
      t.members.flatMap fun member =>
        Check.exclusionDiagnostics
          (Check.conflictingAnnotations member.modifiers (unit.annotationIs · jsonbTransient)
            fun a => isBindingUse unit a && !unit.annotationIs a jsonbTransient)
          Source.jsonBinding Code.invalidJsonbTransient
          "When a class field is annotated with @JsonbTransient, this field, getter or setter must not be annotated with other JSON Binding annotations."

/-- What one call gives rise to. -/
def pointerFinding? (unit : CompilationUnit) (call : MethodCall) : Option Diagnostic :=
  match call.receiver, call.args with
  | some receiver, [arg] =>
    match arg.stringLiteral with
    | some value =>
      if call.name == "createPointer" && unit.nameDenotes receiver json &&
          !JsonPointer.isValid value then
        some (Diagnostic.error Source.jsonProcessing Code.invalidJsonCreatePointerTarget
          "Json.createPointer target must be a sequence of '/' prefixed tokens or an empty String."
          arg.span)
      else none
    | none => none
  | _, _ => none

/-- Pointers are created from valid text. -/
def pointerTarget : Rule :=
  .ofFindings "jsonp-pointer-target" [Code.invalidJsonCreatePointerTarget]
    (·.mentions "jakarta.json") fun unit => unit.calls.filterMap (pointerFinding? unit)

def rules : List Rule := [creatorUniqueness, transientExclusion, pointerTarget]

end JakartaCheck.JsonDocuments
