import JakartaCheck.Check.Iso8601
import JakartaCheck.Check.Member
import JakartaCheck.Diagnostic.Code
import JakartaCheck.Rules.Rule

/-!
# Common annotations

Callbacks at the beginning and end of life, resources, and generated code.
-/

namespace JakartaCheck.Lifecycle

def postConstruct : String := "jakarta.annotation.PostConstruct"
def preDestroy : String := "jakarta.annotation.PreDestroy"
def resource : String := "jakarta.annotation.Resource"
def generated : String := "jakarta.annotation.Generated"

def applies (unit : CompilationUnit) : Bool := unit.mentions "jakarta.annotation"

/-- A list with one item, if a condition holds. -/
def onlyIf {α : Type} (condition : Bool) (item : α) : List α := if condition then [item] else []

def postConstructFindings (m : MethodDecl) : List Diagnostic :=
  onlyIf (!m.params.isEmpty)
      (Diagnostic.error Source.annotations Code.postConstructParams
        "A method with the @PostConstruct annotation must not have any parameters." m.nameSpan) ++
    onlyIf (!m.returnsVoid)
      (Diagnostic.error Source.annotations Code.postConstructReturnType
        "A method with the @PostConstruct annotation must be void." m.nameSpan) ++
    onlyIf (!m.throws.isEmpty)
      (Diagnostic.warning Source.annotations Code.postConstructException
        "A method with the @PostConstruct annotation must not throw checked exceptions."
        m.nameSpan)

def preDestroyFindings (m : MethodDecl) : List Diagnostic :=
  onlyIf (!m.params.isEmpty)
      (Diagnostic.error Source.annotations Code.preDestroyParams
        "A method with the @PreDestroy annotation must not have any parameters." m.nameSpan) ++
    onlyIf m.modifiers.isStatic
      ((Diagnostic.error Source.annotations Code.preDestroyStatic
        "A method with the @PreDestroy annotation must not be static."
        m.nameSpan).withNames ["static"]) ++
    onlyIf (!m.throws.isEmpty)
      (Diagnostic.warning Source.annotations Code.preDestroyException
        "A method with the @PreDestroy annotation must not throw checked exceptions." m.nameSpan)

/-- The callbacks take nothing, return nothing and throw nothing. -/
def callbacks : Rule :=
  .ofFindings "lifecycle-callbacks"
    [Code.postConstructParams, Code.postConstructReturnType, Code.postConstructException,
      Code.preDestroyParams, Code.preDestroyStatic, Code.preDestroyException] applies fun unit =>
    unit.types.flatMap fun t =>
      t.ordinaryMethods.flatMap fun m =>
        (if unit.hasAnnotationOf m.modifiers postConstruct then postConstructFindings m else []) ++
          (if unit.hasAnnotationOf m.modifiers preDestroy then preDestroyFindings m else [])

/-- A resource of a class has a name and a type. -/
def resourceAttributes : Rule :=
  .ofFindings "resource-attributes"
    [Code.missingResourceNameAttribute, Code.missingResourceTypeAttribute] applies fun unit =>
    unit.types.flatMap fun t =>
      (t.modifiers.annotations.filter (unit.annotationIs · resource)).flatMap fun a =>
        onlyIf (!a.hasArg "name")
            ((Diagnostic.error Source.annotations Code.missingResourceNameAttribute
              "The @Resource annotation must define the attribute 'name'."
              a.nameSpan).withNames ["name"]) ++
          onlyIf (!a.hasArg "type")
            ((Diagnostic.error Source.annotations Code.missingResourceTypeAttribute
              "The @Resource annotation must define the attribute 'type'."
              a.nameSpan).withNames ["type"])

/-- What the date of generated code among modifiers gives rise to. -/
def dateFindings (unit : CompilationUnit) (m : Modifiers) : Outcome (List Diagnostic) :=
  let written : Option (Argument × String) := do
    let a ← unit.annotationOf? m generated
    let date ← a.arg? "date"
    let value ← date.stringValue
    some (date, value)
  match written with
  | none => .ok []
  | some (date, value) => do
    let valid ← Iso8601.isValid value
    return onlyIf (!valid) (Diagnostic.error Source.annotations Code.invalidDateFormat
      "The date element in the @Generated annotation must follow the ISO 8601 standard."
      date.valueSpan)

/-- The modifiers of a type, then those of its members. -/
def modifierLists (t : TypeDecl) : List Modifiers := t.modifiers :: t.members.map (·.modifiers)

/-- Generated code has a valid date. -/
def generatedDate : Rule :=
  .ofOutcome "generated-date" [Code.invalidDateFormat] applies fun unit => do
    let found ← (unit.types.flatMap modifierLists).mapM (dateFindings unit)
    return found.flatten

def rules : List Rule := [callbacks, resourceAttributes, generatedDate]

end JakartaCheck.Lifecycle
