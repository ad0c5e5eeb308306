import JakartaCheck.Check.Member
import JakartaCheck.Diagnostic.Code
import JakartaCheck.Rules.Rule

/-!
# Contexts and dependency injection

Scopes of managed beans and producers, their constructors, and what may not be injected.
-/

namespace JakartaCheck.Injection

def inject : String := "jakarta.inject.Inject"
def produces : String := "jakarta.enterprise.inject.Produces"
def disposes : String := "jakarta.enterprise.inject.Disposes"
def observes : String := "jakarta.enterprise.event.Observes"
def observesAsync : String := "jakarta.enterprise.event.ObservesAsync"
def dependent : String := "jakarta.enterprise.context.Dependent"

/-- The built-in scopes. All but the first are normal scopes. -/
def scopes : List String :=
  [dependent, "jakarta.enterprise.context.ApplicationScoped",
    "jakarta.enterprise.context.ConversationScoped",
    "jakarta.enterprise.context.RequestScoped", "jakarta.enterprise.context.SessionScoped"]

def scopesOf (unit : CompilationUnit) (m : Modifiers) : List AnnotationUse :=
  m.annotations.filter (unit.annotationIsAny scopes)

def applies (unit : CompilationUnit) : Bool :=
  unit.mentions "jakarta.enterprise" || unit.mentions "jakarta.inject"

/-- A bean with a normal scope has no public instance fields. -/
def managedBeanScope : Rule :=
  .ofFindings "managed-bean-scope" [Code.invalidManagedBeanScope] applies fun unit =>
    (unit.types.filter (·.isClass)).flatMap fun t =>
      let found := scopesOf unit t.modifiers
      if found.any fun a => !unit.annotationIs a dependent then
        let fields := t.fields.filter fun f => f.modifiers.isPublic && !f.modifiers.isStatic
        (fields.flatMap (·.declarators)).map fun d =>
          (Diagnostic.error Source.cdi Code.invalidManagedBeanScope
            "The @Dependent annotation must be the only scope defined by a managed bean with a non-static public field."
            d.nameSpan).withNames (Check.distinctNames found)
      else []

/-- A producer has at most one scope. -/
def producerScopes (unit : CompilationUnit) (member : Member) : List Diagnostic :=
  let found := scopesOf unit member.modifiers
  if unit.hasAnnotationOf member.modifiers produces && 1 < found.length then
    let message := match member with
      | .field _ => "Scope type annotations must be specified by a producer field at most once."
      | .method _ => "Scope type annotations must be specified by a producer method at most once."
    (member.nameSpans.take 1).map fun span =>
      (Diagnostic.error Source.cdi Code.invalidScopeDecl message span).withNames
        (Check.distinctNames found)
  else []

/-- A bean class and a producer have at most one scope. -/
def scopeDeclaration : Rule :=
  .ofFindings "scope-declaration" [Code.invalidScopeDecl] applies fun unit =>
    unit.types.flatMap fun t =>
      let found := scopesOf unit t.modifiers
      let onType :=
        if 1 < found.length then
          [(Diagnostic.error Source.cdi Code.invalidScopeDecl
            "Scope type annotations must be specified by a managed bean class at most once."
            t.nameSpan).withNames (Check.distinctNames found)]
        else []
      onType ++ t.members.flatMap (producerScopes unit)

/-- A member is not both produced and injected. -/
def producerInjectConflict : Rule :=
  .ofFindings "producer-inject-conflict" [Code.removeProducesOrInject] applies fun unit =>
    unit.types.flatMap fun t =>
      t.members.flatMap fun member =>
        Check.exclusionDiagnostics
          (Check.conflictingAnnotations member.modifiers (unit.annotationIs · produces)
            (unit.annotationIs · inject))
          Source.cdi Code.removeProducesOrInject
          "The @Produces and @Inject annotations must not be used on the same field or property."

def methodParameters (unit : CompilationUnit) (method : MethodDecl) : List Diagnostic :=
  let offending := Check.parameterAnnotations unit method [disposes, observes, observesAsync]
  if offending.isEmpty then []
  else
    let names := Check.distinctNames offending
    let listed := String.intercalate ", " (names.map ("@" ++ ·))
    let subject :=
      if method.isConstructor then "A bean constructor" else "An initializer method"
    let injected :=
      if unit.hasAnnotationOf method.modifiers inject then
        [(Diagnostic.error Source.cdi Code.invalidInjectParam
          s!"{subject} annotated @Inject cannot have parameter(s) annotated {listed}."
          method.nameSpan).withNames names]
      else []
    let produced :=
      if unit.hasAnnotationOf method.modifiers produces then
        [(Diagnostic.error Source.cdi Code.invalidProducerParam
          s!"A producer method cannot have parameter(s) annotated {listed}."
          method.nameSpan).withNames names]
      else []
    injected ++ produced

/-- Injection points and producers neither dispose of nor observe anything. -/
def injectionParameters : Rule :=
  .ofFindings "injection-parameters" [Code.invalidInjectParam, Code.invalidProducerParam] applies
    fun unit => unit.types.flatMap fun t => t.methods.flatMap (methodParameters unit)

/-- A managed bean has a constructor without parameters or one to inject, and at most one of the
latter. -/
def managedBeanConstructor : Rule :=
  .ofFindings "managed-bean-constructor"
    [Code.invalidManagedBeanConstructor, Code.invalidMultipleInjectConstructors] applies
    fun unit =>
      (unit.types.filter (·.isClass)).flatMap fun t =>
        let injected := t.constructors.filter fun c => unit.hasAnnotationOf c.modifiers inject
        let missing :=
          if !(scopesOf unit t.modifiers).isEmpty && injected.isEmpty &&
              !Check.hasNoArgConstructor t (fun _ => true) then
            [Diagnostic.error Source.cdi Code.invalidManagedBeanConstructor
              "The annotated managed bean class must have a no-arg constructor or a constructor annotated @Inject."
              t.nameSpan]
          else []
        missing ++ (Check.exceeding injected 1).map fun c =>
          (Diagnostic.error Source.cdi Code.invalidMultipleInjectConstructors
            "A bean class must not have more than one constructor annotated @Inject."
            c.nameSpan).withNames ["Inject"]

def rules : List Rule :=
  [managedBeanScope, scopeDeclaration, producerInjectConflict, injectionParameters,
    managedBeanConstructor]

end JakartaCheck.Injection
