import JakartaCheck.Check.Member
import JakartaCheck.Diagnostic.Code
import JakartaCheck.Rules.Rule

/-!
# RESTful web services

Visibility and parameters of resource methods, and constructors of root resources.
-/

namespace JakartaCheck.RestResources

def path : String := "jakarta.ws.rs.Path"

def httpMethods : List String :=
  ["GET", "POST", "PUT", "DELETE", "HEAD", "OPTIONS", "PATCH"].map ("jakarta.ws.rs." ++ ·)

/-- A parameter with one of these takes something other than the body of the request. -/
def paramAnnotations : List String :=
  ["BeanParam", "CookieParam", "FormParam", "HeaderParam", "MatrixParam", "PathParam",
    "QueryParam", "core.Context", "container.Suspended"].map ("jakarta.ws.rs." ++ ·)

def applies (unit : CompilationUnit) : Bool := unit.mentions "jakarta.ws.rs"

def answersHttp (unit : CompilationUnit) (method : MethodDecl) : Bool :=
  unit.hasAnnotationAmong method.modifiers httpMethods

def isResourceMethod (unit : CompilationUnit) (method : MethodDecl) : Bool :=
  !method.isConstructor &&
    (answersHttp unit method || unit.hasAnnotationOf method.modifiers path)

/-- Resource methods are public. -/
def resourceMethodVisibility : Rule :=
  .ofFindings "resource-method-visibility" [Code.nonPublicResourceMethod] applies fun unit =>
    unit.types.flatMap fun t =>
      (t.methods.filter fun m => isResourceMethod unit m && !t.memberIsPublic m.modifiers).map
        fun m => Diagnostic.error Source.rest Code.nonPublicResourceMethod
          "Only public methods can be exposed as resource methods." m.nameSpan

/-- At most one parameter of a resource method takes the body of the request. -/
def resourceMethodEntityParams : Rule :=
  .ofFindings "resource-method-entity-params" [Code.resourceMethodMultipleEntityParams] applies
    fun unit => unit.types.flatMap fun t =>
      (t.ordinaryMethods.filter fun m =>
        answersHttp unit m && 1 < (Check.unannotatedParams unit m paramAnnotations).length).map
        fun m => Diagnostic.error Source.rest Code.resourceMethodMultipleEntityParams
          "Resource methods cannot have more than one entity parameter." m.nameSpan

/-- A root resource has a public constructor. -/
def rootResourceConstructors : Rule :=
  .ofFindings "root-resource-constructors" [Code.noPublicConstructors] applies fun unit =>
    ((unit.types.filter (·.isClass)).filter fun t =>
      unit.hasAnnotationOf t.modifiers path && !t.constructors.isEmpty &&
        t.constructors.all fun c => !c.modifiers.isPublic).map
      fun t => Diagnostic.error Source.rest Code.noPublicConstructors
        "Root resource classes are instantiated by the JAX-RS runtime and MUST have a public constructor."
        t.nameSpan

def rules : List Rule :=
  [resourceMethodVisibility, resourceMethodEntityParams, rootResourceConstructors]

end JakartaCheck.RestResources
