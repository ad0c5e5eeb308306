import JakartaCheck.Diagnostic.Code
import JakartaCheck.Fixes.Registry
import JakartaCheck.Rules.Endpoints
import JakartaCheck.Rules.Injection
import JakartaCheck.Rules.Servlets

/-!
# The built-in fixes
-/

namespace JakartaCheck.FixRegistry

/-- What to write for an argument that an annotation lacks. -/
def attributeDefaults : List (String × String) :=
  [("name", "\"\""), ("referencedColumnName", "\"\""), ("value", "\"\""),
    ("type", "Object.class")]

def builtinFixes : List Fix :=
  [.ofFamily "remove-annotations"
      [Code.invalidScopeDecl, Code.removeProducesOrInject, Code.invalidInjectParam,
        Code.invalidProducerParam, Code.invalidMultipleInjectConstructors, Code.fixTypeOfElement,
        Code.multipleJsonbCreatorAnnotations, Code.invalidJsonbTransient,
        Code.removeMapKeyOrMapKeyClass]
      .removeAnnotations,
    .ofFamily "replace-scope" [Code.invalidManagedBeanScope]
      (.replaceScope Injection.dependent Injection.scopes),
    .ofFamily "managed-bean-constructor" [Code.invalidManagedBeanConstructor]
      (.alternatives [.annotate Injection.inject .marker .singleConstructor,
        .addNoArgConstructor "protected", .addNoArgConstructor "public"]),
    .ofFamily "public-resource-method" [Code.nonPublicResourceMethod] (.addModifier "public"),
    .ofFamily "public-resource-constructor" [Code.noPublicConstructors]
      (.addNoArgConstructor "public"),
    .ofFamily "constraint-not-static" [Code.makeNotStatic]
      (.alternatives [.removeModifier "static", .removeAnnotations]),
    .ofFamily "entity-empty-constructor" [Code.missingEmptyConstructor]
      (.alternatives [.addNoArgConstructor "protected", .addNoArgConstructor "public"]),
    .ofFamily "remove-final" [Code.removeFinalMods] (.removeModifier "final"),
    .ofFamily "add-missing-attributes"
      [Code.missingAttributes, Code.completeHttpServletAttributes, Code.completeFilterAttributes,
        Code.missingResourceNameAttribute, Code.missingResourceTypeAttribute]
      (.addAttributes attributeDefaults),
    .ofFamily "extend-http-servlet" [Code.extendHttpServlet]
      (.addSupertype Servlets.httpServlet .superclass),
    .ofFamily "implement-filter" [Code.implementFilter]
      (.addSupertype Servlets.filter .interface),
    .ofFamily "add-path-param" [Code.addPathParams]
      (.annotate Endpoints.pathParam .declarationName .declaration),
    .ofFamily "remove-callback-parameters" [Code.postConstructParams, Code.preDestroyParams]
      .removeParameters,
    .ofFamily "void-post-construct" [Code.postConstructReturnType] (.changeReturnType "void"),
    .ofFamily "non-static-pre-destroy" [Code.preDestroyStatic] (.removeModifier "static")]

/-- The registry of the built-in fixes. -/
def builtin : FixRegistry := ⟨builtinFixes⟩

end JakartaCheck.FixRegistry
