/-!
# Codes of diagnostics

The code of a diagnostic names the broken rule. Editors send codes back, so they never change.
-/

namespace JakartaCheck.Code

def invalidManagedBeanScope : String := "InvalidManagedBeanAnnotation"
def invalidScopeDecl : String := "InvalidScopeDecl"
def removeProducesOrInject : String := "RemoveProducesOrInject"
def invalidInjectParam : String := "RemoveInvalidInjectParamAnnotation"
def invalidProducerParam : String := "RemoveInvalidProducerParamAnnotation"
def invalidManagedBeanConstructor : String := "InvalidManagedBeanConstructor"
def invalidMultipleInjectConstructors : String := "InvalidMultipleInjectConstructors"
def nonPublicResourceMethod : String := "NonPublicResourceMethod"
def resourceMethodMultipleEntityParams : String := "ResourceMethodMultipleEntityParams"
def noPublicConstructors : String := "NoPublicConstructors"
def fixTypeOfElement : String := "FixTypeOfElement"
def makeNotStatic : String := "MakeNotStatic"
def multipleJsonbCreatorAnnotations : String := "MultipleJsonbCreatorAnnotations"
def invalidJsonbTransient : String := "InvalidJsonbTransientAnnotation"
def invalidJsonCreatePointerTarget : String := "InvalidJsonCreatePointerTarget"
def removeMapKeyOrMapKeyClass : String := "RemoveMapKeyorMapKeyClass"
def missingAttributes : String := "MissingAttributes"
def missingEmptyConstructor : String := "MissingEmptyConstructor"
def removeFinalMods : String := "RemoveFinalMods"
def extendHttpServlet : String := "ExtendHttpServlet"
def completeHttpServletAttributes : String := "CompleteHttpServletAttributes"
def invalidHttpServletAttribute : String := "InvalidHttpServletAttribute"
def implementFilter : String := "ImplementFilter"
def completeFilterAttributes : String := "CompleteFilterAnnotation"
def invalidFilterAnnotationAttribute : String := "InvalidFilterAnnotationAttribute"
def webListenerMustImplementCorrectInterface : String := "WebListenerMustImplementCorrectInterface"
def invalidEndpointURI : String := "InvalidEndpointURI"
def addPathParams : String := "AddPathParamsAnnotation"
def changeInvalidParamType : String := "ChangeInvalidParamType"
def postConstructParams : String := "PostConstructParams"
def postConstructReturnType : String := "PostConstructReturnType"
def postConstructException : String := "PostConstructException"
def preDestroyParams : String := "PreDestroyParams"
def preDestroyStatic : String := "PreDestroyStatic"
def preDestroyException : String := "PreDestroyException"
def missingResourceNameAttribute : String := "MissingResourceNameAttribute"
def missingResourceTypeAttribute : String := "MissingResourceTypeAttribute"
def invalidDateFormat : String := "InvalidDateFormat"

end JakartaCheck.Code
