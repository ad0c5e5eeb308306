import JakartaCheck.Check.EndpointPath
import JakartaCheck.Check.Member
import JakartaCheck.Diagnostic.Code
import JakartaCheck.Rules.Rule

/-!
# WebSocket endpoints

Paths of server endpoints and parameters of their callbacks.
-/

namespace JakartaCheck.Endpoints

def serverEndpoint : String := "jakarta.websocket.server.ServerEndpoint"
def pathParam : String := "jakarta.websocket.server.PathParam"
def session : String := "jakarta.websocket.Session"

/-- The annotation of each callback, and the type that it takes besides the session. -/
def callbacks : List (String × String) :=
  [("jakarta.websocket.OnOpen", "jakarta.websocket.EndpointConfig"),
    ("jakarta.websocket.OnClose", "jakarta.websocket.CloseReason"),
    ("jakarta.websocket.OnError", "java.lang.Throwable")]

def applies (unit : CompilationUnit) : Bool := unit.mentions "jakarta.websocket"

def pathFinding? (unit : CompilationUnit) (t : TypeDecl) : Option Diagnostic := do
  let a ← unit.annotationOf? t.modifiers serverEndpoint
  let arg ← a.arg? "value"
  let path ← arg.stringValue
  let flaw ← EndpointPath.flaw? path
  some (Diagnostic.error Source.websocket Code.invalidEndpointURI flaw.message arg.valueSpan)

/-- Endpoints have valid paths. -/
def endpointPaths : Rule :=
  .ofFindings "server-endpoint-uri" [Code.invalidEndpointURI] applies fun unit =>
    unit.types.filterMap (pathFinding? unit)

/-- What a parameter of a callback gives rise to; `extra` is the type that the callback takes
besides the session. -/
def parameterFinding? (unit : CompilationUnit) (extra : String) (p : Parameter) :
    Option Diagnostic :=
  if unit.typeIs p.type session || unit.typeIs p.type extra then none
  else if !Check.isSimpleValueType unit p.type then
    some (Diagnostic.error Source.websocket Code.changeInvalidParamType
      "Invalid parameter type. When using a lifecycle annotation, parameters must be a Session, the callback's own type, or a String, Java primitive or boxed primitive annotated with @PathParam."
      p.nameSpan)
  else if unit.hasAnnotationOf p.modifiers pathParam then none
  else
    some (Diagnostic.error Source.websocket Code.addPathParams
      "Parameters of type String, any Java primitive type, or boxed version thereof must be annotated with @PathParams."
      p.nameSpan)

/-- Callbacks take the session, a type of their own, and parts of the path. -/
def callbackParameters : Rule :=
  .ofFindings "lifecycle-parameters" [Code.addPathParams, Code.changeInvalidParamType] applies
    fun unit =>
      (unit.types.filter fun t => unit.hasAnnotationOf t.modifiers serverEndpoint).flatMap
        fun t => t.ordinaryMethods.flatMap fun m =>
          match callbacks.find? fun (fqn, _) => unit.hasAnnotationOf m.modifiers fqn with
          | some (_, extra) => m.params.filterMap (parameterFinding? unit extra)
          | none => []

def rules : List Rule := [endpointPaths, callbackParameters]

end JakartaCheck.Endpoints
