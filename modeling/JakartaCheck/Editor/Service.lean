import JakartaCheck.Document.Store
import JakartaCheck.Editor.Encoding
import JakartaCheck.Fixes.Catalog
import JakartaCheck.Java.Reading
import JakartaCheck.Rules.Catalog
import JakartaCheck.Settings.Basic

/-!
# The language service

A `Service` answers two questions of an editor: which diagnostics documents have, and which fixes
there are for the diagnostics it shows in a range. A document that cannot be read has neither.
-/

namespace JakartaCheck.Editor

structure Service where
  /-- What documents are parsed with. -/
  parser : Java.Parser
  rules : RuleRegistry
  options : EngineOptions
  fixes : FixRegistry
  /-- If not set, no document has diagnostics. -/
  enabled : Bool

/-- Why a request has no answer. -/
inductive ServiceFailure where
  | cancelled (reason : Cancelled)
  | crash (fault : Fault)
deriving DecidableEq, Repr

/-- The diagnostics of one document. -/
structure Published where
  uri : String
  messages : List Message
deriving Repr

/-- A fix that an editor can offer. -/
structure CodeAction where
  title : String
  /-- The diagnostic that the fix is for, as the editor sent it. -/
  origin : Message
  uri : String
  changes : List TextChange
deriving Repr

def Published.toJson (p : Published) : Json :=
  .object [("uri", .string p.uri), ("diagnostics", .list Message.toJson p.messages)]

def CodeAction.toJson (a : CodeAction) : Json :=
  .object [("title", .string a.title), ("kind", .string "quickfix"),
    ("diagnostics", .array [a.origin.toJson]),
    ("edit", .object [("changes", .object [(a.uri, .list TextChange.toJson a.changes)])])]

namespace Service

/-- The built-in rules and fixes under settings. -/
def ofSettings (s : DiagnosticsSettings) : Service where
  parser := Java.grammar
  rules := RuleRegistry.builtin.without s.disabledRules
  options := ⟨s.maxPerRule, s.parallelRules⟩
  fixes := .builtin
  enabled := s.enabled

/-- The unit behind a URI. -/
def load? (s : Service) (source : DocumentSource) (uri : String) : Option CompilationUnit :=
  match source uri with
  | .ok text => CompilationUnit.lower? s.parser uri text
  | .error _ => none

/-- What an editor is told of the diagnostics of a text. -/
def messages (text : String) (found : List Diagnostic) : Except ServiceFailure (List Message) :=
  (found.mapM (Message.ofDiagnostic text (LineIndex.ofText text))).mapError .crash

/-- The messages of one document, and the tokens that are called off then. -/
def documentMessages (s : Service) (source : DocumentSource) (token : CancelToken)
    (cancelled : List CancelToken) (uri : String) :
    Except ServiceFailure (List Message) × List CancelToken :=
  if cancelled.contains token then (.error (.cancelled .cancelled), cancelled)
  else if !s.enabled then (.ok [], cancelled)
  else
    match s.load? source uri with
    | none => (.ok [], cancelled)
    | some unit =>
      match Engine.analyze s.options.maxPerRule unit token cancelled s.rules.entries with
      | (.error reason, cancelled) => (.error (.cancelled reason), cancelled)
      | (.ok found, cancelled) => (messages unit.text found, cancelled)

/-- The messages of documents, in order. -/
def publish (s : Service) (source : DocumentSource) (token : CancelToken)
    (cancelled : List CancelToken) : List String → Except ServiceFailure (List Published)
  | [] => .ok []
  | uri :: uris =>
    match s.documentMessages source token cancelled uri with
    | (.error failure, _) => .error failure
    | (.ok found, cancelled) => do return ⟨uri, found⟩ :: (← s.publish source token cancelled uris)

/-- Answers a request for diagnostics. -/
def diagnostics (s : Service) (source : DocumentSource) (token : CancelToken)
    (cancelled : List CancelToken) (request : DiagnosticsRequest) :
    Except ServiceFailure (List Published) :=
  if cancelled.contains token then .error (.cancelled .cancelled)
  else s.publish source token cancelled request.uris

/-- The action that carries out a proposal. -/
def actionOf (unit : CompilationUnit) (uri : String) (index : LineIndex) (origin : Message)
    (p : Proposal) : Outcome CodeAction := do
  return ⟨p.label, origin, uri, ← p.edits.mapM (TextChange.ofEdit unit.text index)⟩

/-- The actions for one diagnostic, if it touches the selection. -/
def actionsFor (s : Service) (unit : CompilationUnit) (uri : String) (index : LineIndex)
    (selection : Span) (origin : Message) : Outcome (List CodeAction) :=
  match origin.toDiagnostic? unit.text index s.fixes with
  | none => .ok []
  | some d =>
    if d.span.intersects selection then
      (s.fixes.proposalsFor d unit).mapM (actionOf unit uri index origin)
    else .ok []

/-- Answers a request for fixes. -/
def codeActions (s : Service) (source : DocumentSource) (token : CancelToken)
    (cancelled : List CancelToken) (request : ActionsRequest) :
    Except ServiceFailure (List CodeAction) :=
  if cancelled.contains token then .error (.cancelled .cancelled)
  else if request.shown.isEmpty then .ok []
  else
    match s.load? source request.uri with
    | none => .ok []
    | some unit =>
      let index := LineIndex.ofText unit.text
      match index.byteRange? unit.text request.range with
      | none => .ok []
      | some selection =>
        ((request.shown.mapM fun origin =>
          s.actionsFor unit request.uri index selection.toSpan origin).map List.flatten).mapError
            .crash

end Service

end JakartaCheck.Editor
