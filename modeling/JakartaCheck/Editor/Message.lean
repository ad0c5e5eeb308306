import JakartaCheck.Fixes.Registry
import JakartaCheck.Text.Lines

/-!
# What is exchanged with an editor

An editor speaks of positions instead of offsets and numbers the severities. A diagnostic that it
sends back is turned into the one it came from, if its code has a fix and its range fits the text.
-/

namespace JakartaCheck.Editor

/-- A code is a text for us, but other tools use numbers. -/
inductive MessageCode where
  | number (value : Int)
  | text (value : String)
deriving DecidableEq, Repr

/-- A place that explains a diagnostic. -/
structure RelatedPlace where
  uri : String
  range : PositionRange
  message : String
deriving DecidableEq, Repr

/-- A diagnostic as an editor shows it. -/
structure Message where
  range : PositionRange
  severity : Option Int
  code : Option MessageCode
  /-- Where the code is described. -/
  codeLink : Option String
  source : Option String
  message : String
  related : Option (List RelatedPlace)
  tags : Option (List Int)
  data : Option Json
deriving Repr

/-- An edit as an editor carries it out. -/
structure TextChange where
  range : PositionRange
  newText : String
deriving DecidableEq, Repr

def severityNumber : Severity → Int
  | .error => 1
  | .warning => 2
  | .info => 3
  | .hint => 4

/-- The severity of a number; what is missing or unknown is an error. -/
def severityOf (number : Option Int) : Severity :=
  ((Severity.all.find? fun s => number == some (severityNumber s))).getD .error

namespace Message

/-- What the editor is told of a diagnostic. -/
def ofDiagnostic (text : String) (index : LineIndex) (d : Diagnostic) : Outcome Message := do
  let range ← index.range text (← d.span.toRange)
  return {
    range := range
    severity := some (severityNumber d.severity)
    code := some (.text d.code)
    codeLink := none
    source := some d.source
    message := d.message
    related := none
    tags := none
    data := d.data }

/-- The diagnostic that the editor means: none if there is no fix for its code, or if its range
does not fit the text. An unknown source is left empty. -/
def toDiagnostic? (text : String) (index : LineIndex) (fixes : FixRegistry) (m : Message) :
    Option Diagnostic :=
  match m.code with
  | some (.text code) => do
    let code ← fixes.canonicalCode? code
    let range ← index.byteRange? text m.range
    some {
      span := range.toSpan
      severity := severityOf m.severity
      code := code
      source := (m.source.bind Source.known?).getD ""
      message := m.message
      data := m.data }
  | _ => none

end Message

/-- What the editor is told of an edit. -/
def TextChange.ofEdit (text : String) (index : LineIndex) (e : Edit) : Outcome TextChange := do
  return ⟨← index.range text e.range, e.replacement⟩

end JakartaCheck.Editor
