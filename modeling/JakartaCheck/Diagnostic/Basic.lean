import JakartaCheck.Json.Value
import JakartaCheck.Text.Span

/-!
# Diagnostics

A `Diagnostic` is a problem at one place of a source. Its code says which rule of which
specification is broken, and its payload tells a fix what to change: most often a list of names.
-/

namespace JakartaCheck

inductive Severity where
  | error
  | warning
  | info
  | hint
deriving DecidableEq, Repr

namespace Severity

def label : Severity → String
  | .error => "error"
  | .warning => "warning"
  | .info => "info"
  | .hint => "hint"

def all : List Severity := [.error, .warning, .info, .hint]

def ofLabel? (word : String) : Option Severity := all.find? (·.label == word)

end Severity

/-! ### The tags of the specifications that diagnostics come from -/

namespace Source

def cdi : String := "jakarta-cdi"
def rest : String := "jakarta-jax_rs"
def beanValidation : String := "jakarta-bean-validation"
def jsonBinding : String := "jakarta-json_b"
def jsonProcessing : String := "jakarta-json_p"
def persistence : String := "jakarta-persistence"
def servlet : String := "jakarta-servlet"
def websocket : String := "jakarta-websocket"
def annotations : String := "jakarta-annotations"

def all : List String :=
  [cdi, rest, beanValidation, jsonBinding, jsonProcessing, persistence, servlet, websocket,
    annotations]

/-- A tag that was sent by an editor, if it is one of ours. -/
def known? (tag : String) : Option String := all.find? (· == tag)

end Source

structure Diagnostic where
  span : Span
  severity : Severity
  code : String
  source : String
  message : String
  data : Option Json
deriving Repr

namespace Diagnostic

def error (source code message : String) (span : Span) : Diagnostic :=
  ⟨span, .error, code, source, message, none⟩

def warning (source code message : String) (span : Span) : Diagnostic :=
  ⟨span, .warning, code, source, message, none⟩

/-- The diagnostic with a list of names as its payload. -/
def withNames (d : Diagnostic) (names : List String) : Diagnostic :=
  { d with data := some (.list .string names) }

/-- The names in the payload: the strings of an array, and none in any other payload. -/
def names (d : Diagnostic) : List String :=
  match d.data with
  | some (.array items) => items.filterMap Json.asString?
  | _ => []

end Diagnostic

end JakartaCheck
