import JakartaCheck.Document.Uri
import JakartaCheck.Editor.Message
import JakartaCheck.Json.Record

/-!
# JSON of the messages of an editor

Fields that are absent are not written, and neither is empty data.
-/

namespace JakartaCheck.Editor

/-! ### Writing -/

def positionJson (p : Position) : Json :=
  .object [("line", .nat p.line), ("character", .nat p.column)]

def rangeJson (r : PositionRange) : Json :=
  .object [("start", positionJson r.start), ("end", positionJson r.stop)]

def codeJson : MessageCode → Json
  | .number n => .number n 0
  | .text s => .string s

def RelatedPlace.toJson (r : RelatedPlace) : Json :=
  .object [("location", .object [("uri", .string r.uri), ("range", rangeJson r.range)]),
    ("message", .string r.message)]

/-- A member for a value that is there. -/
def member (name : String) (value : Option Json) : List (String × Json) :=
  match value with
  | none => []
  | some .null => []
  | some j => [(name, j)]

def Message.toJson (m : Message) : Json :=
  .object ([("range", rangeJson m.range)] ++
    member "severity" (m.severity.map (.number · 0)) ++
    member "code" (m.code.map codeJson) ++
    member "codeDescription" (m.codeLink.map fun link => .object [("href", .string link)]) ++
    member "source" (m.source.map .string) ++
    [("message", .string m.message)] ++
    member "relatedInformation" (m.related.map (.list RelatedPlace.toJson)) ++
    member "tags" (m.tags.map (.list (.number · 0))) ++
    member "data" m.data)

def TextChange.toJson (c : TextChange) : Json :=
  .object [("range", rangeJson c.range), ("newText", .string c.newText)]

/-! ### Reading -/

/-- A natural number of 32 bits. -/
def word32? (j : Json) : Option Nat := j.asNat?.filter (· < 0x100000000)

/-- A signed number of 32 bits. -/
def int32? (j : Json) : Option Int := j.asInt?.filter fun n => -0x80000000 ≤ n && n < 0x80000000

def position? (j : Json) : Option Position :=
  match j.fields? ["line", "character"] with
  | some [line, character] => do
    some ⟨← Json.required word32? line, ← Json.required word32? character⟩
  | _ => none

def range? (j : Json) : Option PositionRange :=
  match j.fields? ["start", "end"] with
  | some [start, stop] => do
    some ⟨← Json.required position? start, ← Json.required position? stop⟩
  | _ => none

def code? (j : Json) : Option MessageCode :=
  (int32? j).map .number <|> j.asString?.map .text

def uri? (j : Json) : Option String := j.asString?.filter Uri.isValid

def codeLink? (j : Json) : Option String :=
  match j.fields? ["href"] with
  | some [href] => Json.required uri? href
  | _ => none

def location? (j : Json) : Option (String × PositionRange) :=
  match j.fields? ["uri", "range"] with
  | some [uri, range] => do some (← Json.required uri? uri, ← Json.required range? range)
  | _ => none

def RelatedPlace.ofJson? (j : Json) : Option RelatedPlace :=
  match j.fields? ["location", "message"] with
  | some [location, message] => do
    let (uri, range) ← Json.required location? location
    some ⟨uri, range, ← Json.required Json.asString? message⟩
  | _ => none

def Message.ofJson? (j : Json) : Option Message :=
  match j.fields? ["range", "severity", "code", "codeDescription", "source", "message",
      "relatedInformation", "tags", "data"] with
  | some [range, severity, code, link, source, message, related, tags, data] => do
    some {
      range := ← Json.required range? range
      severity := ← Json.optional int32? severity
      code := ← Json.optional code? code
      codeLink := ← Json.optional codeLink? link
      source := ← Json.optional Json.asString? source
      message := ← Json.required Json.asString? message
      related := ← Json.optional (Json.items? RelatedPlace.ofJson?) related
      tags := ← Json.optional (Json.items? int32?) tags
      data := ← Json.optional some data }
  | _ => none

/-! ### Requests -/

/-- A request for the diagnostics of documents. -/
structure DiagnosticsRequest where
  uris : List String
deriving Repr

/-- A request for fixes in a range of a document. -/
structure ActionsRequest where
  uri : String
  range : PositionRange
  /-- The diagnostics that the editor shows. -/
  shown : List Message
deriving Repr

/-- How an editor can show text. -/
def markup? (j : Json) : Option String :=
  j.asString?.filter fun s => s == "plaintext" || s == "markdown"

/-- The fields of a record whose last field need not be there. -/
def fieldsUpTo? (names : List String) (j : Json) : Option (List (Option Json)) :=
  match j with
  | .array items =>
    if items.length + 1 = names.length then some (items.map some ++ [none]) else j.fields? names
  | _ => j.fields? names

def DiagnosticsRequest.ofJson? (j : Json) : Option DiagnosticsRequest :=
  match fieldsUpTo? ["uris", "documentFormat"] j with
  | some [uris, format] => do
    let _ ← Json.optional markup? format
    some ⟨← Json.required (Json.items? uri?) uris⟩
  | _ => none

def ActionsRequest.ofJson? (j : Json) : Option ActionsRequest :=
  match fieldsUpTo? ["uri", "range", "diagnostics"] j with
  | some [uri, range, shown] => do
    let shown ← match shown with
      | none => some []
      | some j => Json.items? Message.ofJson? j
    some ⟨← Json.required uri? uri, ← Json.required range? range, shown⟩
  | _ => none

end JakartaCheck.Editor
