import JakartaCheck.Json.Value

/-!
# Records in JSON

A record is written as an object with one member per field. It is also read from an array that
lists all its fields in order. Members that are no fields are ignored, and a field that may be
absent is read as absent from `null` and from nothing.
-/

namespace JakartaCheck.Json

/-- The fields of a record with these names, each if it is there. -/
def fields? (names : List String) : Json → Option (List (Option Json))
  | .object members => some (names.map (Json.member? (.object members)))
  | .array items => if items.length = names.length then some (items.map some) else none
  | _ => none

/-- Reads a field that has to be there. -/
def required {α : Type} (decode : Json → Option α) (field : Option Json) : Option α :=
  field.bind decode

/-- Reads a field that may be absent. -/
def optional {α : Type} (decode : Json → Option α) : Option Json → Option (Option α)
  | none => some none
  | some .null => some none
  | some j => (decode j).map some

/-- Reads every item of an array. -/
def items? {α : Type} (decode : Json → Option α) : Json → Option (List α)
  | .array items => items.mapM decode
  | _ => none

/-- A natural number of 64 bits. -/
def word64? (j : Json) : Option Nat :=
  match j.asNat? with
  | some n => if n < 0x10000000000000000 then some n else none
  | none => none

end JakartaCheck.Json
