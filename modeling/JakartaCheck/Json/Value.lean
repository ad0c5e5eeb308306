/-!
# JSON values

Findings carry JSON payloads, declarations have a JSON form, and editors are answered in JSON. An
object is the list of its members, in order.
-/

namespace JakartaCheck

/-- A JSON value. The number `mantissa · 10 ^ (-scale)` keeps the digits it was written with. -/
inductive Json where
  | null
  | bool (value : Bool)
  | number (mantissa : Int) (scale : Nat)
  | string (value : String)
  | array (items : List Json)
  | object (members : List (String × Json))
deriving Inhabited, Repr, BEq

namespace Json

/-- A natural number. -/
def nat (n : Nat) : Json := .number n 0

/-- The value of an option, or `null`. -/
def option {α : Type} (encode : α → Json) : Option α → Json
  | some a => encode a
  | none => .null

def list {α : Type} (encode : α → Json) (items : List α) : Json := .array (items.map encode)

/-- The string of a string value. -/
def asString? : Json → Option String
  | .string s => some s
  | _ => none

def asBool? : Json → Option Bool
  | .bool b => some b
  | _ => none

/-- A whole number that is not negative. -/
def asNat? : Json → Option Nat
  | .number (.ofNat n) 0 => some n
  | _ => none

def asInt? : Json → Option Int
  | .number n 0 => some n
  | _ => none

def asArray? : Json → Option (List Json)
  | .array items => some items
  | _ => none

/-- The first member of that name. -/
def member? (j : Json) (name : String) : Option Json :=
  match j with
  | .object members => (members.find? (·.1 == name)).map (·.2)
  | _ => none

end Json

end JakartaCheck
