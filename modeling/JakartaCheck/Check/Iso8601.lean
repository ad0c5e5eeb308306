import JakartaCheck.Fault
import JakartaCheck.Text.Bytes

/-!
# Dates and times

The date format of ISO 8601: a calendar date, then possibly `T` and a time, then possibly a time
zone, as in `2001-07-04T12:08:56.235-07:00`.
-/

namespace JakartaCheck.Iso8601

/-- The number written with exactly `len` digits. -/
def digits? (len : Nat) (cs : List Char) : Option Nat :=
  if cs.length = len ∧ cs.all Char.isDigit then
    some (cs.foldl (fun n c => 10 * n + (c.toNat - '0'.toNat)) 0)
  else none

/-- Exactly two digits, for a number between `low` and `high`. -/
def twoDigits (low high : Nat) (cs : List Char) : Bool :=
  match digits? 2 cs with
  | some n => low ≤ n && n ≤ high
  | none => false

/-- Year, month and day. -/
def isDate (cs : List Char) : Bool :=
  match Text.splitOn '-' cs with
  | [year, month, day] =>
    (digits? 4 year).isSome && twoDigits 1 12 month && twoDigits 1 31 day
  | _ => false

/-- Hours and minutes, possibly seconds, and only after seconds a fraction. -/
def isTime (cs : List Char) : Bool :=
  let (clock, fraction) := match Text.splitOnce '.' cs with
    | some (clock, fraction) => (clock, some fraction)
    | none => (cs, none)
  let fractionOk := match fraction with
    | some ds => !ds.isEmpty && ds.all Char.isDigit
    | none => true
  fractionOk &&
    match Text.splitOn ':' clock with
    | [h, m] => fraction.isNone && twoDigits 0 23 h && twoDigits 0 59 m
    | [h, m, s] => twoDigits 0 23 h && twoDigits 0 59 m && twoDigits 0 60 s
    | _ => false

/-- Hours and minutes of a zone, with a colon, without one in four bytes, or hours alone. Four
bytes are cut in the middle, which must not split a character. -/
def zoneParts (offset : List Char) : Outcome (List Char × Option (List Char)) :=
  match Text.splitOnce ':' offset with
  | some (hours, minutes) => .ok (hours, some minutes)
  | none =>
    if Text.byteLen offset = 4 then
      match Text.splitBytes? 2 offset with
      | some (hours, minutes) => .ok (hours, some minutes)
      | none => .error (.badSlice 0 2)
    else .ok (offset, none)

/-- Nothing, `Z`, or a sign and the distance from universal time. -/
def isZone (cs : List Char) : Outcome Bool :=
  match cs with
  | [] => .ok true
  | ['Z'] => .ok true
  | sign :: offset =>
    if sign == '+' || sign == '-' then do
      let (hours, minutes) ← zoneParts offset
      return twoDigits 0 23 hours &&
        match minutes with
        | some minutes => twoDigits 0 59 minutes
        | none => true
    else .ok false

/-- Can a zone start with this character? -/
def startsZone (c : Char) : Bool := c == 'Z' || c == '+' || c == '-'

/-- Is the string a date, or a date and a time? -/
def isValid (value : String) : Outcome Bool :=
  match Text.splitOnce 'T' value.toList with
  | none => .ok (isDate value.toList)
  | some (date, rest) =>
    if isDate date && isTime (rest.takeWhile (!startsZone ·)) then
      isZone (rest.dropWhile (!startsZone ·))
    else .ok false

end JakartaCheck.Iso8601
