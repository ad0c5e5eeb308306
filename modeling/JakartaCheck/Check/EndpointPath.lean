import JakartaCheck.Text.Bytes

/-!
# Paths of server endpoints

The path of an endpoint is an absolute path or a template in which whole segments are variables in
braces.
-/

namespace JakartaCheck.EndpointPath

/-- What is wrong with a path. -/
inductive Flaw where
  | notAbsolute
  | notNormal
  | partialVariable
  | repeatedVariable
deriving DecidableEq, Repr

def Flaw.message : Flaw → String
  | .notAbsolute => "Server endpoint paths must start with a leading '/'."
  | .notNormal =>
    "Server endpoint paths must not contain the sequences '/../', '/./' or '//'."
  | .partialVariable =>
    "Server endpoint paths must only use a URI template variable as a whole path segment."
  | .repeatedVariable => "Server endpoint paths must not use the same variable more than once."

def isBrace (c : Char) : Bool := c == '\x7b' || c == '\x7d'

/-- What stands between the braces around a segment. -/
def templateName? (segment : List Char) : Option (List Char) := do
  let rest ← Text.stripFront ['\x7b'] segment
  Text.stripBack ['\x7d'] rest

/-- The first flaw of the segments; `seen` are the variables before them. -/
def segmentsFlaw (doubleSlash : Bool) (seen : List (List Char)) :
    List (List Char) → Option Flaw
  | [] => none
  | segment :: segments =>
    if segment == ['.'] || segment == ['.', '.'] || doubleSlash then some .notNormal
    else if !segment.any isBrace then segmentsFlaw doubleSlash seen segments
    else
      match templateName? segment with
      | none => some .partialVariable
      | some name =>
        if name.isEmpty || name.any isBrace then some .partialVariable
        else if seen.contains name then some .repeatedVariable
        else segmentsFlaw doubleSlash (name :: seen) segments

/-- The first flaw of a path. -/
def flaw? (path : String) : Option Flaw :=
  match path.toList with
  | '/' :: rest =>
    segmentsFlaw (Text.occursIn ['/', '/'] path.toList) [] (Text.splitOn '/' rest)
  | _ => some .notAbsolute

end JakartaCheck.EndpointPath
