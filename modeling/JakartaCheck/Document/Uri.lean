import JakartaCheck.Text.Bytes
import JakartaCheck.Text.Hex

/-!
# URI references

`Uri.isValid` tells whether a text is a URI or a relative reference by the generic syntax of URIs.
Such a text has only ASCII characters, and each percent sign in it starts a coded byte.
-/

namespace JakartaCheck.Uri

def isHex (c : Char) : Bool := Text.isDigitIn 16 c

def isUnreserved (c : Char) : Bool := c.isAlphanum || "-._~".toList.contains c

def isSubDelimiter (c : Char) : Bool := "!$&'()*+,;=".toList.contains c

def isNameChar (c : Char) : Bool := isUnreserved c || isSubDelimiter c

def isUserChar (c : Char) : Bool := isNameChar c || c == ':'

def isPathChar (c : Char) : Bool := isUserChar c || c == '@' || c == '/'

def isQueryChar (c : Char) : Bool := isPathChar c || c == '?'

/-- Is each character allowed or part of a coded byte? -/
def allCoded (isAllowed : Char → Bool) : List Char → Bool
  | '%' :: a :: b :: cs => isHex a && isHex b && allCoded isAllowed cs
  | c :: cs => isAllowed c && allCoded isAllowed cs
  | [] => true

/-- The part before the first character that satisfies `stops`, and what starts there. -/
def cutAt (stops : Char → Bool) (cs : List Char) : List Char × List Char :=
  (cs.takeWhile (!stops ·), cs.dropWhile (!stops ·))

/-! ### Hosts -/

/-- A number up to 255 without leading zeros. -/
def isOctet (cs : List Char) : Bool :=
  !cs.isEmpty && cs.length ≤ 3 && cs.all Char.isDigit && (cs.length == 1 || cs.head? != some '0') &&
    match Text.digitsFrom? 10 0 cs with
    | some n => n ≤ 255
    | none => false

def isIpv4 (cs : List Char) : Bool :=
  let parts := Text.splitOn '.' cs
  parts.length == 4 && parts.all isOctet

def isGroup (cs : List Char) : Bool := 1 ≤ cs.length && cs.length ≤ 4 && cs.all isHex

/-- How many groups of 16 bits the parts stand for; the last part may be an IPv4 address, if
`mayEnd` says so. -/
def groupCount? (mayEnd : Bool) : List (List Char) → Option Nat
  | [] => some 0
  | [part] =>
    if isGroup part then some 1 else if mayEnd && isIpv4 part then some 2 else none
  | part :: parts => if isGroup part then (groupCount? mayEnd parts).map (· + 1) else none

def groupsOf? (mayEnd : Bool) (cs : List Char) : Option Nat :=
  if cs.isEmpty then some 0 else groupCount? mayEnd (Text.splitOn ':' cs)

def isIpv6 (cs : List Char) : Bool :=
  match Text.splitBefore [':', ':'] cs with
  | none => groupsOf? true cs == some 8
  | some (front, rest) =>
    match groupsOf? false front, groupsOf? true (rest.drop 2) with
    | some a, some b => a + b ≤ 7
    | _, _ => false

/-- An address of a later version: `v`, its number, a point and the address. -/
def isFutureAddress : List Char → Bool
  | v :: cs =>
    (v == 'v' || v == 'V') &&
      match Text.splitOnce '.' cs with
      | some (version, address) =>
        !version.isEmpty && version.all isHex && !address.isEmpty && address.all isUserChar
      | none => false
  | [] => false

/-- Is this nothing, or a colon and digits? -/
def isPort : List Char → Bool
  | [] => true
  | ':' :: cs => cs.all Char.isDigit
  | _ => false

def isHostPort (cs : List Char) : Bool :=
  match cs with
  | '[' :: rest =>
    match Text.splitOnce ']' rest with
    | some (address, after) => (isIpv6 address || isFutureAddress address) && isPort after
    | none => false
  | _ =>
    let (host, after) := cutAt (· == ':') cs
    allCoded isNameChar host && isPort after

def isAuthority (cs : List Char) : Bool :=
  match Text.splitOnce '@' cs with
  | some (user, host) => allCoded isUserChar user && isHostPort host
  | none => isHostPort cs

/-! ### The parts of a reference -/

def isScheme : List Char → Bool
  | c :: cs => c.isAlpha && cs.all fun d => d.isAlphanum || d == '+' || d == '-' || d == '.'
  | [] => false

/-- The scheme in front of a colon, and what follows. A slash before the colon means that there is
no scheme. -/
def splitScheme? (cs : List Char) : Option (List Char × List Char) :=
  match cutAt (fun c => c == ':' || c == '/') cs with
  | (scheme, ':' :: rest) => some (scheme, rest)
  | _ => none

/-- The host with what belongs to it, if there is one after two slashes, and the path. -/
def splitAuthority (cs : List Char) : Option (List Char) × List Char :=
  match cs with
  | '/' :: '/' :: rest =>
    let (authority, path) := cutAt (· == '/') rest
    (some authority, path)
  | _ => (none, cs)

/-- Is a text without query and fragment a reference? -/
def isHierarchy (cs : List Char) : Bool :=
  let (schemeOk, rest) := match splitScheme? cs with
    | some (scheme, rest) => (isScheme scheme, rest)
    | none => (true, cs)
  let (authority, path) := splitAuthority rest
  schemeOk && authority.all isAuthority && allCoded isPathChar path

/-- The text before its query and fragment, and those two, each with the character in front. -/
def splitSuffix (cs : List Char) : List Char × List Char × List Char :=
  let (front, fragment) := cutAt (· == '#') cs
  let (hierarchy, query) := cutAt (· == '?') front
  (hierarchy, query, fragment)

/-- Is the text a URI or a relative reference? -/
def isValid (uri : String) : Bool :=
  let (hierarchy, query, fragment) := splitSuffix uri.toList
  isHierarchy hierarchy && allCoded isQueryChar (query.drop 1) &&
    allCoded isQueryChar (fragment.drop 1)

end JakartaCheck.Uri
