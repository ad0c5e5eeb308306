import JakartaCheck.Document.Uri

/-!
# Files and their URIs

`FileUri.ofPlace` writes the URI of a file, and `FileUri.path?` finds the path that a URI stands
for. Between the two, `.` and `..` are folded, coded bytes are decoded, and query, fragment and the
host `localhost` are dropped.
-/

namespace JakartaCheck.FileUri

/-- A hexadecimal digit in upper case. -/
def hexDigit (n : Nat) : Char := if n < 10 then Char.ofNat (48 + n) else Char.ofNat (55 + n)

/-- Has a byte to be coded in a name of a path? -/
def needsCode (b : UInt8) : Bool :=
  b.toNat ≤ 0x20 || 0x7F ≤ b.toNat || "\"#<>?`\x7b\x7d/%\\".toList.any fun c => c.toNat == b.toNat

def encodeByte (b : UInt8) : List Char :=
  if needsCode b then ['%', hexDigit (b.toNat / 16), hexDigit (b.toNat % 16)]
  else [Char.ofNat b.toNat]

/-- One name of a path, coded byte by byte. -/
def encodeName (name : String) : List Char := name.toUTF8.toList.flatMap encodeByte

/-- The URI of the file at a place, which is given by the names from the root on. -/
def ofPlace (place : List String) : String :=
  String.ofList ("file://".toList ++
    if place.isEmpty then ['/'] else place.flatMap fun name => '/' :: encodeName name)

/-! ### From a URI to a path -/

/-- The bytes of a text with its coded bytes decoded. -/
def decodeBytes : List Char → List UInt8
  | '%' :: a :: b :: cs =>
    match Text.hexValue? a, Text.hexValue? b with
    | some high, some low => UInt8.ofNat (16 * high + low) :: decodeBytes cs
    | _, _ => '%'.toUInt8 :: decodeBytes (a :: b :: cs)
  | c :: cs => (String.singleton c).toUTF8.toList ++ decodeBytes cs
  | [] => []

/-- A text with its coded dots written as dots. -/
def plainDots : List Char → List Char
  | '%' :: '2' :: e :: cs =>
    if e = 'e' ∨ e = 'E' then '.' :: plainDots cs else '%' :: '2' :: e :: plainDots cs
  | c :: cs => c :: plainDots cs
  | [] => []

/-- A letter and a colon name a drive. -/
def isDrive : List Char → Bool
  | [c, d] => c.isAlpha && (d == ':' || d == '|')
  | _ => false

/-- Drops the last name, but not a drive. -/
def shorten (names : List (List Char)) : List (List Char) :=
  match names with
  | [name] => if isDrive name then names else []
  | _ => names.dropLast

/-- Folds `.` and `..` out of the names of a path; `done` are those before. A path that ends in one
of them ends in a slash. -/
def fold (done : List (List Char)) : List (List Char) → List (List Char)
  | [] => done
  | name :: names =>
    let folded :=
      if plainDots name == ['.', '.'] then shorten done
      else if plainDots name == ['.'] then done
      else done ++ [name]
    let isDots := plainDots name == ['.', '.'] || plainDots name == ['.']
    if isDots && names.isEmpty then folded ++ [[]] else fold folded names

/-- The names of a path, without empty ones in front. -/
def namesOf (path : List Char) : List (List Char) :=
  let names := match path with
    | '/' :: rest => Text.splitOn '/' rest
    | _ => Text.splitOn '/' path
  (fold [] names).dropWhile (·.isEmpty)

/-- The host and the path after the scheme. What looks like a drive is no host. -/
def hostAndPath (cs : List Char) : List Char × List Char :=
  match Uri.splitAuthority cs with
  | (some host, path) => if isDrive host then ([], host ++ path) else (host, path)
  | (none, path) => ([], path)

/-- Is there no host but this machine? A path that starts with a drive makes up for any host. -/
def isLocal (host : List Char) (names : List (List Char)) : Bool :=
  host.isEmpty || decodeBytes (host.map Char.toLower) == "localhost".toUTF8.toList ||
    ((names.head?.map isDrive).getD false && !host.any fun c => c == '@' || c == ':')

/-- A path that ends in a drive is completed by a slash. -/
def completeDrive (path : List UInt8) : List UInt8 :=
  match path.reverse with
  | colon :: letter :: _ :: _ =>
    if isDrive [Char.ofNat letter.toNat, Char.ofNat colon.toNat] then path ++ ['/'.toUInt8]
    else path
  | _ => path

/-- The bytes of the path that a file URI stands for; none for any other URI. -/
def path? (uri : String) : Option (List UInt8) := do
  let (scheme, rest) ← Uri.splitScheme? (Uri.splitSuffix uri.toList).1
  if scheme.map Char.toLower != "file".toList then none
  else
    let (host, path) := hostAndPath rest
    let names := namesOf path
    if isLocal host names then
      let names := if names.isEmpty then [[]] else names
      some (completeDrive (names.flatMap fun name => '/'.toUInt8 :: decodeBytes name))
    else none

end JakartaCheck.FileUri
