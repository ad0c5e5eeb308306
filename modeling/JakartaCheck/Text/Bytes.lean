import JakartaCheck.Fault

/-!
# Offsets into a text

Offsets count bytes of the UTF-8 form of a text. A text is cut only between characters:
`splitBytes?` says whether an offset is such a place, and `slice?` cuts a piece out of a text.
-/

namespace JakartaCheck.Text

/-- Length in bytes of the UTF-8 form. -/
def byteLen : List Char → Nat
  | [] => 0
  | c :: cs => c.utf8Size + byteLen cs

/-- Number of UTF-16 code units of a character. -/
def units16Of (c : Char) : Nat := if c.toNat < 0x10000 then 1 else 2

/-- Length in code units of the UTF-16 form. -/
def units16 : List Char → Nat
  | [] => 0
  | c :: cs => units16Of c + units16 cs

/-- The first `n` bytes and what follows them, unless the cut would split a character or lie past
the end. -/
def splitBytes? (n : Nat) : List Char → Option (List Char × List Char)
  | [] => if n = 0 then some ([], []) else none
  | c :: cs =>
    if n = 0 then some ([], c :: cs)
    else if c.utf8Size ≤ n then
      (splitBytes? (n - c.utf8Size) cs).map fun (taken, rest) => (c :: taken, rest)
    else none

/-- The whole characters that fit into the first `n` bytes. -/
def takeBytes (n : Nat) : List Char → List Char
  | [] => []
  | c :: cs => if c.utf8Size ≤ n then c :: takeBytes (n - c.utf8Size) cs else []

/-- What remains after `takeBytes`. -/
def dropBytes (n : Nat) : List Char → List Char
  | [] => []
  | c :: cs => if c.utf8Size ≤ n then dropBytes (n - c.utf8Size) cs else c :: cs

/-- Length of a text in bytes. -/
def length (text : String) : Nat := byteLen text.toList

/-- Is `offset` a place between two characters, or an end of the text? -/
def isBoundary (text : String) (offset : Nat) : Bool :=
  (splitBytes? offset text.toList).isSome

/-- The piece of a text between two offsets. -/
def slice? (text : String) (start stop : Nat) : Option String :=
  if stop < start then none
  else do
    let (_, rest) ← splitBytes? start text.toList
    let (piece, _) ← splitBytes? (stop - start) rest
    some (String.ofList piece)

/-- Like `slice?`, with a fault in place of `none`. -/
def slice (text : String) (start stop : Nat) : Except Fault String :=
  match slice? text start stop with
  | some piece => .ok piece
  | none => .error (.badSlice start stop)

/-! ### Searching -/

/-- Does `piece` start `cs`? -/
def startsWith (piece cs : List Char) : Bool := piece.isPrefixOf cs

/-- Does `piece` occur somewhere in `cs`? -/
def occursIn (piece : List Char) : List Char → Bool
  | [] => piece.isEmpty
  | c :: cs => piece.isPrefixOf (c :: cs) || occursIn piece cs

/-- What stands before the first occurrence of `piece`, and what starts with it. -/
def splitBefore (piece : List Char) : List Char → Option (List Char × List Char)
  | [] => if piece.isEmpty then some ([], []) else none
  | c :: cs =>
    if piece.isPrefixOf (c :: cs) then some ([], c :: cs)
    else (splitBefore piece cs).map fun (before, rest) => (c :: before, rest)

/-- `cs` cut at each `separator`; there is always at least one part. -/
def splitOn (separator : Char) : List Char → List (List Char)
  | [] => [[]]
  | c :: cs =>
    if c = separator then [] :: splitOn separator cs
    else
      match splitOn separator cs with
      | [] => [[c]]
      | part :: parts => (c :: part) :: parts

/-- The parts before and after the first `separator`. -/
def splitOnce (separator : Char) : List Char → Option (List Char × List Char)
  | [] => none
  | c :: cs =>
    if c = separator then some ([], cs)
    else (splitOnce separator cs).map fun (before, after) => (c :: before, after)

/-- The parts before and after the last `separator`. -/
def splitLast (separator : Char) (cs : List Char) : Option (List Char × List Char) :=
  (splitOnce separator cs.reverse).map fun (after, before) => (before.reverse, after.reverse)

/-- What follows the last `separator`, or everything if there is none. -/
def afterLast (separator : Char) (cs : List Char) : List Char :=
  match splitLast separator cs with
  | some (_, after) => after
  | none => cs

/-- `cs` without `piece` in front. -/
def stripFront (piece cs : List Char) : Option (List Char) :=
  if piece.isPrefixOf cs then some (cs.drop piece.length) else none

/-- `cs` without `piece` at the end. -/
def stripBack (piece cs : List Char) : Option (List Char) :=
  if piece.isSuffixOf cs then some (cs.take (cs.length - piece.length)) else none

end JakartaCheck.Text
