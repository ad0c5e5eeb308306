import JakartaCheck.Text.Hex
import JakartaCheck.Toml.Table

/-!
# TOML strings, numbers and dates

A scanner takes the characters that are left and gives a value and the rest.
-/

namespace JakartaCheck.Toml

/-- Reads a value off the front of the input. -/
abbrev Scan (α : Type) := List Char → Option (α × List Char)

/-- May `c` stand in a comment? All but control characters may, and tabs too. -/
def isText (c : Char) : Bool := c == '\t' || (0x20 ≤ c.toNat && c.toNat != 0x7F)

def isSpace (c : Char) : Bool := c == ' ' || c == '\t'

def skipSpaces (cs : List Char) : List Char := cs.dropWhile isSpace

/-- What follows a line break. -/
def afterBreak? : List Char → Option (List Char)
  | '\n' :: cs => some cs
  | '\r' :: '\n' :: cs => some cs
  | _ => none

/-- Drops spaces and line breaks. -/
def skipBreaks : List Char → List Char
  | '\n' :: cs => skipBreaks cs
  | '\r' :: '\n' :: cs => skipBreaks cs
  | c :: cs => if isSpace c then skipBreaks cs else c :: cs
  | [] => []

/-! ### Strings -/

/-- The character with a code of exactly `len` hexadecimal digits. -/
def codeEscape (len : Nat) : Scan Char := fun cs =>
  let digits := cs.take len
  if digits.length < len then none
  else do
    let c ← Text.scalar? (← Text.digitsFrom? 16 0 digits)
    some (c, cs.drop len)

/-- What stands after a backslash. -/
def escape : Scan Char
  | 'b' :: cs => some ('\x08', cs)
  | 't' :: cs => some ('\t', cs)
  | 'n' :: cs => some ('\n', cs)
  | 'f' :: cs => some ('\x0c', cs)
  | 'r' :: cs => some ('\r', cs)
  | '"' :: cs => some ('"', cs)
  | '\\' :: cs => some ('\\', cs)
  | 'u' :: cs => codeEscape 4 cs
  | 'U' :: cs => codeEscape 8 cs
  | _ => none

/-- Puts a character in front of what is read next. -/
def push (c : Char) (scanned : Option (List Char × List Char)) : Option (List Char × List Char) :=
  scanned.map fun (cs, rest) => (c :: cs, rest)

/-- A string up to its double quote. -/
def quotedBody : Nat → Scan (List Char)
  | 0, _ => none
  | fuel + 1, cs =>
    match cs with
    | '"' :: rest => some ([], rest)
    | '\\' :: rest =>
      match escape rest with
      | some (c, rest) => push c (quotedBody fuel rest)
      | none => none
    | c :: rest => if isText c then push c (quotedBody fuel rest) else none
    | [] => none

/-- Up to two quotes before the closing three belong to the string. -/
def lastQuotes (quote : Char) : List Char → List Char × List Char
  | a :: b :: rest =>
    if a = quote then if b = quote then ([a, b], rest) else ([a], b :: rest) else ([], a :: b :: rest)
  | [a] => if a = quote then ([a], []) else ([], [a])
  | [] => ([], [])

/-- What follows a backslash at the end of a line and the blank space after it. -/
def afterContinuation? (cs : List Char) : Option (List Char) :=
  (afterBreak? (skipSpaces cs)).map skipBreaks

/-- A string of several lines up to its three double quotes. -/
def quotedLines : Nat → Scan (List Char)
  | 0, _ => none
  | fuel + 1, cs =>
    match cs with
    | '"' :: '"' :: '"' :: rest => some (lastQuotes '"' rest)
    | '\\' :: rest =>
      match afterContinuation? rest with
      | some rest => quotedLines fuel rest
      | none =>
        match escape rest with
        | some (c, rest) => push c (quotedLines fuel rest)
        | none => none
    | '\r' :: '\n' :: rest => push '\n' (quotedLines fuel rest)
    | c :: rest => if isText c || c == '\n' then push c (quotedLines fuel rest) else none
    | [] => none

/-- A literal string up to its quote. -/
def literalBody : Scan (List Char)
  | '\'' :: rest => some ([], rest)
  | c :: rest => if isText c then push c (literalBody rest) else none
  | [] => none

/-- A literal string of several lines up to its three quotes. -/
def literalLines : Scan (List Char)
  | '\'' :: '\'' :: '\'' :: rest => some (lastQuotes '\'' rest)
  | '\r' :: '\n' :: rest => push '\n' (literalLines rest)
  | c :: rest => if isText c || c == '\n' then push c (literalLines rest) else none
  | [] => none

/-- A line break right after the opening quotes is dropped. -/
def dropBreak (cs : List Char) : List Char := (afterBreak? cs).getD cs

/-- A string on one line. -/
def shortString : Scan String
  | '"' :: cs => (quotedBody (cs.length + 1) cs).map fun (s, rest) => (String.ofList s, rest)
  | '\'' :: cs => (literalBody cs).map fun (s, rest) => (String.ofList s, rest)
  | _ => none

/-- A string on one line or on several. -/
def anyString : Scan String
  | '"' :: '"' :: '"' :: cs =>
    (quotedLines (cs.length + 1) (dropBreak cs)).map fun (s, rest) => (String.ofList s, rest)
  | '\'' :: '\'' :: '\'' :: cs =>
    (literalLines (dropBreak cs)).map fun (s, rest) => (String.ofList s, rest)
  | cs => shortString cs

/-! ### Numbers -/

/-- Digits, of which any two may have an underscore between them; the underscores are dropped. -/
def moreDigits (base : Nat) : List Char → List Char × List Char
  | '_' :: d :: cs =>
    if Text.isDigitIn base d then
      let (digits, rest) := moreDigits base cs
      (d :: digits, rest)
    else ([], '_' :: d :: cs)
  | d :: cs =>
    if Text.isDigitIn base d then
      let (digits, rest) := moreDigits base cs
      (d :: digits, rest)
    else ([], d :: cs)
  | [] => ([], [])

/-- At least one digit. -/
def digits (base : Nat) : Scan (List Char)
  | d :: cs =>
    if Text.isDigitIn base d then
      let (more, rest) := moreDigits base cs
      some (d :: more, rest)
    else none
  | [] => none

/-- A sign, if there is one: is it a minus? -/
def sign : List Char → Bool × List Char
  | '-' :: cs => (true, cs)
  | '+' :: cs => (false, cs)
  | cs => (false, cs)

/-- The digits of a whole number; only zero itself starts with a zero. -/
def wholePart : Scan (List Char)
  | '0' :: cs => some (['0'], cs)
  | cs => digits 10 cs

/-- The digits after a point, none if there is no point. -/
def fractionPart : List Char → List Char × List Char
  | '.' :: cs => (digits 10 cs).getD ([], '.' :: cs)
  | cs => ([], cs)

/-- The digits of an exponent, with its sign. -/
def exponentPart (cs : List Char) : Option (Bool × List Char) × List Char :=
  match cs with
  | e :: rest =>
    if e = 'e' ∨ e = 'E' then
      let (negative, rest) := sign rest
      match digits 10 rest with
      | some (digits, rest) => (some (negative, digits), rest)
      | none => (none, cs)
    else (none, cs)
  | [] => (none, [])

def natOf (digits : List Char) : Nat := (Text.digitsFrom? 10 0 digits).getD 0

/-- Is `digits · 10 ^ exponent` so large that its nearest binary number of 64 bits is infinite?
That starts half a unit above the largest finite one, which has 309 digits. -/
def isHuge (digits : List Char) (exponent : Int) : Bool :=
  let significant := digits.dropWhile (· == '0')
  let places := (significant.length : Int) + exponent
  let limit := Nat.pow 2 1024 - Nat.pow 2 970
  if significant.isEmpty || places < 309 then false
  else if 309 < places then true
  else limit * Nat.pow 10 (-exponent).toNat ≤ natOf significant * Nat.pow 10 exponent.toNat

/-- A signed number that fits into 64 bits. -/
def word? (negative : Bool) (n : Nat) : Option Int :=
  if negative then if n ≤ 0x8000000000000000 then some (-n) else none
  else if n < 0x8000000000000000 then some n else none

/-- The text between the start of the input and the rest. -/
def written (cs rest : List Char) : String := String.ofList (cs.take (cs.length - rest.length))

/-- A decimal number, whole or not. -/
def decimal : Scan Toml := fun cs => do
  let (negative, unsigned) := sign cs
  let (whole, rest) ← wholePart unsigned
  let (fraction, rest) := fractionPart rest
  match fraction, exponentPart rest with
  | [], (none, _) => do some (.integer (← word? negative (natOf whole)), rest)
  | fraction, (exponent, rest) =>
    let scale : Int := match exponent with
      | some (true, digits) => -natOf digits
      | some (false, digits) => natOf digits
      | none => 0
    if !negative && isHuge (whole ++ fraction) (scale - fraction.length) then none
    else some (.float (written cs rest), rest)

/-- A whole number in another base. -/
def prefixed (base : Nat) : Scan Toml := fun cs => do
  let (found, rest) ← digits base cs
  some (.integer (← word? false (← Text.digitsFrom? base 0 found)), rest)

/-- Infinity, or no number at all. -/
def special : Scan Toml := fun cs =>
  match (sign cs).2 with
  | 'i' :: 'n' :: 'f' :: rest => some (.float (written cs rest), rest)
  | 'n' :: 'a' :: 'n' :: rest => some (.float (written cs rest), rest)
  | _ => none

/-! ### Dates and times -/

/-- A number of exactly `len` digits between two bounds. -/
def fixedNumber (len low high : Nat) : Scan Nat := fun cs =>
  let taken := cs.take len
  if taken.length < len then none
  else do
    let n ← Text.digitsFrom? 10 0 taken
    if low ≤ n ∧ n ≤ high then some (n, cs.drop len) else none

def expect (c : Char) : List Char → Option (List Char)
  | d :: cs => if d = c then some cs else none
  | [] => none

def daysIn (year month : Nat) : Nat :=
  if month = 2 then
    if year % 4 = 0 ∧ (year % 100 ≠ 0 ∨ year % 400 = 0) then 29 else 28
  else if month ∈ [4, 6, 9, 11] then 30
  else 31

/-- What follows a date. -/
def afterDate? (cs : List Char) : Option (List Char) := do
  let (year, cs) ← fixedNumber 4 0 9999 cs
  let (month, cs) ← fixedNumber 2 1 12 (← expect '-' cs)
  let (_, cs) ← fixedNumber 2 1 (daysIn year month) (← expect '-' cs)
  some cs

/-- What follows a time of day. -/
def afterTime? (cs : List Char) : Option (List Char) := do
  let (_, cs) ← fixedNumber 2 0 23 cs
  let (_, cs) ← fixedNumber 2 0 59 (← expect ':' cs)
  let (_, cs) ← fixedNumber 2 0 60 (← expect ':' cs)
  match cs with
  | '.' :: rest =>
    match rest.takeWhile Char.isDigit with
    | [] => some cs
    | fraction => some (rest.drop fraction.length)
  | _ => some cs

/-- What follows a time zone, if there is one. -/
def afterZone? (cs : List Char) : Option (List Char) :=
  match cs with
  | c :: rest =>
    if c = 'Z' ∨ c = 'z' then some rest
    else if c = '+' ∨ c = '-' then do
      let (_, rest) ← fixedNumber 2 0 23 rest
      let (_, rest) ← fixedNumber 2 0 59 (← expect ':' rest)
      some rest
    else some cs
  | [] => some []

/-- What follows the time after a date, if there is one. -/
def afterMoment? (cs : List Char) : Option (List Char) :=
  match cs with
  | c :: rest =>
    if c = 'T' ∨ c = 't' ∨ c = ' ' then
      match afterTime? rest with
      | some rest => afterZone? rest
      | none => some cs
    else some cs
  | [] => some []

/-- A date, a time, or both. -/
def moment : Scan Toml := fun cs => do
  let rest ← (afterDate? cs).bind afterMoment? <|> afterTime? cs
  some (.dateTime (written cs rest), rest)

/-- A value without parts. -/
def scalar : Scan Toml := fun cs =>
  match cs with
  | 't' :: 'r' :: 'u' :: 'e' :: rest => some (.boolean true, rest)
  | 'f' :: 'a' :: 'l' :: 's' :: 'e' :: rest => some (.boolean false, rest)
  | '0' :: 'x' :: rest => prefixed 16 rest
  | '0' :: 'o' :: rest => prefixed 8 rest
  | '0' :: 'b' :: rest => prefixed 2 rest
  | c :: _ =>
    if c = '"' ∨ c = '\'' then (anyString cs).map fun (s, rest) => (.string s, rest)
    else moment cs <|> special cs <|> decimal cs
  | [] => none

end JakartaCheck.Toml
