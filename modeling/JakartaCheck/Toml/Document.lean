import JakartaCheck.Toml.Scalar

/-!
# TOML documents

A document is read in two steps: its lines into statements, and the statements into the table they
describe. `Toml.ofText?` does both.
-/

namespace JakartaCheck.Toml

/-- A line that says something. -/
inductive Statement where
  /-- A header in brackets. -/
  | header (front : List String) (name : String)
  /-- A header in double brackets. -/
  | element (front : List String) (name : String)
  | entry (front : List String) (name : String) (value : Toml)

/-- A key: the names before the last point, and the last name. -/
abbrev Key := List String × String

/-- How many names a key may have, and how deep values may be nested. -/
def depthLimit : Nat := 79

def isBare (c : Char) : Bool := c.isAlphanum || c == '-' || c == '_'

/-- One name of a key. -/
def keyName : Scan String := fun cs =>
  match cs with
  | c :: _ =>
    if c = '"' ∨ c = '\'' then shortString cs
    else
      match cs.takeWhile isBare with
      | [] => none
      | name => some (String.ofList name, cs.drop name.length)
  | [] => none

/-- A key of at most so many names, with spaces around each of them. -/
def keyOf : Nat → Scan Key
  | 0, _ => none
  | limit + 1, cs => do
    let (name, rest) ← keyName (skipSpaces cs)
    match skipSpaces rest with
    | '.' :: rest =>
      let ((front, last), rest) ← keyOf limit rest
      some ((name :: front, last), rest)
    | rest => some (([], name), rest)

def key : Scan Key := keyOf depthLimit

/-- Drops spaces, line breaks and comments between the items of an array. A comment ends with its
line. -/
def skipFiller (inComment : Bool) : List Char → Option (List Char)
  | '\n' :: cs => skipFiller false cs
  | '\r' :: '\n' :: cs => skipFiller false cs
  | c :: cs =>
    if inComment then if isText c then skipFiller true cs else none
    else if isSpace c then skipFiller false cs
    else if c = '#' then skipFiller true cs
    else some (c :: cs)
  | [] => if inComment then none else some []

/-- The items of an array up to its bracket. -/
def arrayItems (value : Scan Toml) : Nat → Scan (List Toml)
  | 0, _ => none
  | fuel + 1, cs => do
    match ← skipFiller false cs with
    | ']' :: rest => some ([], rest)
    | cs =>
      let (item, rest) ← value cs
      match ← skipFiller false rest with
      | ']' :: rest => some ([item], rest)
      | ',' :: rest =>
        let (items, rest) ← arrayItems value fuel rest
        some (item :: items, rest)
      | _ => none

/-- A key, an equals sign and a value. -/
def keyValue (value : Scan Toml) : Scan (Key × Toml) := fun cs => do
  let (found, rest) ← key cs
  let (item, rest) ← value (skipSpaces (← expect '=' rest))
  some ((found, item), rest)

/-- The entries of a table in braces, of which there is at least one. -/
def braceEntries (value : Scan Toml) : Nat → Scan (List (Key × Toml))
  | 0, _ => none
  | fuel + 1, cs => do
    let (entry, rest) ← keyValue value cs
    match skipSpaces rest with
    | '}' :: rest => some ([entry], rest)
    | ',' :: rest =>
      let (entries, rest) ← braceEntries value fuel rest
      some (entry :: entries, rest)
    | _ => none

/-- The table that entries in braces make. -/
def braceTable? (entries : List (Key × Toml)) : Option Toml := do
  let made ← entries.foldlM (fun (made : Entries) (entry : Key × Toml) =>
    Entries.insert entry.1.1 entry.1.2 entry.2 .braces made) []
  some (.table .braces made)

/-- A value that is nested at most so deep. -/
def valueOf : Nat → Scan Toml
  | 0, cs => scalar cs
  | depth + 1, cs =>
    match cs with
    | '[' :: rest => do
      let (items, rest) ← arrayItems (valueOf depth) (rest.length + 1) rest
      some (.array items, rest)
    | '{' :: rest =>
      match skipSpaces rest with
      | '}' :: rest => some (.table .braces [], rest)
      | rest => do
        let (entries, rest) ← braceEntries (valueOf depth) (rest.length + 1) rest
        some (← braceTable? entries, rest)
    | _ => scalar cs

def value : Scan Toml := valueOf depthLimit

/-! ### Statements -/

/-- What follows the end of a line, before which there may be spaces and a comment. -/
def afterLine? (cs : List Char) : Option (List Char) :=
  let rest := match skipSpaces cs with
    | '#' :: rest => rest.dropWhile isText
    | rest => rest
  if rest.isEmpty then some [] else afterBreak? rest

/-- The statement that the line starts with. -/
def statement : Scan Statement := fun cs =>
  match cs with
  | '[' :: '[' :: rest => do
    let ((front, name), rest) ← key rest
    some (.element front name, ← expect ']' (← expect ']' rest))
  | '[' :: rest => do
    let ((front, name), rest) ← key rest
    some (.header front name, ← expect ']' rest)
  | _ => do
    let (((front, name), item), rest) ← keyValue value cs
    some (.entry front name item, rest)

/-- All statements. -/
def statements : Nat → List Char → Option (List Statement)
  | 0, _ => none
  | fuel + 1, cs =>
    match skipSpaces cs with
    | [] => some []
    | c :: rest =>
      if c = '#' ∨ c = '\n' ∨ c = '\r' then do
        statements fuel (← afterLine? (c :: rest))
      else do
        let (found, rest) ← statement (c :: rest)
        let more ← statements fuel (← afterLine? rest)
        some (found :: more)

/-! ### The table of a document -/

/-- Carries out a statement. `here` is the table of the last header. -/
def Statement.apply (here : List String) (root : Entries) :
    Statement → Option (List String × Entries)
  | .header front name => do
    let root ← Entries.changeAt .path (fun _ => Entries.openTable name) front .header root
    some (front ++ [name], root)
  | .element front name => do
    let root ← Entries.changeAt .path (fun _ => Entries.openElement name) front .header root
    some (front ++ [name], root)
  | .entry front name value => do
    let root ← Entries.changeAt .path (Entries.insert front name value) here .header root
    some (here, root)

/-- The table that statements describe, when `root` was described before them. -/
def assemble? (here : List String) (root : Entries) : List Statement → Option Entries
  | [] => some root
  | first :: rest => do
    let (here, root) ← first.apply here root
    assemble? here root rest

/-- The table of a document. A byte order mark in front is skipped. -/
def ofText? (text : String) : Option Entries := do
  let cs := match text.toList with
    | '\uFEFF' :: cs => cs
    | cs => cs
  assemble? [] [] (← statements (cs.length + 1) cs)

end JakartaCheck.Toml
