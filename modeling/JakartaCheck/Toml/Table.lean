/-!
# TOML tables

A table lists its entries in the order in which their keys came up. How a table came about decides
who may still add to it: a header opens a table once, a dotted key adds only to tables that dotted
keys made, and a table in braces is closed.
-/

namespace JakartaCheck

namespace Toml

/-- How a table came about. -/
inductive Origin where
  /-- By a header of its own. -/
  | header
  /-- On the way to a table that has a header. -/
  | path
  /-- By a dotted key. -/
  | dotted
  /-- Between braces. -/
  | braces
deriving DecidableEq, Repr

end Toml

/-- A TOML value. -/
inductive Toml where
  | string (value : String)
  | integer (value : Int)
  | float (written : String)
  | boolean (value : Bool)
  | dateTime (written : String)
  | array (items : List Toml)
  | table (origin : Toml.Origin) (entries : List (String × Toml))
  /-- The tables of one double-bracket header; `last` is the one that is being filled. -/
  | tables (front : List (List (String × Toml))) (last : List (String × Toml))
deriving Inhabited, Repr

namespace Toml

abbrev Entries := List (String × Toml)

namespace Entries

def get? (entries : Entries) (name : String) : Option Toml :=
  (entries.find? (·.1 == name)).map (·.2)

def add (entries : Entries) (name : String) (value : Toml) : Entries := entries ++ [(name, value)]

/-- The entries with another value for a name that is there. -/
def set (entries : Entries) (name : String) (value : Toml) : Entries :=
  entries.map fun entry => if entry.1 == name then (name, value) else entry

def erase (entries : Entries) (name : String) : Entries := entries.filter (·.1 != name)

/-- May a path of one kind lead through a table of another? -/
def mayEnter : Origin → Origin → Bool
  | _, .braces => false
  | .dotted, .header => false
  | _, _ => true

/-- Changes the table at the end of a path, and makes the tables on the way if they are missing.
`change` is told how the table came about. -/
def changeAt (kind : Origin) (change : Origin → Entries → Option Entries) :
    List String → Origin → Entries → Option Entries
  | [], origin, entries => change origin entries
  | name :: path, _, entries =>
    match entries.get? name with
    | none => do
      let inner ← changeAt kind change path kind []
      some (entries.add name (.table kind inner))
    | some (.table origin inner) =>
      if mayEnter kind origin then do
        let inner ← changeAt kind change path origin inner
        some (entries.set name (.table origin inner))
      else none
    | some (.tables front last) => do
      let last ← changeAt kind change path .header last
      some (entries.set name (.tables front last))
    | some _ => none

/-- Adds an entry with a key of one or more names to a table. The last name must be new, and a
dotted key must end in a table that dotted keys made. -/
def insert (front : List String) (name : String) (value : Toml) (origin : Origin)
    (entries : Entries) : Option Entries :=
  changeAt .dotted (fun reached inner =>
    if !front.isEmpty && reached != .dotted then none
    else if (inner.get? name).isSome then none
    else some (inner.add name value)) front origin entries

/-- Opens a table by its header. A table that so far was only passed through moves to the end. -/
def openTable (name : String) (entries : Entries) : Option Entries :=
  match entries.get? name with
  | none => some (entries.add name (.table .header []))
  | some (.table .path inner) => some ((entries.erase name).add name (.table .header inner))
  | some _ => none

/-- Opens one more table of a double-bracket header. -/
def openElement (name : String) (entries : Entries) : Option Entries :=
  match entries.get? name with
  | none => some (entries.add name (.tables [] []))
  | some (.tables front last) => some (entries.set name (.tables (front ++ [last]) []))
  | some _ => none

end Entries

end Toml

end JakartaCheck
