import JakartaCheck.Text.Bytes

/-!
# Files

A `FileTree` is what is known of a file system: files, directories, and the one that relative paths
start from. Paths are walked name by name, and `..` leads up only from a directory that exists.
-/

namespace JakartaCheck

/-- Why a path cannot be used. -/
inductive AccessError where
  | notFound
  | notADirectory
  | isADirectory
deriving DecidableEq, Repr

def AccessError.message : AccessError → String
  | .notFound => "No such file or directory (os error 2)"
  | .notADirectory => "Not a directory (os error 20)"
  | .isADirectory => "Is a directory (os error 21)"

/-- A place is given by the names from the root of the file system on. -/
abbrev Place := List String

structure FileTree where
  /-- The working directory. -/
  location : Place
  /-- Files and their texts. -/
  files : List (Place × String)
  /-- Directories that are there even if they are empty. -/
  directories : List Place
deriving Repr

namespace FileTree

/-- What stands at a place. -/
inductive Entry where
  | file (text : String)
  | directory
deriving DecidableEq, Repr

/-- Looks at a place. Whatever has something below it is a directory. -/
def entryAt? (t : FileTree) (place : Place) : Option Entry :=
  match t.files.find? (·.1 == place) with
  | some (_, text) => some (.file text)
  | none =>
    if (t.location :: t.files.map (·.1) ++ t.directories).any place.isPrefixOf then some .directory
    else none

/-- Adds what stands at a place. -/
def add (t : FileTree) (place : Place) : Entry → FileTree
  | .file text => { t with files := t.files ++ [(place, text)] }
  | .directory => { t with directories := t.directories ++ [place] }

/-- The place that a name leads to from a directory. -/
def step (place : Place) (name : String) : Place :=
  if name == "" || name == "." then place
  else if name == ".." then place.dropLast
  else place ++ [name]

/-- Follows names from a place on. -/
def walk (t : FileTree) (place : Place) : List String → Except AccessError Place
  | [] => .ok place
  | name :: names =>
    match t.entryAt? place with
    | none => .error .notFound
    | some (.file _) => .error .notADirectory
    | some .directory =>
      if (t.entryAt? (step place name)).isSome then t.walk (step place name) names
      else .error .notFound

/-- Where a path starts, and the names it consists of. -/
def route (location : Place) (path : String) : Place × List String :=
  let names := (Text.splitOn '/' path.toList).map String.ofList
  (if Text.startsWith ['/'] path.toList then [] else location, names)

/-- The place that a path leads to. Relative paths start at the working directory. -/
def resolve (t : FileTree) (path : String) : Except AccessError Place :=
  if path.isEmpty then .error .notFound
  else
    let (start, names) := route t.location path
    t.walk start names

/-- The places that a path passes through, whether there is anything or not. -/
def placesAlong (location : Place) (path : String) : List Place :=
  let (start, names) := route location path
  (names.foldl (fun (place, passed) name =>
    let next := step place name
    (next, passed ++ [next])) (start, [start])).2

/-- The path from the root to a place. -/
def pathOf (place : Place) : String := "/" ++ String.intercalate "/" place

/-- The text of a file. -/
def read (t : FileTree) (path : String) : Except AccessError String := do
  match t.entryAt? (← t.resolve path) with
  | some (.file text) => .ok text
  | some .directory => .error .isADirectory
  | none => .error .notFound

def isFile (t : FileTree) (path : String) : Bool := (t.read path).isOk

end FileTree

end JakartaCheck
