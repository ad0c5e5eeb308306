import JakartaCheck.CommandLine

/-!
# The program

Reads the files that a run looks at, and prints what the run computes.
-/

namespace JakartaCheck.CommandLine

/-- What stands at a place on disk. What is there and cannot be read as a file is a directory. -/
def loadEntry (place : Place) : IO (Option FileTree.Entry) := do
  let path := FileTree.pathOf place
  try
    return some (.file (← IO.FS.readFile path))
  catch _ =>
    try
      let _ ← IO.FS.realPath path
      return some .directory
    catch _ => return none

/-- The part of the file system that a run looks at. -/
def loadTree (args : List String) : IO FileTree := do
  let location := (Text.splitOn '/' (toString (← IO.currentDir)).toList).map String.ofList
  let location := location.filter (!·.isEmpty)
  let places := ((pathsRead args).flatMap (FileTree.placesAlong location)).eraseDups
  let mut tree : FileTree := ⟨location, [], []⟩
  for place in places do
    if let some entry ← loadEntry place then
      tree := tree.add place entry
  return tree

end JakartaCheck.CommandLine

open JakartaCheck.CommandLine in
def main (args : List String) : IO UInt32 := do
  let ending := run (← loadTree args) args
  IO.print ending.stdout
  IO.eprint ending.stderr
  return ending.code.toUInt32
