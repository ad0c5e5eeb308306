import JakartaCheck.Fixes.Draft
import JakartaCheck.Java.Binding

/-!
# Imports for new names

A fix that writes a type by its simple name may have to import it.
-/

namespace JakartaCheck.Imports

/-- The import after which a new one goes: the last that is not static, or else the last. -/
def anchor? (unit : CompilationUnit) : Option ImportDecl :=
  (unit.imports.filter (!·.isStatic)).getLast? <|> unit.imports.getLast?

/-- Where the first type starts. -/
def firstType (unit : CompilationUnit) : Nat := (unit.types.map (·.span.start)).min?.getD 0

/-- The offset after the package declaration, if the unit has one before `limit`. -/
def packageEnd? (unit : CompilationUnit) (limit : Nat) : Option Nat := do
  let _ ← unit.package
  let head ← Text.slice? unit.text 0 limit
  let (before, rest) ← Text.splitBefore "package".toList head.toList
  let (declaration, _) ← Text.splitOnce ';' rest
  some (Text.byteLen before + Text.byteLen declaration + 1)

/-- The edit that imports `fqn`, unless it is visible. It goes after the imports, or else after
the package, or else before the first type. -/
def importEdit? (unit : CompilationUnit) (fqn : String) : Option Edit :=
  if unit.isVisible fqn then none
  else
    let ending := Draft.lineEnding unit.text
    let insert (offset : Nat) (text : String) := Edit.insert (offset % ByteRange.modulus) text
    match anchor? unit with
    | some found => some (insert found.span.stop s!"{ending}import {fqn};")
    | none =>
      match packageEnd? unit (firstType unit) with
      | some offset => some (insert offset s!"{ending}{ending}import {fqn};")
      | none => some (insert (firstType unit) s!"import {fqn};{ending}{ending}")

/-- How to write `fqn`, and the import that this takes. If its simple name stands for another type,
it is written in full. -/
def typeReference (unit : CompilationUnit) (fqn : String) : String × Option Edit :=
  if unit.isVisible fqn then (TypeText.lastName fqn, none)
  else if unit.simpleNameTaken fqn then (fqn, none)
  else (TypeText.lastName fqn, importEdit? unit fqn)

end JakartaCheck.Imports
