import JakartaCheck.Java.Binding

/-!
# Supertypes

Whether a type extends a class or implements an interface, followed through the types of one
source. What lies outside is `unknown`, except that classes of the platform never extend Jakarta
types and that the ancestors of some Jakarta classes are listed.
-/

namespace JakartaCheck

/-- The answer to a question about supertypes. -/
inductive Conformance where
  | yes
  | no
  /-- The hierarchy leaves the source. -/
  | unknown
deriving DecidableEq, Repr

namespace Conformance

def label : Conformance → String
  | .yes => "Yes"
  | .no => "No"
  | .unknown => "Unknown"

end Conformance

namespace Hierarchy

/-- The declaration that a supertype refers to, if it is in the unit. A name that is bound outside
the package of the unit is not. -/
def localType? (unit : CompilationUnit) (type : TypeRef) : Option TypeDecl := do
  let found ← unit.typeNamed? type.simpleName
  match type.qualifiedName, unit.package with
  | some qualified, some package =>
    if Text.startsWith package.toList qualified.toList then some found else none
  | _, _ => some found

/-- The superclasses of a Jakarta class that applications extend, the nearest first. -/
def knownAncestors? (name : String) : Option (List String) :=
  match name with
  | "jakarta.servlet.GenericServlet" => some []
  | "jakarta.servlet.http.HttpServlet" => some ["jakarta.servlet.GenericServlet"]
  | "jakarta.servlet.GenericFilter" => some []
  | "jakarta.servlet.http.HttpFilter" => some ["jakarta.servlet.GenericFilter"]
  | _ => none

/-- Is the type bound to a class of the platform? -/
def isPlatformType (type : TypeRef) : Bool :=
  match type.qualifiedName with
  | some q =>
    Text.startsWith "java.".toList q.toList || Text.startsWith "javax.".toList q.toList
  | none => false

/-- One step up the superclasses: an answer, or the class to look at next. -/
def step (unit : CompilationUnit) (fqn : String) (t : TypeDecl) : Conformance ⊕ TypeDecl :=
  match t.superclass with
  | none => .inl .no
  | some superclass =>
    if unit.typeIs superclass fqn then .inl .yes
    else
      match superclass.qualifiedName.bind knownAncestors? with
      | some ancestors => .inl (if ancestors.contains fqn then .yes else .no)
      | none =>
        match localType? unit superclass with
        | some next => .inr next
        | none => .inl (if isPlatformType superclass then .no else .unknown)

/-- Follows the superclasses until a step answers or a name in `visited` comes up again. -/
def climb (unit : CompilationUnit) (fqn : String) : Nat → List String → TypeDecl → Conformance
  | 0, _, _ => .no
  | fuel + 1, visited, t =>
    if visited.contains t.name then .no
    else
      match step unit fqn t with
      | .inl answer => answer
      | .inr next => climb unit fqn fuel (t.name :: visited) next

/-- Enough steps to see every type of the unit and come back to one. -/
def bound (unit : CompilationUnit) : Nat := unit.types.length + 2

/-- Does a class extend `fqn`? -/
def extendsClass (unit : CompilationUnit) (t : TypeDecl) (fqn : String) : Conformance :=
  climb unit fqn (bound unit) [] t

/-- Looks at supertypes in order; `visit` answers for a type of the unit. The first `yes` ends the
search, and an `unknown` is kept unless a `yes` follows. -/
def searchAmong (unit : CompilationUnit) (fqns : List String)
    (visit : List String → TypeDecl → Conformance × List String) (visited : List String)
    (found : Conformance) : List TypeRef → Conformance × List String
  | [] => (found, visited)
  | type :: types =>
    if fqns.any (unit.typeIs type) then (.yes, visited)
    else
      let (answer, visited) :=
        match localType? unit type with
        | some next => visit visited next
        | none => (if isPlatformType type then .no else .unknown, visited)
      match answer with
      | .yes => (.yes, visited)
      | .unknown => searchAmong unit fqns visit visited .unknown types
      | .no => searchAmong unit fqns visit visited found types

/-- Searches the supertypes of a type, each name once. -/
def search (unit : CompilationUnit) (fqns : List String) :
    Nat → List String → TypeDecl → Conformance × List String
  | 0, visited, _ => (.no, visited)
  | fuel + 1, visited, t =>
    if visited.contains t.name then (.no, visited)
    else searchAmong unit fqns (search unit fqns fuel) (t.name :: visited) .no t.supertypes

/-- Does a type implement or extend one of `fqns`? -/
def implementsAny (unit : CompilationUnit) (t : TypeDecl) (fqns : List String) : Conformance :=
  (search unit fqns (bound unit) [] t).1

end Hierarchy

end JakartaCheck
