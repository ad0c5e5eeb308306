import JakartaCheck.Java.CompilationUnit
import JakartaCheck.Java.TypeText

/-!
# Names and what they denote

A name is bound from what its source says: single-type imports first, then the types the source
declares, primitive types and `java.lang`. `resolve?` binds a written name, `bind` does so
throughout a unit, and `denotes` compares a bound or unbound name with a qualified one.
-/

namespace JakartaCheck.CompilationUnit

/-- The type that a single-type import brings in under a simple name; the last import wins. -/
def importedAs? (unit : CompilationUnit) (simple : String) : Option String :=
  ((unit.imports.reverse.filter fun i => !i.isStatic && !i.isWildcard).find? fun i =>
    TypeText.lastName i.path == simple).map (·.path)

/-- Names joined by points. -/
def dotted (names : List String) : String := String.intercalate "." names

/-- The qualified name of a type, given the types listed before it: its package, the types around
it and its own name. -/
def qualifiedIn (unit : CompilationUnit) (before : List TypeDecl) (type : TypeDecl) : String :=
  let around := before.filter (·.bodySpan.contains type.span)
  dotted (unit.package.toList ++ around.map (·.name) ++ [type.name])

/-- The qualified name of the first type called `simple`, when `before` stand in front. -/
def declaredFrom? (unit : CompilationUnit) (simple : String) (before : List TypeDecl) :
    List TypeDecl → Option String
  | [] => none
  | type :: types =>
    if type.name == simple then some (unit.qualifiedIn before type)
    else declaredFrom? unit simple (before ++ [type]) types

/-- The qualified name of the first type of the unit called `simple`. -/
def declaredAs? (unit : CompilationUnit) (simple : String) : Option String :=
  unit.declaredFrom? simple [] unit.types

/-- What the first name of a written type denotes. -/
def bindHead? (unit : CompilationUnit) (head : String) : Option String :=
  unit.importedAs? head <|> unit.declaredAs? head <|> TypeText.javaLangQualified? head

/-- Does a name start with a lower-case letter, as packages do? -/
def looksLikePackage (head : List Char) : Bool :=
  match head with
  | c :: _ => c.isLower
  | [] => false

/-- The qualified name of a written type. A dotted name with an unknown first part is taken for
qualified if that part looks like a package. -/
def resolve? (unit : CompilationUnit) (written : String) : Option String :=
  let erased := TypeText.erase written
  if erased.isEmpty then none
  else if erased == "void" || TypeText.isPrimitive erased then some erased
  else
    match Text.splitOnce '.' erased.toList with
    | none => unit.bindHead? erased
    | some (head, tail) =>
      match unit.bindHead? (String.ofList head) with
      | some bound => some (bound ++ "." ++ String.ofList tail)
      | none => if looksLikePackage head then some erased else none

/-! ### Binding a whole unit -/

def bindType (unit : CompilationUnit) (type : TypeRef) : TypeRef :=
  { type with qualifiedName := unit.resolve? type.text }

def bindModifiers (unit : CompilationUnit) (m : Modifiers) : Modifiers :=
  { m with annotations := m.annotations.map fun a =>
      { a with qualifiedName := unit.resolve? a.name } }

def bindField (unit : CompilationUnit) (f : FieldDecl) : FieldDecl :=
  { f with modifiers := unit.bindModifiers f.modifiers, type := unit.bindType f.type }

def bindParameter (unit : CompilationUnit) (p : Parameter) : Parameter :=
  { p with modifiers := unit.bindModifiers p.modifiers, type := unit.bindType p.type }

def bindMethod (unit : CompilationUnit) (m : MethodDecl) : MethodDecl :=
  { m with
    modifiers := unit.bindModifiers m.modifiers
    returnType := m.returnType.map unit.bindType
    params := m.params.map unit.bindParameter
    throws := m.throws.map unit.bindType }

def bindTypeDecl (unit : CompilationUnit) (t : TypeDecl) : TypeDecl :=
  { t with
    modifiers := unit.bindModifiers t.modifiers
    superclass := t.superclass.map unit.bindType
    interfaces := t.interfaces.map unit.bindType
    fields := t.fields.map unit.bindField
    methods := t.methods.map unit.bindMethod }

/-- The unit with every type and annotation bound. -/
def bind (unit : CompilationUnit) : CompilationUnit :=
  { unit with types := unit.types.map unit.bindTypeDecl }

/-! ### Comparing names -/

/-- Is there an import of all types of the package of `fqn`? -/
def wildcardCovers (unit : CompilationUnit) (fqn : String) : Bool :=
  unit.imports.any fun i => i.isWildcard && !i.isStatic && i.path == TypeText.packageOf fqn

/-- Does a name denote `fqn`? A bound name has to be equal to it; for an unbound one the simple
name has to fit and a wildcard import to cover the package. -/
def denotes (unit : CompilationUnit) (simple : String) (qualified : Option String)
    (fqn : String) : Bool :=
  match qualified with
  | some qualified => qualified == fqn
  | none => simple == TypeText.lastName fqn && unit.wildcardCovers fqn

/-- Does a name written in an expression denote `fqn`? -/
def nameDenotes (unit : CompilationUnit) (written fqn : String) : Bool :=
  unit.denotes (TypeText.simplify written) (unit.resolve? written) fqn

def annotationIs (unit : CompilationUnit) (a : AnnotationUse) (fqn : String) : Bool :=
  unit.denotes a.simpleName a.qualifiedName fqn

def typeIs (unit : CompilationUnit) (type : TypeRef) (fqn : String) : Bool :=
  unit.denotes type.simpleName type.qualifiedName fqn

/-- The first annotation among modifiers that denotes `fqn`. -/
def annotationOf? (unit : CompilationUnit) (m : Modifiers) (fqn : String) :
    Option AnnotationUse :=
  m.annotations.find? (unit.annotationIs · fqn)

def hasAnnotationOf (unit : CompilationUnit) (m : Modifiers) (fqn : String) : Bool :=
  (unit.annotationOf? m fqn).isSome

/-- Does an annotation denote one of `fqns`? -/
def annotationIsAny (unit : CompilationUnit) (fqns : List String) (a : AnnotationUse) : Bool :=
  fqns.any (unit.annotationIs a)

def hasAnnotationAmong (unit : CompilationUnit) (m : Modifiers) (fqns : List String) : Bool :=
  m.annotations.any (unit.annotationIsAny fqns)

/-- Can `fqn` be written by its simple name without another import? -/
def isVisible (unit : CompilationUnit) (fqn : String) : Bool :=
  let package := TypeText.packageOf fqn
  package == "java.lang" || unit.package.getD "" == package ||
    unit.imports.any fun i =>
      !i.isStatic &&
        ((i.isWildcard && i.path == package) || (!i.isWildcard && i.path == fqn))

/-- Does the simple name of `fqn` already stand for another type? -/
def simpleNameTaken (unit : CompilationUnit) (fqn : String) : Bool :=
  let simple := TypeText.lastName fqn
  (unit.imports.any fun i =>
    !i.isStatic && !i.isWildcard && i.path != fqn && TypeText.lastName i.path == simple) ||
    unit.types.any (·.name == simple)

end JakartaCheck.CompilationUnit
