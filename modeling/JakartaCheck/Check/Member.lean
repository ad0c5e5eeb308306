import JakartaCheck.Diagnostic.Basic
import JakartaCheck.Java.Binding

/-!
# Checks on members and their annotations

Tests that the rules of several specifications share: which annotations exclude each other, which
types an element may have, which parameters lack an annotation, and which constructors there are.
-/

namespace JakartaCheck

/-- A field or a method of a type. -/
inductive Member where
  | field (decl : FieldDecl)
  | method (decl : MethodDecl)
deriving DecidableEq, Repr

namespace Member

def modifiers : Member → Modifiers
  | .field f => f.modifiers
  | .method m => m.modifiers

/-- Where the names stand; a field has one per variable. -/
def nameSpans : Member → List Span
  | .field f => f.declarators.map (·.nameSpan)
  | .method m => [m.nameSpan]

/-- The type of a field or the return type of a method. -/
def elementType? : Member → Option TypeRef
  | .field f => some f.type
  | .method m => m.returnType

end Member

/-- The fields, then the methods. -/
def TypeDecl.members (t : TypeDecl) : List Member :=
  t.fields.map .field ++ t.methods.map .method

/-- Does the text of the unit name a package at all? -/
def CompilationUnit.mentions (unit : CompilationUnit) (package : String) : Bool :=
  Text.occursIn package.toList unit.text.toList

namespace Check

/-! ### Annotations that exclude each other -/

/-- Is there an annotation that satisfies `primary` and another that satisfies `conflicting`? The
annotations in `before` stand in front. -/
def hasConflict (primary conflicting : AnnotationUse → Bool) (before : List AnnotationUse) :
    List AnnotationUse → Bool
  | [] => false
  | a :: rest =>
    (primary a && (before.any conflicting || rest.any conflicting)) ||
      hasConflict primary conflicting (before ++ [a]) rest

/-- The annotations that take part in a conflict: if a `primary` one stands beside another that is
`conflicting`, all that satisfy either, in source order. -/
def conflictingAnnotations (m : Modifiers) (primary conflicting : AnnotationUse → Bool) :
    List AnnotationUse :=
  if hasConflict primary conflicting [] m.annotations then
    m.annotations.filter fun a => primary a || conflicting a
  else []

/-- Each name once, in the order of its first occurrence; `seen` are the names before. -/
def distinctFrom (seen : List String) : List String → List String
  | [] => []
  | name :: names =>
    if seen.contains name then distinctFrom seen names
    else name :: distinctFrom (name :: seen) names

/-- The simple names of annotations, each once. -/
def distinctNames (annotations : List AnnotationUse) : List String :=
  distinctFrom [] (annotations.map (·.simpleName))

/-- One diagnostic at the name of each participant, with the names of all of them. -/
def exclusionDiagnostics (participants : List AnnotationUse) (source code message : String) :
    List Diagnostic :=
  let names := distinctNames participants
  participants.map fun a => (Diagnostic.error source code message a.nameSpan).withNames names

/-- All items, if there are more than `max` of them. -/
def exceeding {α : Type} (items : List α) (max : Nat) : List α :=
  if max < items.length then items else []

/-! ### Types -/

/-- Is the type `String`, a primitive type or a class that wraps one? -/
def isSimpleValueType (unit : CompilationUnit) (type : TypeRef) : Bool :=
  if type.isArray then false
  else if type.isPrimitive then true
  else if unit.typeIs type "java.lang.String" then true
  else
    (TypeText.unboxed? type.simpleName).isSome &&
      match type.qualifiedName with
      | some qualified => Text.startsWith "java.lang.".toList qualified.toList
      | none => true

/-- Is the type one of `allowed`, which are primitive types and qualified names? An unbound name
is compared by its simple name, so a missing binding is no finding. -/
def typeIn (type : TypeRef) (allowed : List String) : Bool :=
  !type.isArray && allowed.any fun candidate =>
    if TypeText.isPrimitive candidate then type.isPrimitive && type.simpleName == candidate
    else
      match type.qualifiedName with
      | some qualified => qualified == candidate
      | none => TypeText.lastName candidate == type.simpleName

/-! ### Parameters and constructors -/

/-- The annotations of parameters that denote one of `fqns`. -/
def parameterAnnotations (unit : CompilationUnit) (method : MethodDecl) (fqns : List String) :
    List AnnotationUse :=
  (method.params.flatMap (·.modifiers.annotations)).filter (unit.annotationIsAny fqns)

/-- The parameters without any annotation of `fqns`. -/
def unannotatedParams (unit : CompilationUnit) (method : MethodDecl) (fqns : List String) :
    List Parameter :=
  method.params.filter fun p => !unit.hasAnnotationAmong p.modifiers fqns

/-- Is there a constructor without parameters and with `visible` modifiers? A type without
constructors has a public one. -/
def hasNoArgConstructor (t : TypeDecl) (visible : Modifiers → Bool) : Bool :=
  t.constructors.isEmpty || t.constructors.any fun c => c.params.isEmpty && visible c.modifiers

end Check

end JakartaCheck
