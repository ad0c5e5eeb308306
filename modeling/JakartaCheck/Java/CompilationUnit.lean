import JakartaCheck.Text.Span

/-!
# Compilation units

The declarations of one Java source, as far as the rules look at them: types with their members,
modifiers, annotations and supertypes, and every method call. Spans are offsets into the text of
the unit. A `qualifiedName` is what a written name denotes, as far as the source itself tells.
-/

namespace JakartaCheck

/-- A type as it is written. -/
structure TypeRef where
  /-- The source text without white space. -/
  text : String
  simpleName : String
  qualifiedName : Option String
  span : Span
  isArray : Bool
  isPrimitive : Bool
deriving DecidableEq, Repr

/-- One `name = value` of an annotation; a lone value has the name `value`. -/
structure Argument where
  name : String
  span : Span
  valueSpan : Span
  valueText : String
  /-- The string, if the value is a string literal. -/
  stringValue : Option String
deriving DecidableEq, Repr

/-- An annotation at one place of the source. -/
structure AnnotationUse where
  /-- The name as it is written, possibly qualified. -/
  name : String
  simpleName : String
  qualifiedName : Option String
  /-- From the `@` to the end of the arguments. -/
  span : Span
  nameSpan : Span
  args : List Argument
  /-- The arguments with their parentheses. -/
  argsSpan : Option Span
deriving DecidableEq, Repr

namespace AnnotationUse

/-- The first argument of that name. -/
def arg? (a : AnnotationUse) (name : String) : Option Argument := a.args.find? (·.name == name)

def hasArg (a : AnnotationUse) (name : String) : Bool := (a.arg? name).isSome

end AnnotationUse

/-- A modifier such as `public`. -/
structure Keyword where
  text : String
  span : Span
deriving DecidableEq, Repr

/-- The modifiers in front of a declaration. -/
structure Modifiers where
  /-- The whole list, if there is one. -/
  span : Option Span
  keywords : List Keyword
  annotations : List AnnotationUse
deriving DecidableEq, Repr

namespace Modifiers

/-- A declaration without modifiers. -/
def none : Modifiers := ⟨.none, [], []⟩

def keyword? (m : Modifiers) (text : String) : Option Keyword := m.keywords.find? (·.text == text)

def hasKeyword (m : Modifiers) (text : String) : Bool := (m.keyword? text).isSome

def isStatic (m : Modifiers) : Bool := m.hasKeyword "static"

def isPublic (m : Modifiers) : Bool := m.hasKeyword "public"

def isFinal (m : Modifiers) : Bool := m.hasKeyword "final"

/-- The annotations with a simple name, whatever they denote. -/
def annotationsNamed (m : Modifiers) (simpleName : String) : List AnnotationUse :=
  m.annotations.filter (·.simpleName == simpleName)

end Modifiers

structure Parameter where
  span : Span
  name : String
  nameSpan : Span
  modifiers : Modifiers
  type : TypeRef
deriving DecidableEq, Repr

/-- One variable of a field declaration. -/
structure Declarator where
  name : String
  nameSpan : Span
deriving DecidableEq, Repr

structure FieldDecl where
  span : Span
  modifiers : Modifiers
  type : TypeRef
  declarators : List Declarator
deriving DecidableEq, Repr

/-- A method or a constructor. -/
structure MethodDecl where
  span : Span
  name : String
  nameSpan : Span
  isConstructor : Bool
  modifiers : Modifiers
  typeParamsSpan : Option Span
  /-- Constructors have none. -/
  returnType : Option TypeRef
  params : List Parameter
  /-- The parameters with their parentheses. -/
  paramsSpan : Span
  throws : List TypeRef
  hasBody : Bool
deriving DecidableEq, Repr

def MethodDecl.returnsVoid (m : MethodDecl) : Bool :=
  match m.returnType with
  | some type => type.text == "void"
  | none => false

inductive TypeKind where
  | classType
  | interfaceType
  | enumType
  | recordType
  | annotationType
deriving DecidableEq, Repr

/-- A declared type. -/
structure TypeDecl where
  kind : TypeKind
  name : String
  nameSpan : Span
  span : Span
  /-- The members with their braces. -/
  bodySpan : Span
  modifiers : Modifiers
  typeParamsSpan : Option Span
  superclass : Option TypeRef
  /-- What the type implements; for an interface what it extends. -/
  interfaces : List TypeRef
  fields : List FieldDecl
  /-- Methods and constructors, in source order. -/
  methods : List MethodDecl
deriving DecidableEq, Repr

namespace TypeDecl

def constructors (t : TypeDecl) : List MethodDecl := t.methods.filter (·.isConstructor)

/-- The methods that are no constructors. -/
def ordinaryMethods (t : TypeDecl) : List MethodDecl := t.methods.filter (!·.isConstructor)

/-- Members of interfaces are public without saying so. -/
def memberIsPublic (t : TypeDecl) (m : Modifiers) : Bool :=
  t.kind == .interfaceType || t.kind == .annotationType || m.isPublic

def isClass (t : TypeDecl) : Bool := t.kind == .classType

/-- The supertypes as they are written, the superclass first. -/
def supertypes (t : TypeDecl) : List TypeRef := t.superclass.toList ++ t.interfaces

/-- Where a clause can be added to the header: after the type parameters, or after the name. -/
def headerInsertOffset (t : TypeDecl) : Nat :=
  match t.typeParamsSpan with
  | some span => span.stop
  | none => t.nameSpan.stop

end TypeDecl

structure ImportDecl where
  path : String
  isStatic : Bool
  isWildcard : Bool
  span : Span
deriving DecidableEq, Repr

structure CallArgument where
  span : Span
  /-- The string, if the argument is a string literal. -/
  stringLiteral : Option String
deriving DecidableEq, Repr

/-- A call of a method. -/
structure MethodCall where
  span : Span
  /-- What stands before the point. -/
  receiver : Option String
  name : String
  nameSpan : Span
  args : List CallArgument
deriving DecidableEq, Repr

/-- One source with its declarations. -/
structure CompilationUnit where
  uri : String
  text : String
  package : Option String
  imports : List ImportDecl
  /-- All types, each before the types nested in it, in source order. -/
  types : List TypeDecl
  /-- All calls, each before the calls inside it, in source order. -/
  calls : List MethodCall
deriving DecidableEq, Repr

namespace CompilationUnit

/-- The first type of that name. -/
def typeNamed? (unit : CompilationUnit) (name : String) : Option TypeDecl :=
  unit.types.find? (·.name == name)

end CompilationUnit

end JakartaCheck
