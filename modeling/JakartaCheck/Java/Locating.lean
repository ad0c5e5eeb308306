import JakartaCheck.Java.CompilationUnit
import JakartaCheck.Text.Bytes

/-!
# The declaration at a place

`declarationAt?` finds the innermost declaration around a span, together with the type that owns
it.
-/

namespace JakartaCheck

/-- A declaration of a unit and its owner. -/
inductive Located where
  | type (decl : TypeDecl)
  | field (owner : TypeDecl) (decl : FieldDecl)
  | method (owner : TypeDecl) (decl : MethodDecl)
  | parameter (owner : TypeDecl) (method : MethodDecl) (decl : Parameter)
deriving DecidableEq, Repr

namespace Located

/-- The type itself, or the type that the member belongs to. -/
def owner : Located → TypeDecl
  | .type t => t
  | .field t _ => t
  | .method t _ => t
  | .parameter t _ _ => t

def modifiers : Located → Modifiers
  | .type t => t.modifiers
  | .field _ f => f.modifiers
  | .method _ m => m.modifiers
  | .parameter _ _ p => p.modifiers

def span : Located → Span
  | .type t => t.span
  | .field _ f => f.span
  | .method _ m => m.span
  | .parameter _ _ p => p.span

/-- The name; for a field that of its first variable. -/
def name : Located → String
  | .type t => t.name
  | .field _ f => (f.declarators.head?.map (·.name)).getD ""
  | .method _ m => m.name
  | .parameter _ _ p => p.name

end Located

namespace CompilationUnit

/-- The first of the types with the shortest span. -/
def shortest? : List TypeDecl → Option TypeDecl
  | [] => none
  | t :: ts =>
    match shortest? ts with
    | some u => if u.span.len < t.span.len then some u else some t
    | none => some t

/-- The innermost type around a span. -/
def ownerAt? (unit : CompilationUnit) (span : Span) : Option TypeDecl :=
  shortest? (unit.types.filter (·.span.contains span))

/-- The innermost declaration around a span. -/
def declarationAt? (unit : CompilationUnit) (span : Span) : Option Located := do
  let owner ← unit.ownerAt? span
  match owner.fields.find? (·.span.contains span) with
  | some field => some (.field owner field)
  | none =>
    match owner.methods.find? (·.span.contains span) with
    | none => some (.type owner)
    | some method =>
      match method.params.find? (·.span.contains span) with
      | some param => some (.parameter owner method param)
      | none => some (.method owner method)

/-- The text of a span, empty if it does not fit the unit. -/
def sourceText (unit : CompilationUnit) (span : Span) : String :=
  (Text.slice? unit.text span.start span.stop).getD ""

end CompilationUnit

end JakartaCheck
