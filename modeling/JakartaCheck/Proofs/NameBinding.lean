import JakartaCheck.Proofs.TreeReading
import JakartaCheck.Proofs.TypeReferences

/-!
# Binding names again

What a name is bound to depends on the imports, on the package and on how the declared types lie in
each other, and on nothing else of a unit (`resolve?_congr`, `declaredAs?_map`). So binding a unit
does not change what its names resolve to (`resolve?_bind`), and declarations that have moved can be
bound as if they had never been bound before (`bindTypeDecl_relocate`).
-/

namespace JakartaCheck.CompilationUnit

variable {unit unit' : CompilationUnit}

/-! ### What a name depends on -/

/-- The name whose binding decides what a written type denotes. -/
def leadingName (written : String) : String := Imports.firstName (TypeText.erase written)

theorem bindHead?_congr {head : String} (imported : unit'.importedAs? head = unit.importedAs? head)
    (declared : unit'.declaredAs? head = unit.declaredAs? head) :
    unit'.bindHead? head = unit.bindHead? head := by
  unfold bindHead?
  rw [imported, declared]

theorem resolve?_congr {written : String}
    (same : unit'.bindHead? (leadingName written) = unit.bindHead? (leadingName written)) :
    unit'.resolve? written = unit.resolve? written := by
  unfold leadingName Imports.firstName at same
  unfold resolve?
  split at same
  · rename_i first rest cut
    simp only [cut, same]
  · rename_i whole
    simp only [whole, same]

/-- Types that keep their names and lie in each other as before are declared under the same names. -/
theorem declaredFrom?_map (package : unit'.package = unit.package) (f : TypeDecl → TypeDecl)
    (name : ∀ t, (f t).name = t.name) (simple : String) (before types : List TypeDecl)
    (nested : ∀ t ∈ before ++ types, ∀ u ∈ before ++ types,
      (f t).bodySpan.contains (f u).span = t.bodySpan.contains u.span) :
    unit'.declaredFrom? simple (before.map f) (types.map f) =
      unit.declaredFrom? simple before types := by
  induction types generalizing before with
  | nil => rfl
  | cons type types ih =>
    have around : (before.map f).filter (·.bodySpan.contains (f type).span) =
        (before.filter (·.bodySpan.contains type.span)).map f := by
      rw [List.filter_map]
      congr 1
      refine List.filter_congr fun t ht => ?_
      exact nested t (List.mem_append_left _ ht) type (by simp)
    have later := ih (before ++ [type]) (by simpa using nested)
    simp only [List.map_append, List.map_cons, List.map_nil] at later
    have qualified : unit'.qualifiedIn (before.map f) (f type) = unit.qualifiedIn before type := by
      unfold qualifiedIn
      simp only [around, package, List.map_map, Function.comp_def, name]
    rw [List.map_cons, declaredFrom?, declaredFrom?, name, later, qualified]

theorem declaredAs?_map (package : unit'.package = unit.package) (f : TypeDecl → TypeDecl)
    (types : unit'.types = unit.types.map f) (name : ∀ t, (f t).name = t.name)
    (nested : ∀ t ∈ unit.types, ∀ u ∈ unit.types,
      (f t).bodySpan.contains (f u).span = t.bodySpan.contains u.span) (simple : String) :
    unit'.declaredAs? simple = unit.declaredAs? simple := by
  unfold declaredAs?
  rw [types]
  exact declaredFrom?_map package f name simple [] unit.types (by simpa using nested)

/-! ### Binding twice -/

theorem resolve?_bind (unit : CompilationUnit) (written : String) :
    unit.bind.resolve? written = unit.resolve? written :=
  resolve?_congr (bindHead?_congr rfl (@declaredAs?_map unit unit.bind rfl
    unit.bindTypeDecl rfl (fun _ => rfl) (fun _ _ _ _ => rfl) _))

theorem bindTypeDecl_congr (same : ∀ written, unit'.resolve? written = unit.resolve? written) :
    unit'.bindTypeDecl = unit.bindTypeDecl := by
  have eq : unit'.resolve? = unit.resolve? := funext same
  have type : unit'.bindType = unit.bindType := by
    funext t
    unfold bindType
    rw [eq]
  have modifiers : unit'.bindModifiers = unit.bindModifiers := by
    funext m
    unfold bindModifiers
    rw [eq]
  have field : unit'.bindField = unit.bindField := by
    funext f
    unfold bindField
    rw [type, modifiers]
  have parameter : unit'.bindParameter = unit.bindParameter := by
    funext p
    unfold bindParameter
    rw [type, modifiers]
  have method : unit'.bindMethod = unit.bindMethod := by
    funext m
    unfold bindMethod
    rw [type, modifiers, parameter]
  funext t
  unfold bindTypeDecl
  rw [type, modifiers, field, method]

section Relocation

variable (g : Span → Span)

theorem bindType_relocate (t : TypeRef) :
    unit'.bindType ((unit.bindType t).relocate g) = unit'.bindType (t.relocate g) := rfl

theorem bindModifiers_relocate (unit unit' : CompilationUnit) (m : Modifiers) :
    unit'.bindModifiers ((unit.bindModifiers m).relocate g) =
      unit'.bindModifiers (m.relocate g) := by
  simp [bindModifiers, Modifiers.relocate, AnnotationUse.relocate, Function.comp_def]

theorem bindField_relocate (f : FieldDecl) :
    unit'.bindField ((unit.bindField f).relocate g) = unit'.bindField (f.relocate g) := by
  have modifiers := bindModifiers_relocate g unit unit' f.modifiers
  simp only [bindField, FieldDecl.relocate] at modifiers ⊢
  rw [modifiers, bindType_relocate]

theorem bindParameter_relocate (p : Parameter) :
    unit'.bindParameter ((unit.bindParameter p).relocate g) =
      unit'.bindParameter (p.relocate g) := by
  have modifiers := bindModifiers_relocate g unit unit' p.modifiers
  simp only [bindParameter, Parameter.relocate] at modifiers ⊢
  rw [modifiers, bindType_relocate]

theorem bindMethod_relocate (m : MethodDecl) :
    unit'.bindMethod ((unit.bindMethod m).relocate g) = unit'.bindMethod (m.relocate g) := by
  have modifiers := bindModifiers_relocate g unit unit' m.modifiers
  simp only [bindMethod, MethodDecl.relocate] at modifiers ⊢
  simp only [modifiers, Option.map_map, List.map_map, Function.comp_def, bindType_relocate,
    bindParameter_relocate]

/-- Moved and bound again, a declaration is as if it were bound for the first time. -/
theorem bindTypeDecl_relocate (t : TypeDecl) :
    unit'.bindTypeDecl ((unit.bindTypeDecl t).relocate g) = unit'.bindTypeDecl (t.relocate g) := by
  have modifiers := bindModifiers_relocate g unit unit' t.modifiers
  simp only [bindTypeDecl, TypeDecl.relocate] at modifiers ⊢
  simp only [modifiers, Option.map_map, List.map_map, Function.comp_def, bindType_relocate,
    bindField_relocate, bindMethod_relocate]

end Relocation

end JakartaCheck.CompilationUnit
