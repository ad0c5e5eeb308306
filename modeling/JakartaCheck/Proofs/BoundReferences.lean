import JakartaCheck.Proofs.AnnotationLayout
import JakartaCheck.Proofs.NameBinding

/-!
# What binding does to a unit

Binding sets what every reference of a unit denotes, the types that its declarations name
(`CompilationUnit.typeRefs`) and their annotations (`CompilationUnit.annotations`), and nothing
else: the bound unit is the only one that is the same without its bindings (`CompilationUnit.bare`)
and whose references all denote what their text resolves to (`CompilationUnit.eq_bind_iff`). As
names resolve alike before and after, a bound reference is compared with a qualified name in the
same way as its text (`CompilationUnit.bind_binds_references`).
-/

namespace JakartaCheck

/-! ### References -/

/-- The types that a method returns, takes and throws. -/
def MethodDecl.typeRefs (m : MethodDecl) : List TypeRef :=
  m.returnType.toList ++ m.params.map (·.type) ++ m.throws

/-- The types that a declaration and its members name. -/
def TypeDecl.typeRefs (t : TypeDecl) : List TypeRef :=
  t.supertypes ++ t.fields.map (·.type) ++ t.methods.flatMap (·.typeRefs)

def CompilationUnit.typeRefs (unit : CompilationUnit) : List TypeRef :=
  unit.types.flatMap (·.typeRefs)

section MapReferences

variable (f : TypeRef → TypeRef) (g : AnnotationUse → AnnotationUse)

def Modifiers.mapAnnotations (m : Modifiers) : Modifiers :=
  { m with annotations := m.annotations.map g }

def FieldDecl.mapReferences (d : FieldDecl) : FieldDecl :=
  { d with modifiers := d.modifiers.mapAnnotations g, type := f d.type }

def Parameter.mapReferences (p : Parameter) : Parameter :=
  { p with modifiers := p.modifiers.mapAnnotations g, type := f p.type }

def MethodDecl.mapReferences (m : MethodDecl) : MethodDecl :=
  { m with
    modifiers := m.modifiers.mapAnnotations g
    returnType := m.returnType.map f
    params := m.params.map (Parameter.mapReferences f g)
    throws := m.throws.map f }

def TypeDecl.mapReferences (t : TypeDecl) : TypeDecl :=
  { t with
    modifiers := t.modifiers.mapAnnotations g
    superclass := t.superclass.map f
    interfaces := t.interfaces.map f
    fields := t.fields.map (FieldDecl.mapReferences f g)
    methods := t.methods.map (MethodDecl.mapReferences f g) }

/-- The unit with `f` applied to its types and `g` to its annotations, wherever they stand. -/
def CompilationUnit.mapReferences (unit : CompilationUnit) : CompilationUnit :=
  { unit with types := unit.types.map (TypeDecl.mapReferences f g) }

/-! ### References that are mapped -/

theorem MethodDecl.typeRefs_mapReferences (m : MethodDecl) :
    (m.mapReferences f g).typeRefs = m.typeRefs.map f := by
  cases h : m.returnType <;>
    simp [typeRefs, mapReferences, Parameter.mapReferences, Function.comp_def, h]

theorem MethodDecl.annotations_mapReferences (m : MethodDecl) :
    (m.mapReferences f g).annotations = m.annotations.map g := by
  simp [annotations, mapReferences, Modifiers.mapAnnotations, Parameter.mapReferences,
    List.flatMap_map, List.map_flatMap]

theorem TypeDecl.typeRefs_mapReferences (t : TypeDecl) :
    (t.mapReferences f g).typeRefs = t.typeRefs.map f := by
  cases h : t.superclass <;>
    simp [typeRefs, supertypes, mapReferences, FieldDecl.mapReferences, List.flatMap_map,
      List.map_flatMap, MethodDecl.typeRefs_mapReferences, Function.comp_def, h]

theorem TypeDecl.annotations_mapReferences (t : TypeDecl) :
    (t.mapReferences f g).annotations = t.annotations.map g := by
  simp [annotations, memberAnnotations, mapReferences, Modifiers.mapAnnotations,
    FieldDecl.mapReferences, List.flatMap_map, List.map_flatMap,
    MethodDecl.annotations_mapReferences]

theorem CompilationUnit.typeRefs_mapReferences (unit : CompilationUnit) :
    (unit.mapReferences f g).typeRefs = unit.typeRefs.map f := by
  simp only [typeRefs, mapReferences, List.flatMap_map, List.map_flatMap,
    TypeDecl.typeRefs_mapReferences]

theorem CompilationUnit.annotations_mapReferences (unit : CompilationUnit) :
    (unit.mapReferences f g).annotations = unit.annotations.map g := by
  simp only [annotations, mapReferences, List.flatMap_map, List.map_flatMap,
    TypeDecl.annotations_mapReferences]

/-! ### Mapping twice -/

variable (f' : TypeRef → TypeRef) (g' : AnnotationUse → AnnotationUse)

theorem MethodDecl.mapReferences_mapReferences (m : MethodDecl) :
    (m.mapReferences f g).mapReferences f' g' = m.mapReferences (f' ∘ f) (g' ∘ g) := by
  simp [mapReferences, Parameter.mapReferences, Modifiers.mapAnnotations, Function.comp_def]

theorem TypeDecl.mapReferences_mapReferences (t : TypeDecl) :
    (t.mapReferences f g).mapReferences f' g' = t.mapReferences (f' ∘ f) (g' ∘ g) := by
  simp [mapReferences, FieldDecl.mapReferences, Modifiers.mapAnnotations,
    MethodDecl.mapReferences_mapReferences, Function.comp_def]

theorem CompilationUnit.mapReferences_mapReferences (unit : CompilationUnit) :
    (unit.mapReferences f g).mapReferences f' g' = unit.mapReferences (f' ∘ f) (g' ∘ g) := by
  simp only [mapReferences, List.map_map, Function.comp_def, TypeDecl.mapReferences_mapReferences]

end MapReferences

/-! ### Mapping what stays as it is -/

section EqSelf

variable {f : TypeRef → TypeRef} {g : AnnotationUse → AnnotationUse}

theorem map_eq_self {α : Type} {h : α → α} {xs : List α} (same : ∀ x ∈ xs, h x = x) :
    xs.map h = xs :=
  (List.map_congr_left same).trans (List.map_id' xs)

theorem option_map_eq_self {α : Type} {h : α → α} {o : Option α} (same : ∀ x ∈ o.toList, h x = x) :
    o.map h = o := by
  cases o with
  | none => rfl
  | some x => rw [Option.map_some, same x List.mem_cons_self]

theorem Modifiers.mapAnnotations_eq_self {m : Modifiers}
    (annotations : ∀ a ∈ m.annotations, g a = a) : m.mapAnnotations g = m := by
  rw [mapAnnotations, map_eq_self annotations]

theorem FieldDecl.mapReferences_eq_self {d : FieldDecl} (type : f d.type = d.type)
    (annotations : ∀ a ∈ d.modifiers.annotations, g a = a) : d.mapReferences f g = d := by
  rw [mapReferences, type, Modifiers.mapAnnotations_eq_self annotations]

theorem Parameter.mapReferences_eq_self {p : Parameter} (type : f p.type = p.type)
    (annotations : ∀ a ∈ p.modifiers.annotations, g a = a) : p.mapReferences f g = p := by
  rw [mapReferences, type, Modifiers.mapAnnotations_eq_self annotations]

theorem MethodDecl.mapReferences_eq_self {m : MethodDecl} (types : ∀ r ∈ m.typeRefs, f r = r)
    (annotations : ∀ a ∈ m.annotations, g a = a) : m.mapReferences f g = m := by
  simp only [typeRefs, List.forall_mem_append, List.forall_mem_map] at types
  obtain ⟨⟨returned, taken⟩, thrown⟩ := types
  obtain ⟨own, ofParams⟩ := List.forall_mem_append.1 annotations
  have params : m.params.map (Parameter.mapReferences f g) = m.params :=
    map_eq_self fun p hp => Parameter.mapReferences_eq_self (taken p hp)
      fun a ha => ofParams a (List.mem_flatMap_of_mem hp ha)
  rw [mapReferences, Modifiers.mapAnnotations_eq_self own, option_map_eq_self returned, params,
    map_eq_self thrown]

theorem TypeDecl.mapReferences_eq_self {t : TypeDecl} (types : ∀ r ∈ t.typeRefs, f r = r)
    (annotations : ∀ a ∈ t.annotations, g a = a) : t.mapReferences f g = t := by
  simp only [typeRefs, supertypes, List.forall_mem_append, List.forall_mem_map] at types
  obtain ⟨⟨⟨extended, implemented⟩, ofFields⟩, ofMethods⟩ := types
  simp only [TypeDecl.annotations, memberAnnotations, List.forall_mem_append] at annotations
  obtain ⟨own, onFields, onMethods⟩ := annotations
  have fields : t.fields.map (FieldDecl.mapReferences f g) = t.fields :=
    map_eq_self fun d hd => FieldDecl.mapReferences_eq_self (ofFields d hd)
      fun a ha => onFields a (List.mem_flatMap_of_mem hd ha)
  have methods : t.methods.map (MethodDecl.mapReferences f g) = t.methods :=
    map_eq_self fun m hm => MethodDecl.mapReferences_eq_self
      (fun r hr => ofMethods r (List.mem_flatMap_of_mem hm hr))
      (fun a ha => onMethods a (List.mem_flatMap_of_mem hm ha))
  rw [mapReferences, Modifiers.mapAnnotations_eq_self own, option_map_eq_self extended,
    map_eq_self implemented, fields, methods]

theorem CompilationUnit.mapReferences_eq_self {unit : CompilationUnit}
    (types : ∀ r ∈ unit.typeRefs, f r = r) (annotations : ∀ a ∈ unit.annotations, g a = a) :
    unit.mapReferences f g = unit := by
  have same : unit.types.map (TypeDecl.mapReferences f g) = unit.types :=
    map_eq_self fun t ht => TypeDecl.mapReferences_eq_self
      (fun r hr => types r (List.mem_flatMap_of_mem ht hr))
      (fun a ha => annotations a (List.mem_flatMap_of_mem ht ha))
  rw [mapReferences, same]

end EqSelf

/-! ### Bound units -/

def TypeRef.bare (r : TypeRef) : TypeRef := { r with qualifiedName := none }

def AnnotationUse.bare (a : AnnotationUse) : AnnotationUse := { a with qualifiedName := none }

namespace CompilationUnit

/-- The unit without its bindings. -/
def bare (unit : CompilationUnit) : CompilationUnit :=
  unit.mapReferences TypeRef.bare AnnotationUse.bare

/-- Every reference of the unit denotes what `binding` says of its text. -/
structure BoundBy (binding : String → Option String) (unit : CompilationUnit) : Prop where
  types : ∀ r ∈ unit.typeRefs, r.qualifiedName = binding r.text
  annotations : ∀ a ∈ unit.annotations, a.qualifiedName = binding a.name

variable {unit unit' : CompilationUnit}

/-- An annotation, bound as the annotations of modifiers are. -/
def bindUse (unit : CompilationUnit) (a : AnnotationUse) : AnnotationUse :=
  { a with qualifiedName := unit.resolve? a.name }

theorem bind_eq_mapReferences (unit : CompilationUnit) :
    unit.bind = unit.mapReferences unit.bindType unit.bindUse := rfl

/-- Binding does not look at earlier bindings. -/
theorem mapReferences_bare (unit unit' : CompilationUnit) :
    unit'.bare.mapReferences unit.bindType unit.bindUse =
      unit'.mapReferences unit.bindType unit.bindUse :=
  mapReferences_mapReferences _ _ _ _ _

theorem bare_bind (unit : CompilationUnit) : unit.bind.bare = unit.bare :=
  mapReferences_mapReferences _ _ _ _ _

theorem boundBy_bind (unit : CompilationUnit) : unit.bind.BoundBy unit.resolve? := by
  constructor
  · rw [bind_eq_mapReferences, typeRefs_mapReferences]
    exact List.forall_mem_map.2 fun r _ => rfl
  · rw [bind_eq_mapReferences, annotations_mapReferences]
    exact List.forall_mem_map.2 fun a _ => rfl

theorem BoundBy.mapReferences_eq_self (h : unit'.BoundBy unit.resolve?) :
    unit'.mapReferences unit.bindType unit.bindUse = unit' := by
  refine CompilationUnit.mapReferences_eq_self (fun r hr => ?_) fun a ha => ?_
  · rw [bindType, ← h.types r hr]
  · rw [bindUse, ← h.annotations a ha]

/-- The bound unit has, besides what the unit has, the bindings of its references and no more. -/
theorem eq_bind_iff :
    unit' = unit.bind ↔ unit'.bare = unit.bare ∧ unit'.BoundBy unit.resolve? := by
  constructor
  · rintro rfl
    exact ⟨bare_bind unit, boundBy_bind unit⟩
  · rintro ⟨same, bound⟩
    rw [← bound.mapReferences_eq_self, ← mapReferences_bare, same, mapReferences_bare,
      bind_eq_mapReferences]

theorem nameDenotes_bind (unit : CompilationUnit) (written fqn : String) :
    unit.bind.nameDenotes written fqn = unit.nameDenotes written fqn := by
  rw [nameDenotes, resolve?_bind]
  rfl

theorem bind_bind (unit : CompilationUnit) : unit.bind.bind = unit.bind := by
  refine (eq_bind_iff.2 ⟨rfl, ?_⟩).symm
  rw [show unit.bind.resolve? = unit.resolve? from funext (resolve?_bind unit)]
  exact boundBy_bind unit

/-- Binding sets the bindings of all references and nothing else, and once. Afterwards a reference
denotes a qualified name exactly if its text does, before or after. -/
theorem bind_binds_references (unit : CompilationUnit) :
    (∀ unit', unit' = unit.bind ↔ unit'.bare = unit.bare ∧ unit'.BoundBy unit.resolve?) ∧
    unit.bind.bind = unit.bind ∧
    (∀ r ∈ unit.bind.typeRefs, r.simpleName = TypeText.simplify r.text → ∀ fqn,
      unit.bind.typeIs r fqn = unit.bind.nameDenotes r.text fqn ∧
        unit.bind.nameDenotes r.text fqn = unit.nameDenotes r.text fqn) ∧
    ∀ a ∈ unit.bind.annotations, a.simpleName = TypeText.simplify a.name → ∀ fqn,
      unit.bind.annotationIs a fqn = unit.bind.nameDenotes a.name fqn ∧
        unit.bind.nameDenotes a.name fqn = unit.nameDenotes a.name fqn := by
  refine ⟨fun _ => eq_bind_iff, bind_bind unit, fun r hr simple fqn => ?_,
    fun a ha simple fqn => ?_⟩
  · refine ⟨?_, nameDenotes_bind unit _ _⟩
    rw [typeIs, (boundBy_bind unit).types r hr, simple, ← resolve?_bind]
    rfl
  · refine ⟨?_, nameDenotes_bind unit _ _⟩
    rw [annotationIs, (boundBy_bind unit).annotations a ha, simple, ← resolve?_bind]
    rfl

/-- A type that only a wildcard import names: it stays without binding and is compared by its
simple name, as its text is. -/
theorem bind_binds_references_wildcard : ∃ unit r,
    ofText? "file:///A.java" "import jakarta.websocket.*; class A { Session s; }" = some unit ∧
      r ∈ unit.bind.typeRefs ∧ r.qualifiedName = none ∧
      unit.bind.typeIs r "jakarta.websocket.Session" = true ∧
      unit.nameDenotes r.text "jakarta.websocket.Session" = true := by
  have facts : (ofText? "file:///A.java" "import jakarta.websocket.*; class A { Session s; }").map
      (fun unit => (unit.bind.typeRefs.map fun r =>
        (r.text, r.simpleName, r.qualifiedName, unit.bind.typeIs r "jakarta.websocket.Session"))) =
      some [("Session", "Session", none, true)] := by
    decide +kernel
  obtain ⟨unit, lowered, listed⟩ := Option.map_eq_some_iff.1 facts
  obtain ⟨r, refs, listed⟩ := List.map_eq_singleton_iff.1 listed
  simp only [Prod.mk.injEq] at listed
  obtain ⟨written, simple, unbound, denotes⟩ := listed
  have mem : r ∈ unit.bind.typeRefs := by simp [refs]
  have same : r.simpleName = TypeText.simplify r.text := by
    rw [simple, written]
    decide +kernel
  obtain ⟨asBound, asUnit⟩ :=
    (bind_binds_references unit).2.2.1 r mem same "jakarta.websocket.Session"
  exact ⟨unit, r, lowered, mem, unbound, denotes, asUnit ▸ asBound ▸ denotes⟩

end CompilationUnit

end JakartaCheck
