import JakartaCheck.Java.Reading
import JakartaCheck.Rules.Constraints

/-!
# Elements of unknown types

The rule on the targets of constraints answers every annotation on a field or a method by itself
(`collect_constraintTargetType`). A type without a binding is compared with the types that the
constraint accepts by its simple name. So it is excused if one of them has that name, and flagged
otherwise, whatever it may denote (`constraintTargetType_flags_unbound`).
-/

namespace JakartaCheck.Constraints

variable {unit : CompilationUnit} {member : Member} {element : TypeRef} {a : AnnotationUse}

/-! ### Answers to one annotation -/

/-- A constraint that does not accept all types. -/
structure Restriction where
  constraint : String
  allowed : List String
  described : String

/-- The restriction that an annotation puts on its element. -/
def restriction? (unit : CompilationUnit) (a : AnnotationUse) : Option Restriction := do
  let constraint ← nameOf? unit a
  let (allowed, described) ← supported? constraint
  some ⟨constraint, allowed, described⟩

/-- The annotation stands on an element of a type that it does not accept. -/
def misplaced (member : Member) (a : AnnotationUse) (r : Restriction) : Diagnostic :=
  let kind := match member with
    | .field _ => "fields"
    | .method _ => "methods"
  (Diagnostic.error Source.beanValidation Code.fixTypeOfElement
    s!"The @{r.constraint} annotation can only be used on {r.described} type {kind}."
    a.nameSpan).withNames [a.simpleName]

theorem targetFinding?_eq (unit : CompilationUnit) (member : Member) (element : TypeRef)
    (a : AnnotationUse) :
    targetFinding? unit member element a =
      ((restriction? unit a).filter fun r => !Check.typeIn element r.allowed).map
        (misplaced member a) := by
  unfold targetFinding? restriction?
  cases nameOf? unit a with
  | none => rfl
  | some constraint =>
    simp only [Option.bind_eq_bind, Option.bind_some]
    cases supported? constraint with
    | none => rfl
    | some supported =>
      cases accepted : Check.typeIn element supported.1 with
      | true => simp [accepted, Option.filter_some]
      | false =>
        simp only [accepted, Option.bind_some, Option.filter_some, Bool.not_false,
          Bool.false_eq_true, ↓reduceIte]
        rfl

/-! ### Types without a binding -/

/-- The type is a name of which is not known what it denotes. -/
structure Unbound (type : TypeRef) : Prop where
  single : ¬ type.isArray
  reference : ¬ type.isPrimitive
  unbound : type.qualifiedName = none

instance : Decidable (Unbound element) :=
  decidable_of_iff (¬ element.isArray ∧ ¬ element.isPrimitive ∧ element.qualifiedName = none)
    ⟨fun ⟨single, reference, unbound⟩ => ⟨single, reference, unbound⟩,
      fun ⟨single, reference, unbound⟩ => ⟨single, reference, unbound⟩⟩

/-- The simple names of the types that a restriction accepts. -/
def Restriction.excused (r : Restriction) : List String :=
  (r.allowed.filter fun candidate => !TypeText.isPrimitive candidate).map TypeText.lastName

theorem Unbound.typeIn_iff (h : Unbound element) (r : Restriction) :
    Check.typeIn element r.allowed ↔ element.simpleName ∈ r.excused := by
  obtain ⟨single, reference, unbound⟩ := h
  simp only [Check.typeIn, Restriction.excused, single, reference, unbound, Bool.not_false,
    Bool.true_and, List.any_eq_true, List.mem_map, List.mem_filter, Bool.false_and]
  refine exists_congr fun candidate => ?_
  by_cases primitive : TypeText.isPrimitive candidate <;> simp [primitive]

theorem Unbound.targetFinding?_eq_none_iff (h : Unbound element) :
    targetFinding? unit member element a = none ↔
      ∀ r, restriction? unit a = some r → element.simpleName ∈ r.excused := by
  rw [targetFinding?_eq, Option.map_eq_none_iff, Option.filter_eq_none_iff]
  refine forall₂_congr fun r _ => ?_
  rw [Bool.not_eq_true, Bool.not_eq_false', h.typeIn_iff]

theorem Unbound.targetFinding?_eq_some (h : Unbound element) {r : Restriction}
    (restricted : restriction? unit a = some r) (other : element.simpleName ∉ r.excused) :
    targetFinding? unit member element a = some (misplaced member a r) := by
  have refused : Check.typeIn element r.allowed = false :=
    Bool.not_eq_true _ ▸ mt (h.typeIn_iff r).1 other
  rw [targetFinding?_eq, restricted, Option.filter_some, refused]
  rfl

/-! ### Answers to all annotations -/

/-- An annotation on a field or on a method that returns something. -/
structure Site where
  member : Member
  element : TypeRef
  use : AnnotationUse

def sitesOf (member : Member) : List Site :=
  member.elementType?.toList.flatMap fun element =>
    member.modifiers.annotations.map (Site.mk member element)

/-- The annotations that are looked at, in the order of the declarations. -/
def sites (unit : CompilationUnit) : List Site :=
  unit.types.flatMap fun t => t.members.flatMap sitesOf

theorem mem_sitesOf (typed : member.elementType? = some element)
    (annotated : a ∈ member.modifiers.annotations) : ⟨member, element, a⟩ ∈ sitesOf member := by
  simpa [sitesOf, typed] using annotated

theorem collect_constraintTargetType (unit : CompilationUnit) :
    (constraintTargetType.collect unit).result =
      .ok ((sites unit).filterMap fun s =>
        targetFinding? unit s.member s.element s.use) := by
  refine congrArg Except.ok ?_
  simp only [sites, List.filterMap_flatMap]
  refine congrArg (List.flatMap · _) (funext fun t => ?_)
  refine congrArg (List.flatMap · _) (funext fun member => ?_)
  unfold sitesOf
  cases member.elementType? with
  | none => rfl
  | some element =>
    simp only [Option.toList_some, List.flatMap_singleton, List.filterMap_map, Function.comp_def]

/-- Every annotation on a member is answered by itself. On an element without a binding a
restricting constraint is flagged unless the element has the simple name of a type that it
accepts. -/
theorem constraintTargetType_flags_unbound {t : TypeDecl} (ht : t ∈ unit.types)
    (hm : member ∈ t.members) (typed : member.elementType? = some element)
    (unbound : Unbound element) (annotated : a ∈ member.modifiers.annotations) :
    (constraintTargetType.collect unit).result = .ok
        ((sites unit).filterMap fun s => targetFinding? unit s.member s.element s.use) ∧
      ⟨member, element, a⟩ ∈ sites unit ∧
      (targetFinding? unit member element a = none ↔
        ∀ r, restriction? unit a = some r → element.simpleName ∈ r.excused) ∧
      ∀ r, restriction? unit a = some r → element.simpleName ∉ r.excused →
        targetFinding? unit member element a = some (misplaced member a r) :=
  ⟨collect_constraintTargetType unit,
    List.mem_flatMap_of_mem ht (List.mem_flatMap_of_mem hm (mem_sitesOf typed annotated)),
    unbound.targetFinding?_eq_none_iff, fun _ => unbound.targetFinding?_eq_some⟩

/-- A date by a name that a wildcard import leaves open. -/
theorem constraintTargetType_flags_unbound_date : ∃ unit t member element a r,
    CompilationUnit.ofText? "file:///A.java"
      ("import java.util.*; class A \x7b @jakarta.validation.constraints.Past Date d; \x7d") =
        some unit ∧
      t ∈ unit.types ∧ member ∈ t.members ∧ member.elementType? = some element ∧ Unbound element ∧
      a ∈ member.modifiers.annotations ∧ restriction? unit a = some r ∧
      element.simpleName ∈ r.excused ∧ targetFinding? unit member element a = none := by
  have facts : (CompilationUnit.ofText? "file:///A.java"
      ("import java.util.*; class A \x7b @jakarta.validation.constraints.Past Date d; \x7d")).any
        fun unit => unit.types.any fun t => t.members.any fun member =>
          member.elementType?.any fun element => decide (Unbound element) &&
            member.modifiers.annotations.any fun a =>
              (restriction? unit a).any fun r => r.excused.contains element.simpleName := by
    decide +kernel
  simp only [Option.any_eq_true, List.any_eq_true, Bool.and_eq_true, decide_eq_true_eq,
    List.contains_iff_mem] at facts
  obtain ⟨unit, lowered, t, ht, member, hm, element, typed, unbound, a, annotated, r, restricted,
    excused⟩ := facts
  have passed := (constraintTargetType_flags_unbound ht hm typed unbound annotated).2.2.1.2
    fun r' restricted' => by
      obtain rfl := Option.some.inj (restricted.symm.trans restricted')
      exact excused
  exact ⟨unit, t, member, element, a, r, lowered, ht, hm, typed, unbound, annotated, restricted,
    excused, passed⟩

/-- A type of the same package is flagged. -/
theorem constraintTargetType_flags_neighbour : ∃ unit t member element a d found,
    CompilationUnit.ofText? "file:///A.java"
      ("import jakarta.validation.constraints.*; class A \x7b @AssertTrue Foo x; \x7d") =
        some unit ∧
      t ∈ unit.types ∧ member ∈ t.members ∧ member.elementType? = some element ∧ Unbound element ∧
      a ∈ member.modifiers.annotations ∧ d.code = Code.fixTypeOfElement ∧ d.span = a.nameSpan ∧
      (constraintTargetType.collect unit).result = .ok found ∧ d ∈ found := by
  have facts : (CompilationUnit.ofText? "file:///A.java"
      ("import jakarta.validation.constraints.*; class A \x7b @AssertTrue Foo x; \x7d")).any
        fun unit => unit.types.any fun t => t.members.any fun member =>
          member.elementType?.any fun element => decide (Unbound element) &&
            member.modifiers.annotations.any fun a =>
              (restriction? unit a).any fun r => !r.excused.contains element.simpleName := by
    decide +kernel
  simp only [Option.any_eq_true, List.any_eq_true, Bool.and_eq_true, decide_eq_true_eq,
    Bool.not_eq_true', ← Bool.not_eq_true, List.contains_iff_mem] at facts
  obtain ⟨unit, lowered, t, ht, member, hm, element, typed, unbound, a, annotated, r, restricted,
    other⟩ := facts
  have site : ⟨member, element, a⟩ ∈ sites unit :=
    List.mem_flatMap_of_mem ht (List.mem_flatMap_of_mem hm (mem_sitesOf typed annotated))
  exact ⟨unit, t, member, element, a, misplaced member a r, _, lowered, ht, hm, typed, unbound,
    annotated, rfl, rfl, collect_constraintTargetType unit,
    List.mem_filterMap.2 ⟨_, site, unbound.targetFinding?_eq_some restricted other⟩⟩

end JakartaCheck.Constraints
