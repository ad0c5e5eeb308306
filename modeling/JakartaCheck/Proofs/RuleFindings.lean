import JakartaCheck.Proofs.FixCoverage

/-!
# What findings rest on

A rule looks at a declaration because a name in it denotes a type of one specification. So a finding
of a built-in rule has a code of the rule and rests on such a name (`Rule.Founded`), and the packages
that the rule looks for in the text beforehand are those of its types.
-/

namespace JakartaCheck

/-! ### Names that denote types -/

namespace CompilationUnit

/-- All annotations of a unit. -/
def annotationUses (unit : CompilationUnit) : List AnnotationUse :=
  unit.types.flatMap fun t =>
    t.modifiers.annotations ++ t.members.flatMap (·.modifiers.annotations)

/-- `fqn` is a name below `package`. -/
def Below (package fqn : String) : Prop := ∃ rest, fqn = package ++ "." ++ rest

def BelowOne (packages : List String) (fqn : String) : Prop :=
  ∃ package ∈ packages, Below package fqn

theorem belowOne {packages : List String} {fqn package : String} (mem : package ∈ packages)
    (rest : String) (eq : fqn = package ++ "." ++ rest) : BelowOne packages fqn :=
  ⟨package, mem, rest, eq⟩

/-- An annotation, or what a method is called on, denotes a type below one of `packages`. -/
def UsesTypeOf (unit : CompilationUnit) (packages : List String) : Prop :=
  ∃ fqn, BelowOne packages fqn ∧
    ((∃ a ∈ unit.annotationUses, unit.annotationIs a fqn) ∨
      ∃ call ∈ unit.calls, ∃ receiver ∈ call.receiver, unit.nameDenotes receiver fqn)

variable {unit : CompilationUnit} {packages : List String} {t : TypeDecl} {fqn : String}
  {a : AnnotationUse}

theorem mem_annotationUses_type (ht : t ∈ unit.types) (ha : a ∈ t.modifiers.annotations) :
    a ∈ unit.annotationUses :=
  List.mem_flatMap.2 ⟨t, ht, List.mem_append_left _ ha⟩

theorem mem_annotationUses_member (ht : t ∈ unit.types) {member : Member} (hm : member ∈ t.members)
    (ha : a ∈ member.modifiers.annotations) : a ∈ unit.annotationUses :=
  List.mem_flatMap.2 ⟨t, ht, List.mem_append_right _ (List.mem_flatMap.2 ⟨member, hm, ha⟩)⟩

theorem mem_annotationUses_method (ht : t ∈ unit.types) {m : MethodDecl} (hm : m ∈ t.methods)
    (ha : a ∈ m.modifiers.annotations) : a ∈ unit.annotationUses := by
  have member : Member.method m ∈ t.members := List.mem_append_right _ (List.mem_map_of_mem hm)
  exact mem_annotationUses_member ht member ha

theorem usesTypeOf_annotation (ha : a ∈ unit.annotationUses) (denotes : unit.annotationIs a fqn)
    (below : BelowOne packages fqn) : unit.UsesTypeOf packages :=
  ⟨fqn, below, .inl ⟨a, ha, denotes⟩⟩

variable {m : Modifiers}

theorem usesTypeOf_has (inside : ∀ a ∈ m.annotations, a ∈ unit.annotationUses)
    (has : unit.hasAnnotationOf m fqn) (below : BelowOne packages fqn) :
    unit.UsesTypeOf packages := by
  obtain ⟨a, ha, denotes⟩ := exists_of_hasAnnotationOf has
  exact usesTypeOf_annotation (inside a ha) denotes below

theorem usesTypeOf_any {fqns : List String} (ha : a ∈ unit.annotationUses)
    (denotes : unit.annotationIsAny fqns a)
    (below : ∀ fqn ∈ fqns, BelowOne packages fqn) : unit.UsesTypeOf packages := by
  obtain ⟨fqn, hfqn, denotes⟩ := List.any_eq_true.1 denotes
  exact usesTypeOf_annotation ha denotes (below fqn hfqn)

theorem usesTypeOf_among {fqns : List String} (inside : ∀ a ∈ m.annotations, a ∈ unit.annotationUses)
    (has : unit.hasAnnotationAmong m fqns)
    (below : ∀ fqn ∈ fqns, BelowOne packages fqn) : unit.UsesTypeOf packages := by
  obtain ⟨a, ha, denotes⟩ := List.any_eq_true.1 has
  exact usesTypeOf_any (inside a ha) denotes below

/-- Annotations that exclude each other are there because one of them denotes a type. -/
theorem usesTypeOf_conflict {q : AnnotationUse → Bool} {participant : AnnotationUse}
    (inside : ∀ a ∈ m.annotations, a ∈ unit.annotationUses)
    (conflict : participant ∈ Check.conflictingAnnotations m (unit.annotationIs · fqn) q)
    (below : BelowOne packages fqn) : unit.UsesTypeOf packages := by
  have primary : ∀ before annotations : List AnnotationUse,
      Check.hasConflict (unit.annotationIs · fqn) q before annotations →
        ∃ a ∈ annotations, unit.annotationIs a fqn := by
    intro before annotations
    induction annotations generalizing before with
    | nil => nofun
    | cons a annotations ih =>
      intro h
      simp only [Check.hasConflict, Bool.or_eq_true, Bool.and_eq_true] at h
      rcases h with ⟨denotes, -⟩ | h
      · exact ⟨a, List.mem_cons_self, denotes⟩
      · obtain ⟨b, hb, denotes⟩ := ih _ h
        exact ⟨b, List.mem_cons_of_mem _ hb, denotes⟩
  unfold Check.conflictingAnnotations at conflict
  split at conflict
  · rename_i conflicting
    obtain ⟨a, ha, denotes⟩ := primary _ _ conflicting
    exact usesTypeOf_annotation (inside a ha) denotes below
  · cases conflict

end CompilationUnit

open CompilationUnit

/-! ### Rules with founded findings -/

/-- The rule applies where the text has one of `packages`. What it reports has one of its codes and
rests on a type below one of `packages`, and the rule calls off nothing. -/
structure Rule.Founded (packages : List String) (rule : Rule) : Prop where
  applies : ∀ unit, rule.isApplicable unit = packages.any unit.mentions
  reports : ∀ unit ds, (rule.collect unit).result = .ok ds → ∀ d ∈ ds,
    d.code ∈ rule.codes ∧ unit.UsesTypeOf packages
  calm : ∀ unit, (rule.collect unit).cancels = []

namespace Rule

theorem code_mem {d : Diagnostic} {codes : List String} (code : String) (hd : d.code = code)
    (mem : code ∈ codes) : d.code ∈ codes := by
  rw [hd]
  exact mem

variable {packages : List String} {unit : CompilationUnit}

theorem founded_of_findings {id : String} {codes : List String} {applies : CompilationUnit → Bool}
    {findings : CompilationUnit → List Diagnostic}
    (happlies : ∀ unit, applies unit = packages.any unit.mentions)
    (h : ∀ unit, ∀ d ∈ findings unit, d.code ∈ codes ∧ unit.UsesTypeOf packages) :
    Founded packages (.ofFindings id codes applies findings) where
  applies := happlies
  reports := by
    intro unit ds hds
    obtain rfl : findings unit = ds := by simpa [Rule.ofFindings] using hds
    exact h unit
  calm := fun _ => rfl

end Rule

namespace Injection

open Rule

def packages : List String := ["jakarta.enterprise", "jakarta.inject"]

theorem applies_eq (unit : CompilationUnit) : applies unit = packages.any unit.mentions := by
  simp [applies, packages]

theorem scopes_below : ∀ fqn ∈ scopes, BelowOne packages fqn := by
  have context : ∀ name, BelowOne packages ("jakarta.enterprise.context." ++ name) := by
    intro name
    refine ⟨"jakarta.enterprise", by decide, "context." ++ name, ?_⟩
    rw [← String.append_assoc]
    rfl
  intro fqn h
  simp only [scopes, List.mem_cons, List.not_mem_nil, or_false] at h
  rcases h with rfl | rfl | rfl | rfl | rfl
  · exact context "Dependent"
  · exact context "ApplicationScoped"
  · exact context "ConversationScoped"
  · exact context "RequestScoped"
  · exact context "SessionScoped"

theorem inject_below : BelowOne packages inject :=
  ⟨"jakarta.inject", by decide, "Inject", rfl⟩

theorem produces_below : BelowOne packages produces :=
  ⟨"jakarta.enterprise", by decide, "inject.Produces", rfl⟩

theorem usesTypeOf_scope {unit : CompilationUnit} {m : Modifiers} {a : AnnotationUse}
    (inside : ∀ a ∈ m.annotations, a ∈ unit.annotationUses) (ha : a ∈ scopesOf unit m) :
    unit.UsesTypeOf packages := by
  obtain ⟨ha, denotes⟩ := List.mem_filter.1 ha
  exact usesTypeOf_any (inside a ha) denotes scopes_below

theorem managedBeanScope_founded : Founded packages managedBeanScope := by
  refine founded_of_findings applies_eq fun unit d hd => ?_
  obtain ⟨t, ht, hd⟩ := List.mem_flatMap.1 hd
  simp only at hd
  split at hd
  case isFalse => cases hd
  case isTrue normal =>
    obtain ⟨v, -, rfl⟩ := List.mem_map.1 hd
    obtain ⟨a, ha, -⟩ := List.any_eq_true.1 normal
    exact ⟨code_mem Code.invalidManagedBeanScope rfl (by decide), usesTypeOf_scope
      (fun _ => mem_annotationUses_type (List.mem_filter.1 ht).1) ha⟩

theorem usesTypeOf_scopes {unit : CompilationUnit} {m : Modifiers}
    (inside : ∀ a ∈ m.annotations, a ∈ unit.annotationUses) (some : scopesOf unit m ≠ []) :
    unit.UsesTypeOf packages := by
  obtain ⟨a, ha⟩ := List.exists_mem_of_ne_nil _ some
  exact usesTypeOf_scope inside ha

theorem scopeDeclaration_founded : Founded packages scopeDeclaration := by
  refine founded_of_findings applies_eq fun unit d hd => ?_
  obtain ⟨t, ht, hd⟩ := List.mem_flatMap.1 hd
  rcases List.mem_append.1 hd with hd | hd
  · split at hd
    case isFalse => cases hd
    case isTrue many =>
      obtain rfl := List.mem_singleton.1 hd
      exact ⟨code_mem Code.invalidScopeDecl rfl (by decide), usesTypeOf_scopes
        (fun _ => mem_annotationUses_type ht)
        (List.ne_nil_of_length_pos (Nat.lt_trans Nat.zero_lt_one many))⟩
  · obtain ⟨member, hm, hd⟩ := List.mem_flatMap.1 hd
    unfold producerScopes at hd
    simp only at hd
    split at hd
    case isFalse => cases hd
    case isTrue produced =>
      obtain ⟨s, -, rfl⟩ := List.mem_map.1 hd
      rw [Bool.and_eq_true] at produced
      exact ⟨code_mem Code.invalidScopeDecl rfl (by decide), usesTypeOf_has
        (fun _ => mem_annotationUses_member ht hm) produced.1 produces_below⟩

theorem producerInjectConflict_founded : Founded packages producerInjectConflict := by
  refine founded_of_findings applies_eq fun unit d hd => ?_
  obtain ⟨t, ht, hd⟩ := List.mem_flatMap.1 hd
  obtain ⟨member, hm, hd⟩ := List.mem_flatMap.1 hd
  obtain ⟨code, a, ha, -⟩ := Check.mem_exclusionDiagnostics hd
  rw [code]
  exact ⟨by decide, usesTypeOf_conflict (fun _ => mem_annotationUses_member ht hm) ha produces_below⟩

theorem injectionParameters_founded : Founded packages injectionParameters := by
  refine founded_of_findings applies_eq fun unit d hd => ?_
  obtain ⟨t, ht, hd⟩ := List.mem_flatMap.1 hd
  obtain ⟨m, hm, hd⟩ := List.mem_flatMap.1 hd
  have inside : ∀ a ∈ m.modifiers.annotations, a ∈ unit.annotationUses :=
    fun _ => mem_annotationUses_method ht hm
  simp only [methodParameters] at hd
  split at hd
  case isTrue => cases hd
  case isFalse =>
    rcases List.mem_append.1 hd with hd | hd
    · split at hd
      case isFalse => cases hd
      case isTrue has =>
        obtain rfl := List.mem_singleton.1 hd
        exact ⟨code_mem Code.invalidInjectParam rfl (by decide), usesTypeOf_has inside has inject_below⟩
    · split at hd
      case isFalse => cases hd
      case isTrue has =>
        obtain rfl := List.mem_singleton.1 hd
        exact ⟨code_mem Code.invalidProducerParam rfl (by decide),
          usesTypeOf_has inside has produces_below⟩

theorem managedBeanConstructor_founded : Founded packages managedBeanConstructor := by
  refine founded_of_findings applies_eq fun unit d hd => ?_
  obtain ⟨t, ht, hd⟩ := List.mem_flatMap.1 hd
  have ht := (List.mem_filter.1 ht).1
  rcases List.mem_append.1 hd with hd | hd
  · split at hd
    case isFalse => cases hd
    case isTrue missing =>
      obtain rfl := List.mem_singleton.1 hd
      simp only [Bool.and_eq_true, Bool.not_eq_true', List.isEmpty_eq_false_iff] at missing
      exact ⟨code_mem Code.invalidManagedBeanConstructor rfl (by decide), usesTypeOf_scopes
        (fun _ => mem_annotationUses_type ht) missing.1.1⟩
  · obtain ⟨c, hc, rfl⟩ := List.mem_map.1 hd
    unfold Check.exceeding at hc
    split at hc
    case isFalse => cases hc
    case isTrue =>
      obtain ⟨hc, has⟩ := List.mem_filter.1 hc
      exact ⟨code_mem Code.invalidMultipleInjectConstructors rfl (by decide), usesTypeOf_has
        (fun _ => mem_annotationUses_method ht (List.mem_filter.1 hc).1) has inject_below⟩

end Injection

namespace RestResources

open Rule

def packages : List String := ["jakarta.ws.rs"]

theorem applies_eq (unit : CompilationUnit) : applies unit = packages.any unit.mentions := by
  simp [applies, packages]

theorem httpMethods_below : ∀ fqn ∈ httpMethods, BelowOne packages fqn := by
  intro fqn h
  obtain ⟨name, -, rfl⟩ := List.mem_map.1 h
  exact belowOne List.mem_cons_self name rfl

theorem path_below : BelowOne packages path := belowOne List.mem_cons_self "Path" rfl

theorem resourceMethodVisibility_founded : Founded packages resourceMethodVisibility := by
  refine founded_of_findings applies_eq fun unit d hd => ?_
  obtain ⟨t, ht, hd⟩ := List.mem_flatMap.1 hd
  obtain ⟨m, hm, rfl⟩ := List.mem_map.1 hd
  obtain ⟨hm, isResource⟩ := List.mem_filter.1 hm
  have inside : ∀ a ∈ m.modifiers.annotations, a ∈ unit.annotationUses :=
    fun _ => mem_annotationUses_method ht hm
  simp only [isResourceMethod, answersHttp, Bool.and_eq_true, Bool.or_eq_true] at isResource
  refine ⟨code_mem Code.nonPublicResourceMethod rfl (by decide), ?_⟩
  rcases isResource.1.2 with has | has
  · exact usesTypeOf_among inside has httpMethods_below
  · exact usesTypeOf_has inside has path_below

theorem resourceMethodEntityParams_founded : Founded packages resourceMethodEntityParams := by
  refine founded_of_findings applies_eq fun unit d hd => ?_
  obtain ⟨t, ht, hd⟩ := List.mem_flatMap.1 hd
  obtain ⟨m, hm, rfl⟩ := List.mem_map.1 hd
  obtain ⟨hm, answers⟩ := List.mem_filter.1 hm
  rw [Bool.and_eq_true] at answers
  exact ⟨code_mem Code.resourceMethodMultipleEntityParams rfl (by decide), usesTypeOf_among
    (fun _ => mem_annotationUses_method ht (List.mem_filter.1 hm).1) answers.1 httpMethods_below⟩

theorem rootResourceConstructors_founded : Founded packages rootResourceConstructors := by
  refine founded_of_findings applies_eq fun unit d hd => ?_
  obtain ⟨t, ht, rfl⟩ := List.mem_map.1 hd
  obtain ⟨ht, isRoot⟩ := List.mem_filter.1 ht
  simp only [Bool.and_eq_true] at isRoot
  exact ⟨code_mem Code.noPublicConstructors rfl (by decide), usesTypeOf_has
    (fun _ => mem_annotationUses_type (List.mem_filter.1 ht).1) isRoot.1.1 path_below⟩

end RestResources

namespace Constraints

open Rule

def packages : List String := ["jakarta.validation"]

theorem applies_eq (unit : CompilationUnit) : applies unit = packages.any unit.mentions := by
  simp [applies, packages]

theorem names_below (name : String) : BelowOne packages (package ++ "." ++ name) := by
  refine belowOne List.mem_cons_self ("constraints." ++ name) ?_
  rw [← String.append_assoc]
  rfl

theorem usesTypeOf_constraint {unit : CompilationUnit} {a : AnnotationUse} {name : String}
    (ha : a ∈ unit.annotationUses) (constraint : nameOf? unit a = some name) :
    unit.UsesTypeOf packages := by
  have denotes := List.find?_some constraint
  exact usesTypeOf_annotation ha denotes (names_below name)

theorem constraintTargetType_founded : Founded packages constraintTargetType := by
  refine founded_of_findings applies_eq fun unit d hd => ?_
  obtain ⟨t, ht, hd⟩ := List.mem_flatMap.1 hd
  obtain ⟨member, hm, hd⟩ := List.mem_flatMap.1 hd
  split at hd
  case h_2 => cases hd
  case h_1 element _ =>
    obtain ⟨a, ha, finding⟩ := List.mem_filterMap.1 hd
    simp only [targetFinding?, Option.bind_eq_bind, Option.bind_eq_some_iff] at finding
    obtain ⟨name, constraint, ⟨allowed, described⟩, -, finding⟩ := finding
    split at finding
    case isTrue => cases finding
    case isFalse =>
      obtain rfl := Option.some.inj finding
      exact ⟨code_mem Code.fixTypeOfElement rfl (by decide),
        usesTypeOf_constraint (mem_annotationUses_member ht hm ha) constraint⟩

theorem constraintStatic_founded : Founded packages constraintStatic := by
  refine founded_of_findings applies_eq fun unit d hd => ?_
  obtain ⟨t, ht, hd⟩ := List.mem_flatMap.1 hd
  obtain ⟨member, hm, hd⟩ := List.mem_flatMap.1 hd
  simp only at hd
  split at hd
  case isFalse => cases hd
  case isTrue found =>
    obtain ⟨s, -, rfl⟩ := List.mem_map.1 hd
    simp only [Bool.and_eq_true, Bool.not_eq_true', List.isEmpty_eq_false_iff] at found
    obtain ⟨a, ha⟩ := List.exists_mem_of_ne_nil _ found.2
    obtain ⟨ha, isConstraint⟩ := List.mem_filter.1 ha
    obtain ⟨name, constraint⟩ := Option.isSome_iff_exists.1 isConstraint
    exact ⟨code_mem Code.makeNotStatic rfl (by decide),
      usesTypeOf_constraint (mem_annotationUses_member ht hm ha) constraint⟩

end Constraints

namespace JsonDocuments

open Rule

def bindingPackages : List String := ["jakarta.json.bind"]

def processingPackages : List String := ["jakarta.json"]

theorem bindingApplies_eq (unit : CompilationUnit) :
    bindingApplies unit = bindingPackages.any unit.mentions := by
  simp [bindingApplies, bindingPackages]

theorem creatorUniqueness_founded : Founded bindingPackages creatorUniqueness := by
  refine founded_of_findings bindingApplies_eq fun unit d hd => ?_
  obtain ⟨t, ht, hd⟩ := List.mem_flatMap.1 hd
  obtain ⟨m, hm, rfl⟩ := List.mem_map.1 hd
  unfold Check.exceeding at hm
  split at hm
  case isFalse => cases hm
  case isTrue =>
    obtain ⟨hm, creates⟩ := List.mem_filter.1 hm
    rw [Bool.and_eq_true] at creates
    have below : BelowOne bindingPackages jsonbCreator := belowOne List.mem_cons_self "annotation.JsonbCreator" rfl
    exact ⟨code_mem Code.multipleJsonbCreatorAnnotations rfl (by decide),
      usesTypeOf_has (fun _ => mem_annotationUses_method ht hm) creates.2 below⟩

theorem transientExclusion_founded : Founded bindingPackages transientExclusion := by
  refine founded_of_findings bindingApplies_eq fun unit d hd => ?_
  obtain ⟨t, ht, hd⟩ := List.mem_flatMap.1 hd
  obtain ⟨member, hm, hd⟩ := List.mem_flatMap.1 hd
  obtain ⟨code, a, ha, -⟩ := Check.mem_exclusionDiagnostics hd
  have below : BelowOne bindingPackages jsonbTransient := belowOne List.mem_cons_self "annotation.JsonbTransient" rfl
  exact ⟨code_mem _ code (by decide),
    usesTypeOf_conflict (fun _ => mem_annotationUses_member ht hm) ha below⟩

theorem pointerTarget_founded : Founded processingPackages pointerTarget := by
  refine founded_of_findings (fun unit => by simp [processingPackages]) fun unit d hd => ?_
  obtain ⟨call, hcall, hd⟩ := List.mem_filterMap.1 hd
  unfold pointerFinding? at hd
  split at hd
  case h_2 => cases hd
  case h_1 receiver arg hreceiver hargs =>
    split at hd
    case h_2 => cases hd
    case h_1 value _ =>
      split at hd
      case isFalse => cases hd
      case isTrue creates =>
        obtain rfl := Option.some.inj hd
        simp only [Bool.and_eq_true] at creates
        exact ⟨code_mem Code.invalidJsonCreatePointerTarget rfl (by decide), json,
          belowOne List.mem_cons_self "Json" rfl, .inr ⟨call, hcall, receiver, hreceiver, creates.1.2⟩⟩

end JsonDocuments

namespace Entities

open Rule

def packages : List String := ["jakarta.persistence"]

theorem applies_eq (unit : CompilationUnit) : applies unit = packages.any unit.mentions := by
  simp [applies, packages]

theorem mapKeyConflict_founded : Founded packages mapKeyConflict := by
  refine founded_of_findings applies_eq fun unit d hd => ?_
  obtain ⟨t, ht, hd⟩ := List.mem_flatMap.1 hd
  obtain ⟨member, hm, hd⟩ := List.mem_flatMap.1 hd
  obtain ⟨code, a, ha, -⟩ := Check.mem_exclusionDiagnostics hd
  have below : BelowOne packages mapKey := belowOne List.mem_cons_self "MapKey" rfl
  exact ⟨code_mem _ code (by decide),
    usesTypeOf_conflict (fun _ => mem_annotationUses_member ht hm) ha below⟩

theorem joinColumnAttributes_founded : Founded packages joinColumnAttributes := by
  refine founded_of_findings applies_eq fun unit d hd => ?_
  obtain ⟨t, ht, hd⟩ := List.mem_flatMap.1 hd
  obtain ⟨member, hm, hd⟩ := List.mem_flatMap.1 hd
  obtain ⟨column, hcolumn, hd⟩ := List.mem_filterMap.1 hd
  unfold Check.exceeding at hcolumn
  split at hcolumn
  case isFalse => cases hcolumn
  case isTrue =>
    obtain ⟨ha, denotes⟩ := List.mem_filter.1 hcolumn
    simp only at hd
    split at hd
    case isTrue => cases hd
    case isFalse =>
      obtain rfl := Option.some.inj hd
      have below : BelowOne packages mapKeyJoinColumn := belowOne List.mem_cons_self "MapKeyJoinColumn" rfl
      exact ⟨code_mem Code.missingAttributes rfl (by decide),
        usesTypeOf_annotation (mem_annotationUses_member ht hm ha) denotes below⟩

theorem entityStructure_founded : Founded packages entityStructure := by
  refine founded_of_findings applies_eq fun unit d hd => ?_
  obtain ⟨t, ht, hd⟩ := List.mem_flatMap.1 hd
  obtain ⟨ht, isEntity⟩ := List.mem_filter.1 ht
  refine ⟨?_, usesTypeOf_has (fun _ => mem_annotationUses_type (List.mem_filter.1 ht).1) isEntity
    (belowOne List.mem_cons_self "Entity" rfl)⟩
  simp only [List.append_assoc] at hd
  rcases List.mem_append.1 hd with hd | hd
  · split at hd
    case isTrue => cases hd
    case isFalse =>
      obtain rfl := List.mem_singleton.1 hd
      exact code_mem Code.missingEmptyConstructor rfl (by decide)
  rcases List.mem_append.1 hd with hd | hd
  · split at hd
    case isFalse => cases hd
    case isTrue =>
      obtain rfl := List.mem_singleton.1 hd
      exact code_mem Code.removeFinalMods rfl (by decide)
  rcases List.mem_append.1 hd with hd | hd
  · obtain ⟨m, -, rfl⟩ := List.mem_map.1 hd
    exact code_mem Code.removeFinalMods rfl (by decide)
  · obtain ⟨v, -, rfl⟩ := List.mem_map.1 hd
    exact code_mem Code.removeFinalMods rfl (by decide)

end Entities

namespace Servlets

open Rule

def packages : List String := ["jakarta.servlet"]

theorem applies_eq (unit : CompilationUnit) : applies unit = packages.any unit.mentions := by
  simp [applies, packages]

theorem usesTypeOf_annotated {unit : CompilationUnit} {types : List TypeDecl} {fqn : String}
    {t : TypeDecl} {a : AnnotationUse} (inside : ∀ t ∈ types, t ∈ unit.types)
    (h : (t, a) ∈ annotated unit types fqn) (below : BelowOne packages fqn) :
    unit.UsesTypeOf packages := by
  obtain ⟨u, hu, found⟩ := List.mem_filterMap.1 h
  obtain ⟨b, hb, eq⟩ := Option.map_eq_some_iff.1 found
  obtain ⟨rfl, rfl⟩ := Prod.mk.inj eq
  have denotes := List.find?_some hb
  exact usesTypeOf_annotation
    (mem_annotationUses_type (inside u hu) (List.mem_of_find?_eq_some hb)) denotes below

theorem webServlet_below : BelowOne packages webServlet :=
  belowOne List.mem_cons_self "annotation.WebServlet" rfl

theorem mem_of_classes {unit : CompilationUnit} : ∀ t ∈ classes unit, t ∈ unit.types :=
  fun _ ht => (List.mem_filter.1 ht).1

theorem servletSuperclass_founded : Founded packages servletSuperclass := by
  refine founded_of_findings applies_eq fun unit d hd => ?_
  obtain ⟨⟨t, a⟩, hta, rfl⟩ := List.mem_map.1 hd
  exact ⟨code_mem Code.extendHttpServlet rfl (by decide),
    usesTypeOf_annotated mem_of_classes (List.mem_filter.1 hta).1 webServlet_below⟩

theorem servletAttributes_founded : Founded packages servletAttributes := by
  refine founded_of_findings applies_eq fun unit d hd => ?_
  obtain ⟨⟨t, a⟩, hta, hd⟩ := List.mem_flatMap.1 hd
  refine ⟨?_, usesTypeOf_annotated (fun _ ht => ht) hta webServlet_below⟩
  simp only at hd
  split at hd
  case h_1 => cases hd
  case h_2 =>
    obtain rfl := List.mem_singleton.1 hd
    exact code_mem Code.completeHttpServletAttributes rfl (by decide)
  case h_3 =>
    obtain rfl := List.mem_singleton.1 hd
    exact code_mem Code.invalidHttpServletAttribute rfl (by decide)

theorem filterStructure_founded : Founded packages filterStructure := by
  refine founded_of_findings applies_eq fun unit d hd => ?_
  obtain ⟨⟨t, a⟩, hta, hd⟩ := List.mem_flatMap.1 hd
  have below : BelowOne packages webFilter := belowOne List.mem_cons_self "annotation.WebFilter" rfl
  refine ⟨?_, usesTypeOf_annotated mem_of_classes hta below⟩
  rcases List.mem_append.1 hd with hd | hd
  · split at hd
    case isFalse => cases hd
    case isTrue =>
      obtain rfl := List.mem_singleton.1 hd
      exact code_mem Code.implementFilter rfl (by decide)
  · split at hd
    case h_1 => cases hd
    case h_2 =>
      obtain rfl := List.mem_singleton.1 hd
      exact code_mem Code.completeFilterAttributes rfl (by decide)
    case h_3 =>
      obtain rfl := List.mem_singleton.1 hd
      exact code_mem Code.invalidFilterAnnotationAttribute rfl (by decide)

theorem listenerInterface_founded : Founded packages listenerInterface := by
  refine founded_of_findings applies_eq fun unit d hd => ?_
  obtain ⟨⟨t, a⟩, hta, rfl⟩ := List.mem_map.1 hd
  have below : BelowOne packages webListener := belowOne List.mem_cons_self "annotation.WebListener" rfl
  exact ⟨code_mem Code.webListenerMustImplementCorrectInterface rfl (by decide),
    usesTypeOf_annotated mem_of_classes (List.mem_filter.1 hta).1 below⟩

end Servlets

namespace Endpoints

open Rule

def packages : List String := ["jakarta.websocket"]

theorem applies_eq (unit : CompilationUnit) : applies unit = packages.any unit.mentions := by
  simp [applies, packages]

theorem serverEndpoint_below : BelowOne packages serverEndpoint :=
  belowOne List.mem_cons_self "server.ServerEndpoint" rfl

theorem endpointPaths_founded : Founded packages endpointPaths := by
  refine founded_of_findings applies_eq fun unit d hd => ?_
  obtain ⟨t, ht, finding⟩ := List.mem_filterMap.1 hd
  simp only [pathFinding?, Option.bind_eq_bind, Option.bind_eq_some_iff] at finding
  obtain ⟨a, ha, arg, -, path, -, flaw, -, finding⟩ := finding
  obtain rfl := Option.some.inj finding
  have has : unit.hasAnnotationOf t.modifiers serverEndpoint := Option.isSome_iff_exists.2 ⟨a, ha⟩
  exact ⟨code_mem Code.invalidEndpointURI rfl (by decide),
    usesTypeOf_has (fun _ => mem_annotationUses_type ht) has serverEndpoint_below⟩

theorem callbackParameters_founded : Founded packages callbackParameters := by
  refine founded_of_findings applies_eq fun unit d hd => ?_
  obtain ⟨t, ht, hd⟩ := List.mem_flatMap.1 hd
  obtain ⟨ht, has⟩ := List.mem_filter.1 ht
  refine ⟨?_, usesTypeOf_has (fun _ => mem_annotationUses_type ht) has serverEndpoint_below⟩
  obtain ⟨m, -, hd⟩ := List.mem_flatMap.1 hd
  split at hd
  case h_2 => cases hd
  case h_1 fqn extra _ =>
    obtain ⟨p, -, finding⟩ := List.mem_filterMap.1 hd
    unfold parameterFinding? at finding
    split at finding
    · cases finding
    split at finding
    · obtain rfl := Option.some.inj finding
      exact code_mem Code.changeInvalidParamType rfl (by decide)
    split at finding
    · cases finding
    · obtain rfl := Option.some.inj finding
      exact code_mem Code.addPathParams rfl (by decide)

end Endpoints

namespace Lifecycle

open Rule

def packages : List String := ["jakarta.annotation"]

theorem applies_eq (unit : CompilationUnit) : applies unit = packages.any unit.mentions := by
  simp [applies, packages]

theorem code_of_postConstruct {m : MethodDecl} {d : Diagnostic} (h : d ∈ postConstructFindings m) :
    d.code ∈ callbacks.codes := by
  simp only [postConstructFindings, List.mem_append] at h
  rcases h with (h | h) | h
  · obtain ⟨-, rfl⟩ := FixRegistry.mem_onlyIf h
    exact code_mem Code.postConstructParams rfl (by decide)
  · obtain ⟨-, rfl⟩ := FixRegistry.mem_onlyIf h
    exact code_mem Code.postConstructReturnType rfl (by decide)
  · obtain ⟨-, rfl⟩ := FixRegistry.mem_onlyIf h
    exact code_mem Code.postConstructException rfl (by decide)

theorem code_of_preDestroy {m : MethodDecl} {d : Diagnostic} (h : d ∈ preDestroyFindings m) :
    d.code ∈ callbacks.codes := by
  simp only [preDestroyFindings, List.mem_append] at h
  rcases h with (h | h) | h
  · obtain ⟨-, rfl⟩ := FixRegistry.mem_onlyIf h
    exact code_mem Code.preDestroyParams rfl (by decide)
  · obtain ⟨-, rfl⟩ := FixRegistry.mem_onlyIf h
    exact code_mem Code.preDestroyStatic rfl (by decide)
  · obtain ⟨-, rfl⟩ := FixRegistry.mem_onlyIf h
    exact code_mem Code.preDestroyException rfl (by decide)

theorem callbacks_founded : Founded packages callbacks := by
  refine founded_of_findings applies_eq fun unit d hd => ?_
  obtain ⟨t, ht, hd⟩ := List.mem_flatMap.1 hd
  obtain ⟨m, hm, hd⟩ := List.mem_flatMap.1 hd
  have inside : ∀ a ∈ m.modifiers.annotations, a ∈ unit.annotationUses :=
    fun _ => mem_annotationUses_method ht (List.mem_filter.1 hm).1
  rcases List.mem_append.1 hd with hd | hd
  · split at hd
    case isFalse => cases hd
    case isTrue has =>
      have below : BelowOne packages postConstruct := belowOne List.mem_cons_self "PostConstruct" rfl
      exact ⟨code_of_postConstruct hd, usesTypeOf_has inside has below⟩
  · split at hd
    case isFalse => cases hd
    case isTrue has =>
      have below : BelowOne packages preDestroy := belowOne List.mem_cons_self "PreDestroy" rfl
      exact ⟨code_of_preDestroy hd, usesTypeOf_has inside has below⟩

theorem resourceAttributes_founded : Founded packages resourceAttributes := by
  refine founded_of_findings applies_eq fun unit d hd => ?_
  obtain ⟨t, ht, hd⟩ := List.mem_flatMap.1 hd
  obtain ⟨a, ha, hd⟩ := List.mem_flatMap.1 hd
  obtain ⟨ha, denotes⟩ := List.mem_filter.1 ha
  have below : BelowOne packages resource := belowOne List.mem_cons_self "Resource" rfl
  refine ⟨?_, usesTypeOf_annotation (mem_annotationUses_type ht ha) denotes below⟩
  rcases List.mem_append.1 hd with hd | hd
  · obtain ⟨-, rfl⟩ := FixRegistry.mem_onlyIf hd
    exact code_mem Code.missingResourceNameAttribute rfl (by decide)
  · obtain ⟨-, rfl⟩ := FixRegistry.mem_onlyIf hd
    exact code_mem Code.missingResourceTypeAttribute rfl (by decide)

theorem annotationOf?_of_dateFindings {unit : CompilationUnit} {m : Modifiers}
    {ds : List Diagnostic} {d : Diagnostic} (h : dateFindings unit m = .ok ds) (hd : d ∈ ds) :
    unit.hasAnnotationOf m generated := by
  unfold CompilationUnit.hasAnnotationOf
  cases found : unit.annotationOf? m generated with
  | some a => rfl
  | none =>
    rw [dateFindings, found] at h
    cases h
    cases hd

theorem annotations_of_modifierLists {unit : CompilationUnit} {m : Modifiers}
    (h : m ∈ unit.types.flatMap modifierLists) : ∀ a ∈ m.annotations, a ∈ unit.annotationUses := by
  obtain ⟨t, ht, hm⟩ := List.mem_flatMap.1 h
  rcases List.mem_cons.1 hm with rfl | hm
  · exact fun _ => mem_annotationUses_type ht
  · obtain ⟨member, hmember, rfl⟩ := List.mem_map.1 hm
    exact fun _ => mem_annotationUses_member ht hmember

theorem generatedDate_founded : Founded packages generatedDate where
  applies := applies_eq
  reports := by
    intro unit ds hds d hd
    simp only [generatedDate, Rule.ofOutcome] at hds
    cases hfound : (unit.types.flatMap modifierLists).mapM (dateFindings unit) with
    | error fault =>
      rw [hfound] at hds
      cases hds
    | ok found =>
      rw [hfound] at hds
      obtain rfl : found.flatten = ds := Except.ok.inj hds
      obtain ⟨some, mem, hd⟩ := List.mem_flatten.1 hd
      obtain ⟨m, hm, finds⟩ := Family.exists_of_mapM_eq_ok hfound mem
      exact ⟨code_mem _ (FixRegistry.code_of_dateFindings finds hd) (by decide),
        usesTypeOf_has (annotations_of_modifierLists hm) (annotationOf?_of_dateFindings finds hd)
          (belowOne List.mem_cons_self "Generated" rfl)⟩
  calm := fun _ => rfl

end Lifecycle

/-! ### All rules -/

namespace RuleRegistry

/-- The packages that the built-in rules look for. -/
def lookedFor : List String :=
  Injection.packages ++ RestResources.packages ++ Constraints.packages ++
    JsonDocuments.bindingPackages ++ JsonDocuments.processingPackages ++ Entities.packages ++
    Servlets.packages ++ Endpoints.packages ++ Lifecycle.packages

theorem builtinRules_founded :
    ∀ rule ∈ builtinRules, ∃ packages, packages ⊆ lookedFor ∧ rule.Founded packages := by
  intro rule hrule
  simp only [builtinRules, Injection.rules, RestResources.rules, Constraints.rules,
    JsonDocuments.rules, Entities.rules, Servlets.rules, Endpoints.rules, Lifecycle.rules,
    List.cons_append, List.nil_append, List.mem_cons, List.not_mem_nil, or_false] at hrule
  rcases hrule with rfl | rfl | rfl | rfl | rfl | rfl | rfl | rfl | rfl | rfl | rfl | rfl | rfl |
    rfl | rfl | rfl | rfl | rfl | rfl | rfl | rfl | rfl | rfl | rfl | rfl
  · exact ⟨_, by decide, Injection.managedBeanScope_founded⟩
  · exact ⟨_, by decide, Injection.scopeDeclaration_founded⟩
  · exact ⟨_, by decide, Injection.producerInjectConflict_founded⟩
  · exact ⟨_, by decide, Injection.injectionParameters_founded⟩
  · exact ⟨_, by decide, Injection.managedBeanConstructor_founded⟩
  · exact ⟨_, by decide, RestResources.resourceMethodVisibility_founded⟩
  · exact ⟨_, by decide, RestResources.resourceMethodEntityParams_founded⟩
  · exact ⟨_, by decide, RestResources.rootResourceConstructors_founded⟩
  · exact ⟨_, by decide, Constraints.constraintTargetType_founded⟩
  · exact ⟨_, by decide, Constraints.constraintStatic_founded⟩
  · exact ⟨_, by decide, JsonDocuments.creatorUniqueness_founded⟩
  · exact ⟨_, by decide, JsonDocuments.transientExclusion_founded⟩
  · exact ⟨_, by decide, JsonDocuments.pointerTarget_founded⟩
  · exact ⟨_, by decide, Entities.mapKeyConflict_founded⟩
  · exact ⟨_, by decide, Entities.joinColumnAttributes_founded⟩
  · exact ⟨_, by decide, Entities.entityStructure_founded⟩
  · exact ⟨_, by decide, Servlets.servletSuperclass_founded⟩
  · exact ⟨_, by decide, Servlets.servletAttributes_founded⟩
  · exact ⟨_, by decide, Servlets.filterStructure_founded⟩
  · exact ⟨_, by decide, Servlets.listenerInterface_founded⟩
  · exact ⟨_, by decide, Endpoints.endpointPaths_founded⟩
  · exact ⟨_, by decide, Endpoints.callbackParameters_founded⟩
  · exact ⟨_, by decide, Lifecycle.callbacks_founded⟩
  · exact ⟨_, by decide, Lifecycle.resourceAttributes_founded⟩
  · exact ⟨_, by decide, Lifecycle.generatedDate_founded⟩

end RuleRegistry

end JakartaCheck
