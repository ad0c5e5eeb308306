import JakartaCheck.Fixes.Catalog
import JakartaCheck.Proofs.FamilyOffers
import JakartaCheck.Proofs.FixRegistration
import JakartaCheck.Rules.Catalog

/-!
# Every built-in finding has its fix

A rule reports where something is wrong, a fix looks the declaration up again from the span alone and
has conditions of its own. For each built-in rule it is shown that what it reports leads back to the
declaration it looked at, and that the fix for its code has something to change there
(`FixRegistry.Covered`). The one exception is a servlet that already has a superclass. All this is said
of well-formed units, which are those that are read from a text, and others
(`CompilationUnit.wellFormed_of_lower?`).
-/

namespace JakartaCheck

@[simp] theorem Diagnostic.names_withNames (d : Diagnostic) (names : List String) :
    (d.withNames names).names = names := by
  simp only [Diagnostic.names, withNames, Json.list]
  induction names with
  | nil => rfl
  | cons name names ih => simpa [Json.asString?] using ih

namespace Check

theorem mem_distinctFrom {name : String} {names seen : List String} :
    name ∈ distinctFrom seen names ↔ name ∈ names ∧ name ∉ seen := by
  induction names generalizing seen with
  | nil => simp [distinctFrom]
  | cons n names ih =>
    rw [distinctFrom]
    by_cases hseen : seen.contains n = true
    · rw [if_pos hseen, ih]
      have hmem : n ∈ seen := by simpa using hseen
      constructor
      · rintro ⟨hname, hno⟩
        exact ⟨List.mem_cons_of_mem _ hname, hno⟩
      · rintro ⟨hname, hno⟩
        rcases List.mem_cons.1 hname with rfl | hname
        · exact absurd hmem hno
        · exact ⟨hname, hno⟩
    · rw [if_neg hseen, List.mem_cons, ih]
      have hno : n ∉ seen := by simpa using hseen
      by_cases heq : name = n
      · subst heq
        simp [hno]
      · simp [heq]

theorem mem_distinctNames {a : AnnotationUse} {annotations : List AnnotationUse}
    (ha : a ∈ annotations) : a.simpleName ∈ distinctNames annotations :=
  mem_distinctFrom.2 ⟨List.mem_map_of_mem ha, by simp⟩

theorem mem_exclusionDiagnostics {participants : List AnnotationUse} {source code message : String}
    {d : Diagnostic} (h : d ∈ exclusionDiagnostics participants source code message) :
    d.code = code ∧ ∃ a ∈ participants, d.span = a.nameSpan ∧ a.simpleName ∈ d.names := by
  obtain ⟨a, ha, rfl⟩ := List.mem_map.1 h
  refine ⟨rfl, a, ha, rfl, ?_⟩
  rw [Diagnostic.names_withNames]
  exact mem_distinctNames ha

theorem mem_of_conflicting {m : Modifiers} {p q : AnnotationUse → Bool} {a : AnnotationUse}
    (h : a ∈ conflictingAnnotations m p q) : a ∈ m.annotations := by
  rw [conflictingAnnotations] at h
  split at h
  · exact (List.mem_filter.1 h).1
  · cases h

end Check

namespace Hierarchy

theorem searchAmong_eq_yes {unit : CompilationUnit} {fqns : List String}
    {visit : List String → TypeDecl → Conformance × List String} {type : TypeRef}
    (hyes : fqns.any (unit.typeIs type)) {types : List TypeRef} (hmem : type ∈ types)
    (visited : List String) (before : Conformance) :
    (searchAmong unit fqns visit visited before types).1 = .yes := by
  induction types generalizing visited before with
  | nil => cases hmem
  | cons t types ih =>
    rw [searchAmong]
    by_cases ht : fqns.any (unit.typeIs t) = true
    · rw [if_pos ht]
    · rw [if_neg ht]
      have hrest : type ∈ types := by
        rcases List.mem_cons.1 hmem with rfl | hmem
        · exact absurd hyes ht
        · exact hmem
      simp only
      split
      · rfl
      · exact ih hrest _ _
      · exact ih hrest _ _

/-- A type that implements none of some interfaces names none of them. -/
theorem not_named_of_implementsAny {unit : CompilationUnit} {t : TypeDecl} {fqn : String}
    (h : implementsAny unit t [fqn] = .no) : t.interfaces.any (unit.typeIs · fqn) = false := by
  refine Bool.eq_false_iff.2 fun hany => ?_
  obtain ⟨type, hmem, htype⟩ := List.any_eq_true.1 hany
  have hsuper : type ∈ t.supertypes := List.mem_append_right _ hmem
  rw [implementsAny, bound, search, if_neg (by simp),
    searchAmong_eq_yes (by simpa using htype) hsuper] at h
  cases h

end Hierarchy

/-- The place of a member, with the type around it. -/
def Member.located (t : TypeDecl) : Member → Located
  | .field f => .field t f
  | .method m => .method t m

namespace CompilationUnit

variable {unit : CompilationUnit} {t : TypeDecl} {member : Member}

theorem modifiers_located (t : TypeDecl) (member : Member) :
    (member.located t).modifiers = member.modifiers := by
  cases member <;> rfl

theorem of_member (ht : t ∈ unit.types) (hmember : member ∈ t.members) :
    (member.located t).Of unit := by
  rcases List.mem_append.1 hmember with h | h
  · obtain ⟨f, hf, rfl⟩ := List.mem_map.1 h
    exact ⟨ht, hf⟩
  · obtain ⟨m, hm, rfl⟩ := List.mem_map.1 h
    exact ⟨ht, hm⟩

/-- A name of a member leads back to it. -/
theorem WellFormed.declarationAt?_memberName (h : unit.WellFormed) (ht : t ∈ unit.types)
    (hmember : member ∈ t.members) {s : Span} (hs : s ∈ member.nameSpans) :
    unit.declarationAt? s = some (member.located t) := by
  rcases List.mem_append.1 hmember with hm | hm
  · obtain ⟨f, hf, rfl⟩ := List.mem_map.1 hm
    obtain ⟨d, hd, rfl⟩ := List.mem_map.1 hs
    obtain ⟨hfits, hinside⟩ := ((h.types t ht).fields f hf).names d hd
    exact h.arranged.declarationAt?_field ht hf hinside hfits.nonempty
  · obtain ⟨m, hmethods, rfl⟩ := List.mem_map.1 hm
    obtain rfl := List.mem_singleton.1 hs
    have hmethod := (h.types t ht).methods m hmethods
    exact h.declarationAt?_method ht hmethods hmethod.name_inside hmethod.name_fits.nonempty

/-- The name of an annotation of a member leads back to the member. -/
theorem WellFormed.declarationAt?_memberAnnotation (h : unit.WellFormed) (ht : t ∈ unit.types)
    (hmember : member ∈ t.members) {a : AnnotationUse} (ha : a ∈ member.modifiers.annotations) :
    unit.declarationAt? a.nameSpan = some (member.located t) := by
  rcases List.mem_append.1 hmember with hm | hm
  · obtain ⟨f, hf, rfl⟩ := List.mem_map.1 hm
    obtain ⟨hwf, hplace⟩ := ((h.types t ht).fields f hf).modifiers.annotations a ha
    exact h.arranged.declarationAt?_field ht hf (Span.contains_trans hplace hwf.name_inside)
      hwf.name_fits.nonempty
  · obtain ⟨m, hmethods, rfl⟩ := List.mem_map.1 hm
    obtain ⟨hwf, hplace⟩ := ((h.types t ht).methods m hmethods).modifiers.annotations a ha
    obtain ⟨hin, hout⟩ := isHeader_iff_method.1 hplace
    refine h.declarationAt?_method ht hmethods (isHeader_iff_method.2 ⟨?_, ?_⟩) hwf.name_fits.nonempty
    · exact Span.contains_trans hin hwf.name_inside
    · exact hout.mono hwf.name_inside (Span.contains_self _)

/-- The name of a type leads back to the type. -/
theorem WellFormed.declarationAt?_typeName (h : unit.WellFormed) (ht : t ∈ unit.types) :
    unit.declarationAt? t.nameSpan = some (.type t) :=
  h.declarationAt?_type ht (h.types t ht).name_inside (h.types t ht).name_fits.nonempty

/-- The name of an annotation of a type leads back to the type. -/
theorem WellFormed.declarationAt?_typeAnnotation (h : unit.WellFormed) (ht : t ∈ unit.types)
    {a : AnnotationUse} (ha : a ∈ t.modifiers.annotations) :
    unit.declarationAt? a.nameSpan = some (.type t) := by
  obtain ⟨hwf, hplace⟩ := (h.types t ht).modifiers.annotations a ha
  obtain ⟨hin, hout⟩ := TypeDecl.isHeader_iff.1 hplace
  refine h.declarationAt?_type ht (TypeDecl.isHeader_iff.2 ⟨?_, ?_⟩) hwf.name_fits.nonempty
  · exact Span.contains_trans hin hwf.name_inside
  · exact hout.mono hwf.name_inside (Span.contains_self _)

theorem exists_of_hasAnnotationOf {m : Modifiers} {fqn : String} (h : unit.hasAnnotationOf m fqn) :
    ∃ a ∈ m.annotations, unit.annotationIs a fqn := by
  obtain ⟨a, ha⟩ := Option.isSome_iff_exists.1 h
  rw [annotationOf?] at ha
  have hdenotes := List.find?_some ha
  exact ⟨a, List.mem_of_find?_eq_some ha, hdenotes⟩

/-- An annotation that denotes a type is called by the last part of its name. -/
theorem simpleName_eq {text : String} {a : AnnotationUse} (ha : a.WellFormed text) {fqn : String}
    (hname : Java.isDottedName fqn) (h : unit.annotationIs a fqn) :
    a.simpleName = TypeText.lastName fqn := by
  rw [annotationIs] at h
  cases hq : a.qualifiedName with
  | none =>
    simp only [hq, denotes, Bool.and_eq_true, beq_iff_eq] at h
    exact h.1
  | some q =>
    simp only [hq, denotes, beq_iff_eq] at h
    subst h
    exact ha.bound q (by simp [hq]) hname

end CompilationUnit

/-! ### Rules and fixes together -/

namespace FixRegistry

open Family (Offers Declines Mends)

/-- A servlet that should extend another class but extends one already. -/
def Exempt (unit : CompilationUnit) (d : Diagnostic) : Prop :=
  d.code = Code.extendHttpServlet ∧
    ∃ t, unit.declarationAt? d.span = some (.type t) ∧ t.superclass.isSome

/-- The built-in fix for a diagnostic, if there is one, has proposals that can all be applied; only
if the diagnostic is exempt, it declines. -/
def Covered (unit : CompilationUnit) (d : Diagnostic) : Prop :=
  ∀ fix, builtin.entryFor? d.code = some fix →
    (Exempt unit d → Declines (fix.propose d unit)) ∧
      (¬ Exempt unit d → Offers unit.text (fix.propose d unit))

variable {unit : CompilationUnit} {d : Diagnostic} {found : Located} {t : TypeDecl}

theorem covered_of_none (h : builtin.entryFor? d.code = none) : Covered unit d := by
  intro fix hfix
  rw [h] at hfix
  cases hfix

/-- The fix for a code makes one kind of change, and nothing with that code is exempt. -/
def AnsweredBy (code : String) (family : Family) : Prop :=
  code ≠ Code.extendHttpServlet ∧
    ∃ id codes, builtin.entryFor? code = some (.ofFamily id codes family)

theorem covered_of_offers (code : String) (hd : d.code = code) {family : Family}
    (hfix : AnsweredBy code family) (h : Offers unit.text (family.propose d unit)) :
    Covered unit d := by
  subst hd
  obtain ⟨hcode, id, codes, hentry⟩ := hfix
  intro fix hfix
  obtain rfl := Option.some.inj (hentry.symm.trans hfix)
  exact ⟨fun hexempt => absurd hexempt.1 hcode, fun _ => h⟩

theorem covered_of_mends (hwf : unit.WellFormed) (code : String) (hd : d.code = code)
    {family : Family} (hfix : AnsweredBy code family) (hfound : unit.declarationAt? d.span = some found)
    (hof : found.Of unit) (hmends : Mends unit d found family) : Covered unit d :=
  covered_of_offers code hd hfix (Family.propose_offers hwf hfound hof hmends)

/-- All that a rule reports is covered. -/
def RuleCovered (unit : CompilationUnit) (rule : Rule) : Prop :=
  ∀ ds, (rule.collect unit).result = .ok ds → ∀ d ∈ ds, Covered unit d

theorem ruleCovered_of_findings {id : String} {codes : List String}
    {applies : CompilationUnit → Bool} {findings : CompilationUnit → List Diagnostic}
    (h : ∀ d ∈ findings unit, Covered unit d) :
    RuleCovered unit (.ofFindings id codes applies findings) := by
  intro ds hds
  obtain rfl : findings unit = ds := by simpa [Rule.ofFindings] using hds
  exact h

/-! ### Contexts and dependency injection -/

theorem mem_of_scopesOf {m : Modifiers} {a : AnnotationUse} (h : a ∈ Injection.scopesOf unit m) :
    a ∈ m.annotations ∧ unit.annotationIsAny Injection.scopes a :=
  List.mem_filter.1 h

theorem managedBeanScope_covered (hwf : unit.WellFormed) :
    RuleCovered unit Injection.managedBeanScope := by
  refine ruleCovered_of_findings fun d hd => ?_
  obtain ⟨t, ht, hd⟩ := List.mem_flatMap.1 hd
  have ht := (List.mem_filter.1 ht).1
  simp only at hd
  split at hd
  case isTrue hany =>
    obtain ⟨a, ha, -⟩ := List.any_eq_true.1 hany
    obtain ⟨declarator, hdecl, rfl⟩ := List.mem_map.1 hd
    obtain ⟨f, hf, hdecl⟩ := List.mem_flatMap.1 hdecl
    have hf := (List.mem_filter.1 hf).1
    obtain ⟨hfits, hinside⟩ := ((hwf.types t ht).fields f hf).names declarator hdecl
    exact covered_of_mends hwf Code.invalidManagedBeanScope rfl ⟨by decide, _, _, rfl⟩
      (hwf.arranged.declarationAt?_field ht hf hinside hfits.nonempty) ⟨ht, hf⟩ ⟨a, mem_of_scopesOf ha⟩
  case isFalse => cases hd

theorem covered_of_removable (hwf : unit.WellFormed) (code : String) (hd : d.code = code)
    (hfix : AnsweredBy code .removeAnnotations) (hfound : unit.declarationAt? d.span = some found)
    (hof : found.Of unit) {a : AnnotationUse}
    (ha : a ∈ found.modifiers.annotations) (hname : a.simpleName ∈ d.names) : Covered unit d :=
  covered_of_mends hwf code hd hfix hfound hof ⟨a, Family.mem_removable ha, hname⟩

theorem scopeDeclaration_covered (hwf : unit.WellFormed) :
    RuleCovered unit Injection.scopeDeclaration := by
  refine ruleCovered_of_findings fun d hd => ?_
  obtain ⟨t, ht, hd⟩ := List.mem_flatMap.1 hd
  rcases List.mem_append.1 hd with hd | hd
  · split at hd
    case isTrue hmany =>
      obtain rfl := List.mem_singleton.1 hd
      obtain ⟨a, ha⟩ := List.exists_mem_of_length_pos (Nat.lt_of_succ_lt hmany)
      refine covered_of_removable hwf Code.invalidScopeDecl rfl ⟨by decide, _, _, rfl⟩
        (hwf.declarationAt?_typeName ht) ht (mem_of_scopesOf ha).1 ?_
      rw [Diagnostic.names_withNames]
      exact Check.mem_distinctNames ha
    case isFalse => cases hd
  · obtain ⟨member, hmember, hd⟩ := List.mem_flatMap.1 hd
    simp only [Injection.producerScopes] at hd
    split at hd
    case isTrue hmany =>
      obtain ⟨span, hspan, rfl⟩ := List.mem_map.1 hd
      have hspan := List.mem_of_mem_take hspan
      simp only [Bool.and_eq_true, decide_eq_true_eq] at hmany
      obtain ⟨a, ha⟩ := List.exists_mem_of_length_pos (Nat.lt_of_succ_lt hmany.2)
      refine covered_of_removable hwf Code.invalidScopeDecl rfl ⟨by decide, _, _, rfl⟩
        (hwf.declarationAt?_memberName ht hmember hspan) (CompilationUnit.of_member ht hmember)
        (a := a) ?_ ?_
      · rw [CompilationUnit.modifiers_located]
        exact (mem_of_scopesOf ha).1
      · rw [Diagnostic.names_withNames]
        exact Check.mem_distinctNames ha
    case isFalse => cases hd

/-- A conflict between annotations of one member. -/
theorem covered_of_exclusion (hwf : unit.WellFormed) (ht : t ∈ unit.types) {member : Member}
    (hmember : member ∈ t.members) {p q : AnnotationUse → Bool} {source code message : String}
    (hfix : AnsweredBy code .removeAnnotations)
    (hd : d ∈ Check.exclusionDiagnostics (Check.conflictingAnnotations member.modifiers p q)
      source code message) : Covered unit d := by
  obtain ⟨rfl, a, ha, hspan, hname⟩ := Check.mem_exclusionDiagnostics hd
  have ha := Check.mem_of_conflicting ha
  refine covered_of_removable hwf _ rfl hfix ?_ (CompilationUnit.of_member ht hmember) (a := a) ?_ hname
  · rw [hspan]
    exact hwf.declarationAt?_memberAnnotation ht hmember ha
  · rw [CompilationUnit.modifiers_located]
    exact ha

theorem producerInjectConflict_covered (hwf : unit.WellFormed) :
    RuleCovered unit Injection.producerInjectConflict := by
  refine ruleCovered_of_findings fun d hd => ?_
  obtain ⟨t, ht, hd⟩ := List.mem_flatMap.1 hd
  obtain ⟨member, hmember, hd⟩ := List.mem_flatMap.1 hd
  exact covered_of_exclusion hwf ht hmember ⟨by decide, _, _, rfl⟩ hd

theorem declarationAt?_methodName (hwf : unit.WellFormed) (ht : t ∈ unit.types) {m : MethodDecl}
    (hm : m ∈ t.methods) : unit.declarationAt? m.nameSpan = some (.method t m) := by
  have hmethod := (hwf.types t ht).methods m hm
  exact hwf.declarationAt?_method ht hm hmethod.name_inside hmethod.name_fits.nonempty

theorem injectionParameters_covered (hwf : unit.WellFormed) :
    RuleCovered unit Injection.injectionParameters := by
  refine ruleCovered_of_findings fun d hd => ?_
  obtain ⟨t, ht, hd⟩ := List.mem_flatMap.1 hd
  obtain ⟨m, hm, hd⟩ := List.mem_flatMap.1 hd
  simp only [Injection.methodParameters] at hd
  split at hd
  case isTrue => cases hd
  case isFalse hsome =>
    obtain ⟨a, ha⟩ := List.exists_mem_of_ne_nil _ (by simpa using hsome)
    have hmem : a ∈ Family.removable (.method t m) :=
      List.mem_append_right _ (List.mem_filter.1 ha).1
    have hname := Check.mem_distinctNames ha
    have hfound := declarationAt?_methodName hwf ht hm
    rcases List.mem_append.1 hd with hd | hd
    · split at hd
      case isTrue =>
        obtain rfl := List.mem_singleton.1 hd
        refine covered_of_mends hwf Code.invalidInjectParam rfl ⟨by decide, _, _, rfl⟩ hfound ⟨ht, hm⟩
          ⟨a, hmem, ?_⟩
        rwa [Diagnostic.names_withNames]
      case isFalse => cases hd
    · split at hd
      case isTrue =>
        obtain rfl := List.mem_singleton.1 hd
        refine covered_of_mends hwf Code.invalidProducerParam rfl ⟨by decide, _, _, rfl⟩ hfound
          ⟨ht, hm⟩ ⟨a, hmem, ?_⟩
        rwa [Diagnostic.names_withNames]
      case isFalse => cases hd

theorem covered_of_named (hwf : unit.WellFormed) (code : String) (hd : d.code = code)
    (hfix : AnsweredBy code .removeAnnotations) (ht : t ∈ unit.types) {m : MethodDecl}
    (hm : m ∈ t.methods) (hspan : d.span = m.nameSpan) {fqn : String}
    (hfqn : Java.isDottedName fqn) (hhas : unit.hasAnnotationOf m.modifiers fqn)
    (hname : TypeText.lastName fqn ∈ d.names) : Covered unit d := by
  obtain ⟨a, ha, hdenotes⟩ := CompilationUnit.exists_of_hasAnnotationOf hhas
  have hawf := (((hwf.types t ht).methods m hm).modifiers.annotations a ha).1
  have hfound := declarationAt?_methodName hwf ht hm
  rw [← hspan] at hfound
  refine covered_of_removable hwf code hd hfix hfound ⟨ht, hm⟩ ha ?_
  rwa [CompilationUnit.simpleName_eq hawf hfqn hdenotes]

/-- No constructor does without parameters: one can be added, or the only constructor injected. -/
theorem bean_constructor_offers (hwf : unit.WellFormed)
    (hfound : unit.declarationAt? d.span = some found) (hof : found.Of unit)
    (hclass : found.owner.isClass)
    (hparams : ∀ c ∈ found.owner.constructors, c.params.isEmpty = false)
    (hinjected : ∀ c ∈ found.owner.constructors,
      unit.hasAnnotationOf c.modifiers Injection.inject = false) :
    Offers unit.text (Family.propose d unit
      (.alternatives [.annotate Injection.inject .marker .singleConstructor,
        .addNoArgConstructor "protected", .addNoArgConstructor "public"])) := by
  have hadd : ∀ visibility,
      Offers unit.text (Family.propose d unit (.addNoArgConstructor visibility)) := by
    refine fun visibility => Family.propose_offers hwf hfound hof ⟨hclass, fun c hc hempty => ?_⟩
    rw [hparams c hc] at hempty
    cases hempty
  refine Family.propose_alternatives_offers ?_ ⟨.addNoArgConstructor "public", by simp, hadd _⟩
  intro family hfamily
  simp only [List.mem_cons, List.not_mem_nil, or_false] at hfamily
  rcases hfamily with rfl | rfl | rfl
  · exact Family.propose_annotate_constructor hwf hfound hof hinjected
  · exact .inl (hadd _)
  · exact .inl (hadd _)

theorem managedBeanConstructor_covered (hwf : unit.WellFormed) :
    RuleCovered unit Injection.managedBeanConstructor := by
  refine ruleCovered_of_findings fun d hd => ?_
  obtain ⟨t, ht, hd⟩ := List.mem_flatMap.1 hd
  obtain ⟨ht, hclass⟩ := List.mem_filter.1 ht
  rcases List.mem_append.1 hd with hd | hd
  · split at hd
    case isFalse => cases hd
    case isTrue hmissing =>
      obtain rfl := List.mem_singleton.1 hd
      simp only [Bool.and_eq_true, Bool.not_eq_true', Check.hasNoArgConstructor, Bool.or_eq_false_iff,
        Bool.and_true] at hmissing
      obtain ⟨⟨-, hinjected⟩, -, hparams⟩ := hmissing
      refine covered_of_offers Code.invalidManagedBeanConstructor rfl ⟨by decide, _, _, rfl⟩
        (bean_constructor_offers hwf (hwf.declarationAt?_typeName ht) ht hclass ?_ ?_)
      · exact fun c hc => Bool.eq_false_iff.2 (List.any_eq_false.1 hparams c hc)
      · intro c hc
        have hno := List.filter_eq_nil_iff.1 (List.isEmpty_iff.1 hinjected) c hc
        exact Bool.eq_false_iff.2 hno
  · obtain ⟨c, hc, rfl⟩ := List.mem_map.1 hd
    rw [Check.exceeding] at hc
    split at hc
    case isFalse => cases hc
    case isTrue =>
      obtain ⟨hc, hhas⟩ := List.mem_filter.1 hc
      refine covered_of_named hwf Code.invalidMultipleInjectConstructors rfl ⟨by decide, _, _, rfl⟩ ht
        (List.mem_filter.1 hc).1 rfl (by decide +kernel) hhas ?_
      rw [Diagnostic.names_withNames]
      decide

/-! ### RESTful web services -/

theorem resourceMethodVisibility_covered (hwf : unit.WellFormed) :
    RuleCovered unit RestResources.resourceMethodVisibility := by
  refine ruleCovered_of_findings fun d hd => ?_
  obtain ⟨t, ht, hd⟩ := List.mem_flatMap.1 hd
  obtain ⟨m, hm, rfl⟩ := List.mem_map.1 hd
  obtain ⟨hm, hcond⟩ := List.mem_filter.1 hm
  simp only [Bool.and_eq_true, Bool.not_eq_true', TypeDecl.memberIsPublic, Bool.or_eq_false_iff] at hcond
  exact covered_of_mends hwf Code.nonPublicResourceMethod rfl ⟨by decide, _, _, rfl⟩
    (declarationAt?_methodName hwf ht hm) ⟨ht, hm⟩ ⟨hcond.2.2, .inl ⟨t, m, rfl⟩⟩

theorem resourceMethodEntityParams_covered :
    RuleCovered unit RestResources.resourceMethodEntityParams := by
  refine ruleCovered_of_findings fun d hd => ?_
  obtain ⟨t, -, hd⟩ := List.mem_flatMap.1 hd
  obtain ⟨m, -, rfl⟩ := List.mem_map.1 hd
  exact covered_of_none rfl

theorem rootResourceConstructors_covered (hwf : unit.WellFormed) :
    RuleCovered unit RestResources.rootResourceConstructors := by
  refine ruleCovered_of_findings fun d hd => ?_
  obtain ⟨t, ht, rfl⟩ := List.mem_map.1 hd
  obtain ⟨ht, hcond⟩ := List.mem_filter.1 ht
  obtain ⟨ht, hclass⟩ := List.mem_filter.1 ht
  simp only [Bool.and_eq_true, List.all_eq_true, Bool.not_eq_true'] at hcond
  exact covered_of_mends hwf Code.noPublicConstructors rfl ⟨by decide, _, _, rfl⟩
    (hwf.declarationAt?_typeName ht) ht ⟨hclass, fun c hc _ => hcond.2 c hc⟩

/-! ### Bean validation -/

theorem constraintTargetType_covered (hwf : unit.WellFormed) :
    RuleCovered unit Constraints.constraintTargetType := by
  refine ruleCovered_of_findings fun d hd => ?_
  obtain ⟨t, ht, hd⟩ := List.mem_flatMap.1 hd
  obtain ⟨member, hmember, hd⟩ := List.mem_flatMap.1 hd
  split at hd
  case _ element helement =>
    obtain ⟨a, ha, hfinding⟩ := List.mem_filterMap.1 hd
    simp only [Constraints.targetFinding?, Option.bind_eq_bind, Option.bind_eq_some_iff] at hfinding
    obtain ⟨constraint, -, ⟨allowed, described⟩, -, hfinding⟩ := hfinding
    simp only at hfinding
    split at hfinding
    · cases hfinding
    · obtain rfl := Option.some.inj hfinding
      refine covered_of_removable hwf Code.fixTypeOfElement rfl ⟨by decide, _, _, rfl⟩
        (hwf.declarationAt?_memberAnnotation ht hmember ha) (CompilationUnit.of_member ht hmember)
        (a := a) ?_ ?_
      · rwa [CompilationUnit.modifiers_located]
      · rw [Diagnostic.names_withNames]
        exact List.mem_singleton_self _
  case _ => cases hd

/-- A static member with constraints can lose either. -/
theorem static_constraint_offers (hwf : unit.WellFormed)
    (hfound : unit.declarationAt? d.span = some found) (hof : found.Of unit)
    (hstatic : found.modifiers.isStatic) {a : AnnotationUse} (ha : a ∈ found.modifiers.annotations)
    (hname : a.simpleName ∈ d.names) :
    Offers unit.text (Family.propose d unit
      (.alternatives [.removeModifier "static", .removeAnnotations])) := by
  have hremove : Offers unit.text (Family.propose d unit .removeAnnotations) :=
    Family.propose_offers hwf hfound hof ⟨a, Family.mem_removable ha, hname⟩
  refine Family.propose_alternatives_offers ?_ ⟨.removeAnnotations, by simp, hremove⟩
  intro family hfamily
  simp only [List.mem_cons, List.not_mem_nil, or_false] at hfamily
  rcases hfamily with rfl | rfl
  · exact .inl (Family.propose_offers hwf hfound hof hstatic)
  · exact .inl hremove

theorem constraintStatic_covered (hwf : unit.WellFormed) :
    RuleCovered unit Constraints.constraintStatic := by
  refine ruleCovered_of_findings fun d hd => ?_
  obtain ⟨t, ht, hd⟩ := List.mem_flatMap.1 hd
  obtain ⟨member, hmember, hd⟩ := List.mem_flatMap.1 hd
  simp only at hd
  split at hd
  case isFalse => cases hd
  case isTrue hcond =>
    simp only [Bool.and_eq_true, Bool.not_eq_true', List.isEmpty_eq_false_iff] at hcond
    obtain ⟨hstatic, hsome⟩ := hcond
    obtain ⟨a, ha⟩ := List.exists_mem_of_ne_nil _ hsome
    obtain ⟨span, hspan, rfl⟩ := List.mem_map.1 hd
    have hmodifiers := CompilationUnit.modifiers_located t member
    refine covered_of_offers Code.makeNotStatic rfl ⟨by decide, _, _, rfl⟩
      (static_constraint_offers hwf (hwf.declarationAt?_memberName ht hmember hspan)
        (CompilationUnit.of_member ht hmember) ?_ (a := a) ?_ ?_)
    · rwa [hmodifiers]
    · rw [hmodifiers]
      exact (List.mem_filter.1 ha).1
    · rw [Diagnostic.names_withNames]
      exact Check.mem_distinctNames ha

/-! ### JSON binding and JSON processing -/

theorem creatorUniqueness_covered (hwf : unit.WellFormed) :
    RuleCovered unit JsonDocuments.creatorUniqueness := by
  refine ruleCovered_of_findings fun d hd => ?_
  obtain ⟨t, ht, hd⟩ := List.mem_flatMap.1 hd
  obtain ⟨m, hm, rfl⟩ := List.mem_map.1 hd
  rw [Check.exceeding] at hm
  split at hm
  case isFalse => cases hm
  case isTrue =>
    obtain ⟨hm, hcond⟩ := List.mem_filter.1 hm
    simp only [Bool.and_eq_true] at hcond
    refine covered_of_named hwf Code.multipleJsonbCreatorAnnotations rfl ⟨by decide, _, _, rfl⟩ ht hm
      rfl (by decide +kernel) hcond.2 ?_
    rw [Diagnostic.names_withNames]
    decide

theorem transientExclusion_covered (hwf : unit.WellFormed) :
    RuleCovered unit JsonDocuments.transientExclusion := by
  refine ruleCovered_of_findings fun d hd => ?_
  obtain ⟨t, ht, hd⟩ := List.mem_flatMap.1 hd
  obtain ⟨member, hmember, hd⟩ := List.mem_flatMap.1 hd
  exact covered_of_exclusion hwf ht hmember ⟨by decide, _, _, rfl⟩ hd

theorem pointerTarget_covered : RuleCovered unit JsonDocuments.pointerTarget := by
  refine ruleCovered_of_findings fun d hd => ?_
  obtain ⟨call, -, hd⟩ := List.mem_filterMap.1 hd
  have hcode : d.code = Code.invalidJsonCreatePointerTarget := by
    rw [JsonDocuments.pointerFinding?] at hd
    split at hd
    · split at hd
      · split at hd
        · obtain rfl := Option.some.inj hd
          rfl
        · cases hd
      · cases hd
    · cases hd
  exact covered_of_none (by rw [hcode]; rfl)

/-! ### Persistence -/

theorem mapKeyConflict_covered (hwf : unit.WellFormed) : RuleCovered unit Entities.mapKeyConflict := by
  refine ruleCovered_of_findings fun d hd => ?_
  obtain ⟨t, ht, hd⟩ := List.mem_flatMap.1 hd
  obtain ⟨member, hmember, hd⟩ := List.mem_flatMap.1 hd
  exact covered_of_exclusion hwf ht hmember ⟨by decide, _, _, rfl⟩ hd

theorem joinColumnAttributes_covered (hwf : unit.WellFormed) :
    RuleCovered unit Entities.joinColumnAttributes := by
  refine ruleCovered_of_findings fun d hd => ?_
  obtain ⟨t, ht, hd⟩ := List.mem_flatMap.1 hd
  obtain ⟨member, hmember, hd⟩ := List.mem_flatMap.1 hd
  obtain ⟨column, hcolumn, hd⟩ := List.mem_filterMap.1 hd
  have ha : column ∈ member.modifiers.annotations := by
    rw [Check.exceeding] at hcolumn
    split at hcolumn
    · exact (List.mem_filter.1 hcolumn).1
    · cases hcolumn
  simp only at hd
  split at hd
  case isTrue => cases hd
  case isFalse hsome =>
    obtain rfl := Option.some.inj hd
    obtain ⟨name, hname⟩ := List.exists_mem_of_ne_nil _ (fun he => hsome (List.isEmpty_iff.2 he))
    obtain ⟨hlisted, harg⟩ := List.mem_filter.1 hname
    refine covered_of_mends hwf Code.missingAttributes rfl ⟨by decide, _, _, rfl⟩
      (hwf.declarationAt?_memberAnnotation ht hmember ha) (CompilationUnit.of_member ht hmember)
      ⟨column, by rwa [CompilationUnit.modifiers_located], rfl, ?_⟩
    have hdefault : ∃ default ∈ attributeDefaults, default.1 = name :=
      (by decide : ∀ n ∈ ["name", "referencedColumnName"], ∃ default ∈ attributeDefaults, default.1 = n)
        name hlisted
    obtain ⟨default, hdefault, rfl⟩ := hdefault
    refine ⟨default, hdefault, ?_, by simpa using harg⟩
    rwa [Diagnostic.names_withNames]

/-- No constructor without parameters is public or protected: one can be added or made so. -/
theorem entity_constructor_offers (hwf : unit.WellFormed)
    (hfound : unit.declarationAt? d.span = some found) (hof : found.Of unit)
    (hclass : found.owner.isClass)
    (hmissing : Check.hasNoArgConstructor found.owner
      (fun m => m.isPublic || m.hasKeyword "protected") = false) :
    Offers unit.text (Family.propose d unit
      (.alternatives [.addNoArgConstructor "protected", .addNoArgConstructor "public"])) := by
  simp only [Check.hasNoArgConstructor, Bool.or_eq_false_iff, List.any_eq_false, Bool.and_eq_true,
    Bool.or_eq_true, not_and, not_or, Bool.not_eq_true] at hmissing
  have hprotected : Offers unit.text (Family.propose d unit (.addNoArgConstructor "protected")) :=
    Family.propose_offers hwf hfound hof ⟨hclass, fun c hc hempty => (hmissing.2 c hc hempty).2⟩
  have hpublic : Offers unit.text (Family.propose d unit (.addNoArgConstructor "public")) :=
    Family.propose_offers hwf hfound hof ⟨hclass, fun c hc hempty => (hmissing.2 c hc hempty).1⟩
  refine Family.propose_alternatives_offers ?_ ⟨_, List.mem_cons_self, hprotected⟩
  intro family hfamily
  simp only [List.mem_cons, List.not_mem_nil, or_false] at hfamily
  rcases hfamily with rfl | rfl
  · exact .inl hprotected
  · exact .inl hpublic

theorem entityStructure_covered (hwf : unit.WellFormed) :
    RuleCovered unit Entities.entityStructure := by
  refine ruleCovered_of_findings fun d hd => ?_
  obtain ⟨t, ht, hd⟩ := List.mem_flatMap.1 hd
  obtain ⟨ht, -⟩ := List.mem_filter.1 ht
  obtain ⟨ht, hclass⟩ := List.mem_filter.1 ht
  simp only [List.append_assoc] at hd
  rcases List.mem_append.1 hd with hd | hd
  · split at hd
    case isTrue => cases hd
    case isFalse hmissing =>
      obtain rfl := List.mem_singleton.1 hd
      exact covered_of_offers Code.missingEmptyConstructor rfl ⟨by decide, _, _, rfl⟩
        (entity_constructor_offers hwf (hwf.declarationAt?_typeName ht) ht hclass
          (Bool.eq_false_iff.2 hmissing))
  rcases List.mem_append.1 hd with hd | hd
  · split at hd
    case isFalse => cases hd
    case isTrue hfinal =>
      obtain rfl := List.mem_singleton.1 hd
      exact covered_of_mends hwf Code.removeFinalMods rfl ⟨by decide, _, _, rfl⟩
        (hwf.declarationAt?_typeName ht) ht hfinal
  rcases List.mem_append.1 hd with hd | hd
  · obtain ⟨m, hm, rfl⟩ := List.mem_map.1 hd
    obtain ⟨hm, hfinal⟩ := List.mem_filter.1 hm
    have hm := (List.mem_filter.1 hm).1
    exact covered_of_mends hwf Code.removeFinalMods rfl ⟨by decide, _, _, rfl⟩
      (declarationAt?_methodName hwf ht hm) ⟨ht, hm⟩ hfinal
  · obtain ⟨declarator, hdecl, rfl⟩ := List.mem_map.1 hd
    obtain ⟨f, hf, hdecl⟩ := List.mem_flatMap.1 hdecl
    obtain ⟨hf, hstate⟩ := List.mem_filter.1 hf
    simp only [Entities.isFinalState, Bool.and_eq_true] at hstate
    obtain ⟨hfits, hinside⟩ := ((hwf.types t ht).fields f hf).names declarator hdecl
    exact covered_of_mends hwf Code.removeFinalMods rfl ⟨by decide, _, _, rfl⟩
      (hwf.arranged.declarationAt?_field ht hf hinside hfits.nonempty) ⟨ht, hf⟩ hstate.1.1

/-! ### Servlets, filters and listeners -/

theorem mem_annotated {types : List TypeDecl} {fqn : String} {a : AnnotationUse}
    (h : (t, a) ∈ Servlets.annotated unit types fqn) : t ∈ types ∧ a ∈ t.modifiers.annotations := by
  obtain ⟨u, hu, hmap⟩ := List.mem_filterMap.1 h
  obtain ⟨b, hb, heq⟩ := Option.map_eq_some_iff.1 hmap
  obtain ⟨rfl, rfl⟩ := Prod.mk.inj heq
  exact ⟨hu, List.mem_of_find?_eq_some hb⟩

/-- An annotation of a type that lacks an argument. -/
theorem covered_of_missing (hwf : unit.WellFormed) (code : String) (hd : d.code = code)
    (hfix : AnsweredBy code (.addAttributes attributeDefaults)) (ht : t ∈ unit.types)
    {a : AnnotationUse} (ha : a ∈ t.modifiers.annotations) (hspan : a.nameSpan = d.span)
    (default : String × String) (hdefault : default ∈ attributeDefaults) (hname : default.1 ∈ d.names)
    (harg : a.hasArg default.1 = false) : Covered unit d := by
  have hfound := hwf.declarationAt?_typeAnnotation ht ha
  rw [hspan] at hfound
  exact covered_of_mends hwf code hd hfix hfound ht ⟨a, ha, hspan, default, hdefault, hname, harg⟩

theorem hasArg_of_missing {a : AnnotationUse} {others : List String}
    (h : Servlets.patterns a others = .missing) : a.hasArg "value" = false := by
  cases hvalue : a.hasArg "value" with
  | false => rfl
  | true =>
    rw [Servlets.patterns, hvalue] at h
    split at h
    · cases h
    case _ heq _ => cases heq
    · cases h

/-- A class without a superclass can get one; to any other the exception applies. -/
theorem servletSuperclass_covered (hwf : unit.WellFormed) :
    RuleCovered unit Servlets.servletSuperclass := by
  refine ruleCovered_of_findings fun d hd => ?_
  obtain ⟨⟨t, a⟩, hta, hd⟩ := List.mem_map.1 hd
  obtain ⟨hmem, -⟩ := List.mem_filter.1 hta
  obtain ⟨ht, -⟩ := mem_annotated hmem
  obtain ⟨ht, hclass⟩ := List.mem_filter.1 ht
  have hcode : d.code = Code.extendHttpServlet := by rw [← hd]; rfl
  have hfound : unit.declarationAt? d.span = some (.type t) := by
    rw [← hd]
    exact hwf.declarationAt?_typeName ht
  have hof : (Located.type t).Of unit := ht
  intro fix hfix
  rw [hcode] at hfix
  obtain rfl : Fix.ofFamily "extend-http-servlet" [Code.extendHttpServlet]
      (.addSupertype Servlets.httpServlet .superclass) = fix := Option.some.inj hfix
  constructor
  · rintro ⟨-, u, hu, hsome⟩
    obtain rfl : t = u := by simpa using hfound.symm.trans hu
    obtain ⟨superclass, hsuper⟩ := Option.isSome_iff_exists.1 hsome
    refine ⟨.alreadyExtends t.name superclass.text, ?_⟩
    have hlocated : Family.locateClass d unit = .ok t := Family.locateClass_eq hfound hclass
    simp only [Fix.ofFamily, Family.propose, Family.proposeAddSupertype, hlocated, hsuper, bind,
      Except.bind]
  · intro hexempt
    have hnone : t.superclass = none := by
      cases hsuper : t.superclass with
      | none => rfl
      | some superclass => exact absurd ⟨hcode, t, hfound, by simp [hsuper]⟩ hexempt
    exact Family.propose_offers hwf hfound hof ⟨hclass, hnone⟩

theorem servletAttributes_covered (hwf : unit.WellFormed) :
    RuleCovered unit Servlets.servletAttributes := by
  refine ruleCovered_of_findings fun d hd => ?_
  obtain ⟨⟨t, a⟩, hta, hd⟩ := List.mem_flatMap.1 hd
  obtain ⟨ht, ha⟩ := mem_annotated hta
  simp only at hd
  split at hd
  · cases hd
  case _ hmissing =>
    obtain rfl := List.mem_singleton.1 hd
    refine covered_of_missing hwf Code.completeHttpServletAttributes rfl ⟨by decide, _, _, rfl⟩ ht ha
      rfl ("value", "\"\"") (by decide) ?_ (hasArg_of_missing hmissing)
    rw [Diagnostic.names_withNames]
    exact List.mem_singleton_self _
  · obtain rfl := List.mem_singleton.1 hd
    exact covered_of_none rfl

theorem filterStructure_covered (hwf : unit.WellFormed) :
    RuleCovered unit Servlets.filterStructure := by
  refine ruleCovered_of_findings fun d hd => ?_
  obtain ⟨⟨t, a⟩, hta, hd⟩ := List.mem_flatMap.1 hd
  obtain ⟨ht, ha⟩ := mem_annotated hta
  obtain ⟨ht, hclass⟩ := List.mem_filter.1 ht
  rcases List.mem_append.1 hd with hd | hd
  · split at hd
    case isFalse => cases hd
    case isTrue hno =>
      obtain rfl := List.mem_singleton.1 hd
      exact covered_of_mends hwf Code.implementFilter rfl ⟨by decide, _, _, rfl⟩
        (hwf.declarationAt?_typeName ht) ht
        ⟨hclass, Hierarchy.not_named_of_implementsAny (eq_of_beq hno)⟩
  · split at hd
    · cases hd
    case _ hmissing =>
      obtain rfl := List.mem_singleton.1 hd
      refine covered_of_missing hwf Code.completeFilterAttributes rfl ⟨by decide, _, _, rfl⟩ ht ha
        rfl ("value", "\"\"") (by decide) ?_ (hasArg_of_missing hmissing)
      rw [Diagnostic.names_withNames]
      exact List.mem_singleton_self _
    · obtain rfl := List.mem_singleton.1 hd
      exact covered_of_none rfl

theorem listenerInterface_covered : RuleCovered unit Servlets.listenerInterface := by
  refine ruleCovered_of_findings fun d hd => ?_
  obtain ⟨⟨t, a⟩, -, rfl⟩ := List.mem_map.1 hd
  exact covered_of_none rfl

/-! ### WebSocket endpoints -/

theorem endpointPaths_covered : RuleCovered unit Endpoints.endpointPaths := by
  refine ruleCovered_of_findings fun d hd => ?_
  obtain ⟨t, -, hd⟩ := List.mem_filterMap.1 hd
  simp only [Endpoints.pathFinding?, Option.bind_eq_bind, Option.bind_eq_some_iff] at hd
  obtain ⟨a, -, arg, -, path, -, flaw, -, hd⟩ := hd
  obtain rfl := Option.some.inj hd
  exact covered_of_none rfl

theorem callbackParameters_covered (hwf : unit.WellFormed) :
    RuleCovered unit Endpoints.callbackParameters := by
  refine ruleCovered_of_findings fun d hd => ?_
  obtain ⟨t, ht, hd⟩ := List.mem_flatMap.1 hd
  have ht := (List.mem_filter.1 ht).1
  obtain ⟨m, hm, hd⟩ := List.mem_flatMap.1 hd
  have hm := (List.mem_filter.1 hm).1
  split at hd
  · obtain ⟨p, hp, hd⟩ := List.mem_filterMap.1 hd
    rw [Endpoints.parameterFinding?] at hd
    split at hd
    · cases hd
    · split at hd
      · obtain rfl := Option.some.inj hd
        exact covered_of_none rfl
      · split at hd
        case isTrue => cases hd
        case isFalse hno =>
          obtain rfl := Option.some.inj hd
          have hparam := (((hwf.types t ht).methods m hm).params p hp).1
          exact covered_of_mends hwf Code.addPathParams rfl ⟨by decide, _, _, rfl⟩
            (hwf.arranged.declarationAt?_parameter ht hm hp hparam.name_inside hparam.name_fits.nonempty)
            ⟨ht, hm, hp⟩ (Bool.eq_false_iff.2 hno)
  · cases hd

/-! ### Common annotations -/

theorem mem_onlyIf {α : Type} {condition : Bool} {item x : α}
    (h : x ∈ Lifecycle.onlyIf condition item) : condition ∧ x = item := by
  cases condition with
  | true => exact ⟨rfl, List.mem_singleton.1 h⟩
  | false => cases h

theorem callbacks_covered (hwf : unit.WellFormed) : RuleCovered unit Lifecycle.callbacks := by
  refine ruleCovered_of_findings fun d hd => ?_
  obtain ⟨t, ht, hd⟩ := List.mem_flatMap.1 hd
  obtain ⟨m, hm, hd⟩ := List.mem_flatMap.1 hd
  obtain ⟨hm, hordinary⟩ := List.mem_filter.1 hm
  have hfound := declarationAt?_methodName hwf ht hm
  have hof : (Located.method t m).Of unit := ⟨ht, hm⟩
  have hparams : ∀ code, AnsweredBy code .removeParameters → d.code = code → d.span = m.nameSpan →
      (!m.params.isEmpty) = true → Covered unit d := by
    intro code hfix hcode hspan hne
    refine covered_of_mends hwf code hcode hfix (hspan ▸ hfound) hof ⟨t, m, rfl, ?_⟩
    simpa using hne
  rcases List.mem_append.1 hd with hd | hd
  · split at hd
    case isFalse => cases hd
    case isTrue =>
      simp only [Lifecycle.postConstructFindings, List.mem_append] at hd
      rcases hd with (hd | hd) | hd
      · obtain ⟨hne, rfl⟩ := mem_onlyIf hd
        exact hparams Code.postConstructParams ⟨by decide, _, _, rfl⟩ rfl rfl hne
      · obtain ⟨hvoid, rfl⟩ := mem_onlyIf hd
        have hreturns := ((hwf.types t ht).methods m hm).returns (by simpa using hordinary)
        obtain ⟨r, hr⟩ := Option.isSome_iff_exists.1 hreturns
        refine covered_of_mends hwf Code.postConstructReturnType rfl ⟨by decide, _, _, rfl⟩ hfound hof
          ⟨t, m, r, rfl, hr, ?_⟩
        simpa [MethodDecl.returnsVoid, hr] using hvoid
      · obtain ⟨-, rfl⟩ := mem_onlyIf hd
        exact covered_of_none rfl
  · split at hd
    case isFalse => cases hd
    case isTrue =>
      simp only [Lifecycle.preDestroyFindings, List.mem_append] at hd
      rcases hd with (hd | hd) | hd
      · obtain ⟨hne, rfl⟩ := mem_onlyIf hd
        exact hparams Code.preDestroyParams ⟨by decide, _, _, rfl⟩ rfl rfl hne
      · obtain ⟨hstatic, rfl⟩ := mem_onlyIf hd
        exact covered_of_mends hwf Code.preDestroyStatic rfl ⟨by decide, _, _, rfl⟩ hfound hof hstatic
      · obtain ⟨-, rfl⟩ := mem_onlyIf hd
        exact covered_of_none rfl

theorem resourceAttributes_covered (hwf : unit.WellFormed) :
    RuleCovered unit Lifecycle.resourceAttributes := by
  refine ruleCovered_of_findings fun d hd => ?_
  obtain ⟨t, ht, hd⟩ := List.mem_flatMap.1 hd
  obtain ⟨a, ha, hd⟩ := List.mem_flatMap.1 hd
  have ha := (List.mem_filter.1 ha).1
  rcases List.mem_append.1 hd with hd | hd
  · obtain ⟨hno, rfl⟩ := mem_onlyIf hd
    refine covered_of_missing hwf Code.missingResourceNameAttribute rfl ⟨by decide, _, _, rfl⟩ ht ha
      rfl ("name", "\"\"") (by decide) ?_ (by simpa using hno)
    rw [Diagnostic.names_withNames]
    exact List.mem_singleton_self _
  · obtain ⟨hno, rfl⟩ := mem_onlyIf hd
    refine covered_of_missing hwf Code.missingResourceTypeAttribute rfl ⟨by decide, _, _, rfl⟩ ht ha
      rfl ("type", "Object.class") (by decide) ?_ (by simpa using hno)
    rw [Diagnostic.names_withNames]
    exact List.mem_singleton_self _

theorem code_of_dateFindings {m : Modifiers} {ds : List Diagnostic}
    (h : Lifecycle.dateFindings unit m = .ok ds) (hd : d ∈ ds) : d.code = Code.invalidDateFormat := by
  rw [Lifecycle.dateFindings] at h
  split at h
  · cases h
    cases hd
  case _ date value _ =>
    cases hvalid : Iso8601.isValid value with
    | error fault => rw [hvalid] at h; cases h
    | ok valid =>
      rw [hvalid] at h
      obtain rfl := Except.ok.inj h
      obtain ⟨-, rfl⟩ := mem_onlyIf hd
      rfl

theorem generatedDate_covered : RuleCovered unit Lifecycle.generatedDate := by
  intro ds hds d hd
  simp only [Lifecycle.generatedDate, Rule.ofOutcome] at hds
  cases hfound : (unit.types.flatMap Lifecycle.modifierLists).mapM (Lifecycle.dateFindings unit) with
  | error fault => rw [hfound] at hds; cases hds
  | ok found =>
    rw [hfound] at hds
    obtain rfl : found.flatten = ds := Except.ok.inj hds
    obtain ⟨found', hmem, hd⟩ := List.mem_flatten.1 hd
    obtain ⟨m, -, hm⟩ := Family.exists_of_mapM_eq_ok hfound hmem
    exact covered_of_none (by rw [code_of_dateFindings hm hd]; rfl)

/-! ### All rules -/

theorem builtinRules_covered (hwf : unit.WellFormed) :
    ∀ rule ∈ RuleRegistry.builtinRules, RuleCovered unit rule := by
  intro rule hrule
  simp only [RuleRegistry.builtinRules, Injection.rules, RestResources.rules, Constraints.rules,
    JsonDocuments.rules, Entities.rules, Servlets.rules, Endpoints.rules, Lifecycle.rules,
    List.cons_append, List.nil_append, List.mem_cons, List.not_mem_nil, or_false] at hrule
  rcases hrule with rfl | rfl | rfl | rfl | rfl | rfl | rfl | rfl | rfl | rfl | rfl | rfl | rfl |
    rfl | rfl | rfl | rfl | rfl | rfl | rfl | rfl | rfl | rfl | rfl | rfl
  · exact managedBeanScope_covered hwf
  · exact scopeDeclaration_covered hwf
  · exact producerInjectConflict_covered hwf
  · exact injectionParameters_covered hwf
  · exact managedBeanConstructor_covered hwf
  · exact resourceMethodVisibility_covered hwf
  · exact resourceMethodEntityParams_covered
  · exact rootResourceConstructors_covered hwf
  · exact constraintTargetType_covered hwf
  · exact constraintStatic_covered hwf
  · exact creatorUniqueness_covered hwf
  · exact transientExclusion_covered hwf
  · exact pointerTarget_covered
  · exact mapKeyConflict_covered hwf
  · exact joinColumnAttributes_covered hwf
  · exact entityStructure_covered hwf
  · exact servletSuperclass_covered hwf
  · exact servletAttributes_covered hwf
  · exact filterStructure_covered hwf
  · exact listenerInterface_covered
  · exact endpointPaths_covered
  · exact callbackParameters_covered hwf
  · exact callbacks_covered hwf
  · exact resourceAttributes_covered hwf
  · exact generatedDate_covered

/-- Whatever a built-in rule reports of a well-formed unit, the built-in fix for its code proposes
something, and all it proposes is handed out, in normal form. Only a servlet that already has a
superclass is declined. -/
theorem builtin_fixes_answer_findings {unit : CompilationUnit} (hwf : unit.WellFormed) {rule : Rule}
    (hrule : rule ∈ RuleRegistry.builtinRules) {ds : List Diagnostic}
    (hds : (rule.collect unit).result = .ok ds) {d : Diagnostic} (hd : d ∈ ds) {fix : Fix}
    (hfix : builtin.entryFor? d.code = some fix) :
    (Exempt unit d → (∃ reason, fix.propose d unit = decline reason) ∧
      proposalsFor builtin d unit = []) ∧
    (¬ Exempt unit d → ∃ proposals, fix.propose d unit = .ok proposals ∧ proposals ≠ [] ∧
      List.Forall₂ (Fitted unit.text) proposals (proposalsFor builtin d unit)) := by
  obtain ⟨hdeclines, hoffers⟩ := builtinRules_covered hwf rule hrule ds hds d hd fix hfix
  refine ⟨fun hexempt => ?_, fun hexempt => ?_⟩
  · obtain ⟨reason, hreason⟩ := hdeclines hexempt
    refine ⟨⟨reason, hreason⟩, ?_⟩
    rw [proposalsFor, hfix]
    simp only [hreason, decline]
  · obtain ⟨proposals, hproposals, hne, hgood⟩ := hoffers hexempt
    refine ⟨proposals, hproposals, hne, ?_⟩
    have hall : proposals.filter (fun p => (normalize? unit.text p).isSome) = proposals :=
      List.filter_eq_self.2 fun p hp => isSome_normalize?_iff.2 (hgood p hp)
    have hhanded := filterMap_normalize? unit.text proposals
    rw [hall] at hhanded
    rw [proposalsFor, hfix]
    simpa only [hproposals] using hhanded

/-- The unit of a final entity class. -/
def finalEntity : CompilationUnit where
  uri := "file:///A.java"
  text := "import jakarta.persistence.Entity;\n\n@Entity\nfinal class A \x7b\n\x7d\n"
  package := none
  imports := [⟨"jakarta.persistence.Entity", false, false, ⟨0, 34⟩⟩]
  types := [⟨.classType, "A", ⟨56, 57⟩, ⟨36, 61⟩, ⟨58, 61⟩,
    ⟨some ⟨36, 49⟩, [⟨"final", ⟨44, 49⟩⟩],
      [⟨"Entity", "Entity", some "jakarta.persistence.Entity", ⟨36, 43⟩, ⟨37, 43⟩, [], none⟩]⟩,
    none, none, [], [], []⟩]
  calls := []

/-- The modifier of a final entity class can be removed. -/
theorem builtin_fixes_answer_findings_final :
    proposalsFor builtin (Entities.finalFinding "A class annotated with @Entity must not be final."
      ⟨56, 57⟩) finalEntity ≠ [] := by
  have hresult : (Entities.entityStructure.collect finalEntity).result =
      .ok [Entities.finalFinding "A class annotated with @Entity must not be final." ⟨56, 57⟩] := rfl
  have hwf : finalEntity.WellFormed := by decide +kernel
  have hrule : Entities.entityStructure ∈ RuleRegistry.builtinRules := by
    simp [RuleRegistry.builtinRules, Entities.rules]
  obtain ⟨proposals, -, hne, hall⟩ :=
    (builtin_fixes_answer_findings hwf hrule hresult List.mem_cons_self rfl).2
      fun hexempt => absurd hexempt.1 (by decide)
  intro hnil
  rw [hnil] at hall
  cases hall
  exact hne rfl

end FixRegistry

end JakartaCheck
