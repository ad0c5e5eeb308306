import JakartaCheck.Java.Reading
import JakartaCheck.Rules.Servlets
import Mathlib.Data.List.Nodup
import Mathlib.Data.List.Perm.Subperm
import Mathlib.Tactic.MkIffOfInductiveProp

/-!
# Superclasses outside the source

`Hierarchy.extendsClass` climbs from class to class. Where the steps lead to classes of other names
until one answers, this is the answer (`extendsClass_eq`). So a class whose superclasses leave the
source at a class that nobody knows (`External`) is trusted to extend anything, provided the search
does not mistake a type of the source for a superclass. It can: it takes the first type with the
simple name of the superclass, unless the package of the source shows that this is another one.
-/

namespace JakartaCheck

namespace CompilationUnit

variable {unit : CompilationUnit}

/-- The listed types with their qualified names, when `before` stand in front. -/
def declarationsFrom (unit : CompilationUnit) (before : List TypeDecl) :
    List TypeDecl → List (String × TypeDecl)
  | [] => []
  | t :: types => (unit.qualifiedIn before t, t) :: unit.declarationsFrom (before ++ [t]) types

/-- The types of the unit with their qualified names. -/
def declarations (unit : CompilationUnit) : List (String × TypeDecl) :=
  unit.declarationsFrom [] unit.types

theorem package_prefix_qualifiedIn {package : String} (h : unit.package = some package)
    (before : List TypeDecl) (t : TypeDecl) :
    package.toList <+: (unit.qualifiedIn before t).toList := by
  simp only [qualifiedIn, dotted, h, Option.toList_some, List.singleton_append]
  cases (before.filter (·.bodySpan.contains t.span)).map (·.name) with
  | nil => simp [List.append_assoc]
  | cons name names => simp [String.intercalate_cons_cons, List.append_assoc]

theorem package_prefix_of_declarations {package q : String} {t : TypeDecl}
    (h : unit.package = some package) (declared : (q, t) ∈ unit.declarations) :
    package.toList <+: q.toList := by
  have listed : ∀ before types, (q, t) ∈ unit.declarationsFrom before types →
      package.toList <+: q.toList := by
    intro before types
    induction types generalizing before with
    | nil => nofun
    | cons u types ih =>
      intro mem
      rcases List.mem_cons.1 mem with eq | mem
      · cases eq
        exact package_prefix_qualifiedIn h before _
      · exact ih _ mem
  exact listed _ _ declared

end CompilationUnit

namespace Hierarchy

variable {unit : CompilationUnit} {fqn q : String} {t u next last : TypeDecl} {s : TypeRef}
  {above above' : List TypeDecl}

/-! ### Climbing -/

/-- From `t` the steps lead through the types `above`, the last of which is `last`. -/
inductive Trail (r : TypeDecl → TypeDecl → Prop) : TypeDecl → List TypeDecl → TypeDecl → Prop
  | here (t : TypeDecl) : Trail r t [] t
  | up {t next last : TypeDecl} {above : List TypeDecl} (h : r t next)
      (rest : Trail r next above last) : Trail r t (next :: above) last

theorem Trail.mono {r r' : TypeDecl → TypeDecl → Prop} (h : Trail r t above last)
    (imp : ∀ t u, r t u → r' t u) : Trail r' t above last := by
  induction h with
  | here t => exact .here t
  | up h _ ih => exact .up (imp _ _ h) ih

theorem Trail.suffix {r : TypeDecl → TypeDecl → Prop} (h : Trail r t above last) (hu : u ∈ above) :
    ∃ rest, rest.length < above.length ∧ Trail r u rest last := by
  induction h with
  | here => cases hu
  | @up t next last above _ rest ih =>
    rcases List.mem_cons.1 hu with rfl | hu
    · exact ⟨above, by simp, rest⟩
    · obtain ⟨rest, shorter, trail⟩ := ih hu
      exact ⟨rest, by simp only [List.length_cons]; omega, trail⟩

/-- The search for `fqn` goes on from `t` to `next`. -/
def GoesOn (unit : CompilationUnit) (fqn : String) (t next : TypeDecl) : Prop :=
  step unit fqn t = .inr next

theorem Trail.unique {answer answer' : Conformance} {last' : TypeDecl}
    (h : Trail (GoesOn unit fqn) t above last) (stop : step unit fqn last = .inl answer)
    (h' : Trail (GoesOn unit fqn) t above' last') (stop' : step unit fqn last' = .inl answer') :
    above = above' := by
  induction h generalizing above' with
  | here t =>
    cases h' with
    | here => rfl
    | up goes _ => cases stop.symm.trans goes
  | up goes _ ih =>
    cases h' with
    | here => cases stop'.symm.trans goes
    | up goes' rest' =>
      obtain rfl := Sum.inr.inj (goes.symm.trans goes')
      rw [ih stop rest']

/-- A search that ends does not come back to where it was. -/
theorem Trail.not_mem {answer : Conformance} (h : Trail (GoesOn unit fqn) t above last)
    (stop : step unit fqn last = .inl answer) : t ∉ above := by
  intro mem
  obtain ⟨rest, shorter, trail⟩ := h.suffix mem
  rw [h.unique stop trail stop] at shorter
  exact Nat.lt_irrefl _ shorter

theorem Trail.nodup {answer : Conformance} (h : Trail (GoesOn unit fqn) t above last)
    (stop : step unit fqn last = .inl answer) : above.Nodup := by
  induction h with
  | here => exact .nil
  | up _ rest ih => exact List.nodup_cons.2 ⟨rest.not_mem stop, ih stop⟩

theorem typeNamed?_of_localType? (h : localType? unit s = some next) :
    unit.typeNamed? s.simpleName = some next := by
  simp only [localType?, Option.bind_eq_bind, Option.bind_eq_some_iff] at h
  obtain ⟨found, hfound, eq⟩ := h
  split at eq
  · split at eq
    · rw [hfound, eq]
    · cases eq
  · rw [hfound, eq]

/-- A search goes on only to the first type of a name. -/
theorem typeNamed?_of_step (h : step unit fqn t = .inr next) :
    unit.typeNamed? next.name = some next ∧ next ∈ unit.types := by
  obtain ⟨s, found⟩ : ∃ s, localType? unit s = some next := by
    unfold step at h
    split at h
    · cases h
    · rename_i s _
      split at h
      · cases h
      · split at h
        · cases h
        · split at h
          · rename_i found
            cases h
            exact ⟨s, found⟩
          · cases h
  have first := typeNamed?_of_localType? found
  have name : next.name = s.simpleName := by simpa using List.find?_some first
  exact ⟨name ▸ first, List.mem_of_find?_eq_some first⟩

theorem Trail.first (h : Trail (GoesOn unit fqn) t above last) :
    ∀ u ∈ above, unit.typeNamed? u.name = some u ∧ u ∈ unit.types := by
  induction h with
  | here => nofun
  | up goes _ ih => exact List.forall_mem_cons.2 ⟨typeNamed?_of_step goes, ih⟩

/-- Along types of different names that were not visited, a search gets to the last of them. -/
theorem climb_trail {visited : List String} (h : Trail (GoesOn unit fqn) t above last)
    (distinct : ((t :: above).map (·.name)).Nodup)
    (new : ∀ u ∈ t :: above, u.name ∉ visited) (fuel : Nat) :
    ∃ visited', climb unit fqn (fuel + above.length) visited t = climb unit fqn fuel visited' last ∧
      last.name ∉ visited' := by
  induction h generalizing visited with
  | here t => exact ⟨visited, rfl, new t List.mem_cons_self⟩
  | @up t next last above goes _ ih =>
    obtain ⟨fresh, distinct⟩ := List.nodup_cons.1 distinct
    have unseen : ∀ u ∈ next :: above, u.name ∉ t.name :: visited := by
      intro u hu seen
      rcases List.mem_cons.1 seen with same | seen
      · exact fresh (List.mem_map.2 ⟨u, hu, same⟩)
      · exact new u (List.mem_cons_of_mem _ hu) seen
    obtain ⟨visited', eq, last⟩ := ih distinct unseen
    refine ⟨visited', ?_, last⟩
    have notVisited : visited.contains t.name = false := by
      simpa using new t List.mem_cons_self
    rw [List.length_cons, ← Nat.add_assoc, climb, notVisited, show step unit fqn t = _ from goes]
    exact eq

/-- The answer of the step that ends a search is the answer of the search, if no other type on the
way has the name of the class where it starts. -/
theorem extendsClass_eq {answer : Conformance} (h : Trail (GoesOn unit fqn) t above last)
    (stop : step unit fqn last = .inl answer) (own : ∀ u ∈ above, u.name = t.name → u = t) :
    extendsClass unit t fqn = answer := by
  have first := h.first
  have once := h.nodup stop
  have distinct : ((t :: above).map (·.name)).Nodup := by
    refine List.nodup_cons.2 ⟨fun mem => ?_, once.map_on fun u hu v hv same => ?_⟩
    · obtain ⟨u, hu, same⟩ := List.mem_map.1 mem
      exact h.not_mem stop (own u hu same ▸ hu)
    · exact Option.some.inj ((first u hu).1.symm.trans (same ▸ (first v hv).1))
  have few : above.length ≤ unit.types.length :=
    (List.subperm_of_subset once fun u hu => (first u hu).2).length_le
  have unvisited : ∀ u ∈ t :: above, u.name ∉ ([] : List String) := fun _ _ => List.not_mem_nil
  obtain ⟨visited, eq, new⟩ :=
    climb_trail h distinct unvisited (unit.types.length + 1 - above.length + 1)
  have enough : unit.types.length + 1 - above.length + 1 + above.length = bound unit := by
    unfold bound
    omega
  rw [enough] at eq
  have notVisited : visited.contains last.name = false := by simpa using new
  rw [extendsClass, eq, climb, notVisited, stop]
  rfl

/-! ### Classes that nobody knows -/

/-- The reference `s` is bound to a class `q` that is not the one looked for, not a type of the
source, not a listed class of Jakarta and not one of the platform. -/
@[mk_iff]
structure External (unit : CompilationUnit) (fqn : String) (s : TypeRef) (q : String) : Prop where
  bound : s.qualifiedName = some q
  other : q ≠ fqn
  undeclared : q ∉ unit.declarations.map (·.1)
  unlisted : knownAncestors? q = none
  foreign : ¬ "java.".toList <+: q.toList ∧ ¬ "javax.".toList <+: q.toList

instance (unit : CompilationUnit) (fqn : String) (s : TypeRef) (q : String) :
    Decidable (External unit fqn s q) :=
  decidable_of_iff _ (external_iff unit fqn s q).symm

/-- The superclass of `t` is bound to `next`, which the source declares and which is neither the
class looked for nor a listed one. -/
structure Passes (unit : CompilationUnit) (fqn : String) (t next : TypeDecl) : Prop where
  declared : ∃ s q, t.superclass = some s ∧ s.qualifiedName = some q ∧
    (q, next) ∈ unit.declarations ∧ q ≠ fqn ∧ knownAncestors? q = none
  /-- The first type with the simple name of the superclass is the superclass. -/
  named : (t.superclass.bind fun s => unit.typeNamed? s.simpleName) = some next

/-- No type of the source is taken for the class `q` that `s` is bound to. -/
def Apart (unit : CompilationUnit) (s : TypeRef) (q : String) : Prop :=
  ∀ found, unit.typeNamed? s.simpleName = some found →
    ∃ package, unit.package = some package ∧ ¬ package.toList <+: q.toList

theorem step_of_passes (h : Passes unit fqn t next) : step unit fqn t = .inr next := by
  obtain ⟨s, q, superclass, bound, declared, other, unlisted⟩ := h.declared
  have named := h.named
  rw [superclass, Option.bind_some] at named
  have different : unit.typeIs s fqn = false := by
    simpa [CompilationUnit.typeIs, CompilationUnit.denotes, bound] using other
  have found : localType? unit s = some next := by
    unfold localType?
    rw [named, bound]
    cases package : unit.package with
    | none => rfl
    | some package =>
      have starts := CompilationUnit.package_prefix_of_declarations (by assumption) declared
      simp [Text.startsWith, List.isPrefixOf_iff_prefix.2 starts]
  simp only [step, superclass, different, bound, Option.bind_some, unlisted, found,
    Bool.false_eq_true, if_false]

theorem step_of_external (superclass : last.superclass = some s) (h : External unit fqn s q)
    (apart : Apart unit s q) : step unit fqn last = .inl .unknown := by
  have different : unit.typeIs s fqn = false := by
    simpa [CompilationUnit.typeIs, CompilationUnit.denotes, h.bound] using h.other
  have notFound : localType? unit s = none := by
    unfold localType?
    cases found : unit.typeNamed? s.simpleName with
    | none => rfl
    | some found =>
      obtain ⟨package, eq, differs⟩ := apart _ ‹_›
      simp [h.bound, eq, Text.startsWith, differs]
  have foreign : isPlatformType s = false := by
    obtain ⟨java, javax⟩ := h.foreign
    simp only [isPlatformType, h.bound, Text.startsWith, Bool.eq_false_iff, ne_eq, Bool.or_eq_true,
      List.isPrefixOf_iff_prefix]
    exact not_or.2 ⟨java, javax⟩
  simp only [step, superclass, different, h.bound, Option.bind_some, h.unlisted, notFound, foreign,
    Bool.false_eq_true, if_false]

/-- A class whose superclasses lead through types of the source to a class that nobody knows is
trusted to extend `fqn`, and is not reported as a servlet without the right superclass. -/
theorem extendsClass_trusts_external (trail : Trail (Passes unit fqn) t above last)
    (superclass : last.superclass = some s) (external : External unit fqn s q)
    (apart : Apart unit s q) (own : ∀ u ∈ above, u.name = t.name → u = t) :
    extendsClass unit t fqn = .unknown ∧
      (fqn = Servlets.httpServlet →
        ∃ ds, (Servlets.servletSuperclass.collect unit).result = .ok ds ∧
          ∀ d ∈ ds, ∃ u ∈ unit.types, u ≠ t ∧ d.span = u.nameSpan) := by
  have unknown : extendsClass unit t fqn = .unknown :=
    extendsClass_eq (trail.mono fun _ _ => step_of_passes)
      (step_of_external superclass external apart) own
  refine ⟨unknown, ?_⟩
  rintro rfl
  refine ⟨_, rfl, fun d hd => ?_⟩
  obtain ⟨⟨u, a⟩, hu, rfl⟩ := List.mem_map.1 hd
  obtain ⟨annotated, no⟩ := List.mem_filter.1 hu
  obtain ⟨v, hv, eq⟩ := List.mem_filterMap.1 annotated
  obtain ⟨b, -, eq⟩ := Option.map_eq_some_iff.1 eq
  cases eq
  refine ⟨u, List.mem_of_mem_filter hv, ?_, rfl⟩
  rintro rfl
  have no : (extendsClass unit u Servlets.httpServlet == .no) = true := no
  rw [unknown] at no
  cases no

/-- A class with a superclass in the source, whose own superclass is in another package. -/
theorem extendsClass_trusts_foreign_base :
    ∃ unit, CompilationUnit.ofText? "file:///A.java"
        "package a;\nclass S extends T {}\nclass T extends b.Base {}" =
        some unit ∧
      ∃ t ∈ unit.types, t.name = "S" ∧ extendsClass unit t Servlets.httpServlet = .unknown := by
  have facts : (CompilationUnit.ofText? "file:///A.java"
      "package a;\nclass S extends T {}\nclass T extends b.Base {}").map
        (fun unit => unit.types.any fun t => unit.types.any fun u =>
          t.superclass.any (fun s => decide (t.name = "S" ∧ u.name = "T" ∧
            s.qualifiedName = some "a.T" ∧ unit.typeNamed? s.simpleName = some u ∧
            ("a.T", u) ∈ unit.declarations)) &&
          u.superclass.any (fun s => decide (unit.package = some "a" ∧
            External unit Servlets.httpServlet s "b.Base"))) =
      some true := by
    decide +kernel
  obtain ⟨unit, lowered, facts⟩ := Option.map_eq_some_iff.1 facts
  simp only [List.any_eq_true, Option.any_eq_true, Bool.and_eq_true, decide_eq_true_eq] at facts
  obtain ⟨t, ht, u, -, ⟨s, superclass, tName, uName, bound, named, declared⟩, base, outer, package,
    external⟩ := facts
  have passes : Passes unit Servlets.httpServlet t u :=
    ⟨⟨s, "a.T", superclass, bound, declared, by decide, by decide⟩,
      by rw [superclass, Option.bind_some, named]⟩
  have own : ∀ v ∈ [u], v.name = t.name → v = t := by
    intro v hv same
    rw [List.mem_singleton.1 hv, tName, uName] at same
    exact absurd same (by decide)
  exact ⟨unit, lowered, t, ht, tName, (extendsClass_trusts_external (.up passes (.here u)) outer
    external (fun _ _ => ⟨"a", package, by decide⟩) own).1⟩

/-- A superclass of another package is taken for the type of the source with its simple name when
the package of the source is the front of the name of the other one. -/
theorem extendsClass_mistakes_package_front :
    ∃ unit, CompilationUnit.ofText? "file:///S.java"
        "package a;\nclass S extends ab.Base {}\nclass Base {}" = some unit ∧
      ∃ t ∈ unit.types, ∃ s q, t.superclass = some s ∧ External unit Servlets.httpServlet s q ∧
        extendsClass unit t Servlets.httpServlet ≠ .unknown := by
  have facts : (CompilationUnit.ofText? "file:///S.java"
      "package a;\nclass S extends ab.Base {}\nclass Base {}").map (fun unit =>
        unit.types.any fun t => t.superclass.any fun s => s.qualifiedName.any fun q =>
          decide (External unit Servlets.httpServlet s q) &&
            decide (extendsClass unit t Servlets.httpServlet ≠ .unknown)) =
      some true := by
    decide +kernel
  obtain ⟨unit, lowered, facts⟩ := Option.map_eq_some_iff.1 facts
  simp only [List.any_eq_true, Option.any_eq_true, Bool.and_eq_true, decide_eq_true_eq] at facts
  obtain ⟨t, ht, s, superclass, q, -, external, known⟩ := facts
  exact ⟨unit, lowered, t, ht, s, q, superclass, external, known⟩

end Hierarchy

end JakartaCheck
