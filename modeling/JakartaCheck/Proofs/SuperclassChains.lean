import JakartaCheck.Proofs.Superclasses
import Mathlib.Data.Fintype.Pigeonhole
import Mathlib.Data.Set.Finite.List
import Mathlib.Logic.Function.Iterate

/-!
# The verdict of a chain of superclasses

`Hierarchy.extendsClass` answers what the first class of the chain of superclasses that can tell
says (`Decides`), and `no` where none can: the chain then runs in a circle. Names that were met
before only cut the search off there, since a chain meets no second type of a name. The bound of the
search is never reached: it ends without one (`Climbs`).
-/

namespace JakartaCheck.Hierarchy

variable {unit : CompilationUnit} {fqn : String} {t u next last : TypeDecl} {s : TypeRef}
  {answer : Conformance} {visited : List String} {above : List TypeDecl}

/-! ### What one class tells -/

/-- The superclass that is written at `t` decides whether `t` extends `fqn`. -/
inductive Decides (unit : CompilationUnit) (fqn : String) (t : TypeDecl) : Conformance → Prop
  | top (h : t.superclass = none) : Decides unit fqn t .no
  | found {s : TypeRef} (h : t.superclass = some s) (same : unit.typeIs s fqn) :
      Decides unit fqn t .yes
  | listed {s : TypeRef} {q : String} {ancestors : List String} (h : t.superclass = some s)
      (other : ¬ unit.typeIs s fqn) (bound : s.qualifiedName = some q)
      (known : knownAncestors? q = some ancestors) :
      Decides unit fqn t (if fqn ∈ ancestors then .yes else .no)
  | outside {s : TypeRef} (h : t.superclass = some s) (other : ¬ unit.typeIs s fqn)
      (unlisted : ∀ q, s.qualifiedName = some q → knownAncestors? q = none)
      (foreign : localType? unit s = none) :
      Decides unit fqn t (if isPlatformType s then .no else .unknown)

/-- The declaration of the superclass, if it is in the unit. -/
def superclassDecl? (unit : CompilationUnit) (t : TypeDecl) : Option TypeDecl :=
  t.superclass.bind (localType? unit)

/-- The type that is reached from `t` by going from a class to its superclass `i` times. -/
def ancestor? (unit : CompilationUnit) (t : TypeDecl) (i : Nat) : Option TypeDecl :=
  (·.bind (superclassDecl? unit))^[i] (some t)

theorem decides_iff : Decides unit fqn t answer ↔ step unit fqn t = .inl answer := by
  constructor
  · intro h
    cases h with
    | top h => simp [step, h]
    | found h same => simp [step, h, same]
    | listed h other bound known => simp [step, h, other, bound, known]
    | @outside s h other unlisted foreign =>
      have unknown : s.qualifiedName.bind knownAncestors? = none :=
        Option.bind_eq_none_iff.2 unlisted
      simp [step, h, other, unknown, foreign]
  · intro h
    unfold step at h
    split at h
    · cases h
      exact .top ‹_›
    · rename_i s superclass
      split at h
      · cases h
        exact .found superclass ‹_›
      · rename_i other
        split at h
        · rename_i ancestors known
          obtain ⟨q, bound, known⟩ := Option.bind_eq_some_iff.1 known
          cases h
          simpa using Decides.listed superclass other bound known
        · rename_i unlisted
          split at h
          · cases h
          · cases h
            exact .outside superclass other (Option.bind_eq_none_iff.1 unlisted) ‹_›

instance : Decidable (Decides unit fqn t answer) := decidable_of_iff _ decides_iff.symm

theorem superclassDecl?_of_goesOn (h : GoesOn unit fqn t next) :
    superclassDecl? unit t = some next := by
  unfold GoesOn step at h
  split at h
  · cases h
  · rename_i s superclass
    split at h
    · cases h
    · split at h
      · cases h
      · split at h
        · rename_i found
          cases h
          rw [superclassDecl?, superclass, Option.bind_some, found]
        · cases h

/-- A class that does not decide leads on to its superclass. -/
theorem exists_goesOn (h : ∀ answer, ¬ Decides unit fqn t answer) : ∃ next, GoesOn unit fqn t next := by
  cases eq : step unit fqn t with
  | inl answer => exact absurd (decides_iff.2 eq) (h answer)
  | inr next => exact ⟨next, eq⟩

/-! ### Along the chain -/

theorem ancestor?_zero : ancestor? unit t 0 = some t := rfl

theorem ancestor?_succ (h : superclassDecl? unit t = some next) (i : Nat) :
    ancestor? unit t (i + 1) = ancestor? unit next i := by
  rw [ancestor?, Function.iterate_succ_apply, Option.bind_some, h, ancestor?]

/-- The search comes to a type of the chain if no class before it decides. -/
theorem exists_trail {i : Nat} (h : ancestor? unit t i = some u)
    (undecided : ∀ j < i, ∀ v, ancestor? unit t j = some v → ∀ answer, ¬ Decides unit fqn v answer) :
    ∃ above, Trail (GoesOn unit fqn) t above u := by
  induction i generalizing t with
  | zero =>
    obtain rfl : t = u := Option.some.inj h
    exact ⟨[], .here t⟩
  | succ i ih =>
    obtain ⟨next, goes⟩ := exists_goesOn (undecided 0 (Nat.succ_pos i) t ancestor?_zero)
    have shift := ancestor?_succ (superclassDecl?_of_goesOn goes)
    obtain ⟨above, trail⟩ := ih (shift i ▸ h) fun j hj v hv =>
      undecided (j + 1) (Nat.succ_lt_succ hj) v (shift j ▸ hv)
    exact ⟨next :: above, .up goes trail⟩

theorem Trail.exists_ancestor? (h : Trail (GoesOn unit fqn) t above last) :
    ∃ i, ancestor? unit t i = some last := by
  induction h with
  | here t => exact ⟨0, ancestor?_zero⟩
  | up goes _ ih =>
    obtain ⟨i, eq⟩ := ih
    exact ⟨i + 1, (ancestor?_succ (superclassDecl?_of_goesOn goes) i).trans eq⟩

/-- No type above one that is the first of its name has its name, unless it is the same. -/
theorem Trail.own (first : unit.typeNamed? t.name = some t)
    (h : Trail (GoesOn unit fqn) t above last) : ∀ u ∈ above, u.name = t.name → u = t := by
  intro u hu same
  have other := (h.first u hu).1
  rw [same, first] at other
  exact (Option.some.inj other).symm

/-- Where no class decides, any search gives up. -/
theorem climb_eq_no (undecided : ∀ above last, Trail (GoesOn unit fqn) t above last →
    ∀ answer, ¬ Decides unit fqn last answer) (fuel : Nat) (visited : List String) :
    climb unit fqn fuel visited t = .no := by
  induction fuel generalizing t visited with
  | zero => rfl
  | succ fuel ih =>
    obtain ⟨next, goes⟩ := exists_goesOn (undecided [] t (.here t))
    rw [climb]
    split
    · rfl
    · rw [show step unit fqn t = .inr next from goes]
      exact ih (fun above last trail => undecided (next :: above) last (.up goes trail)) _

/-- A chain in which no class decides comes back to a class. -/
theorem exists_ancestor?_eq (ht : t ∈ unit.types) (undecided : ∀ i u, ancestor? unit t i = some u →
    ∀ answer, ¬ Decides unit fqn u answer) :
    ∃ i j u, i < j ∧ ancestor? unit t i = some u ∧ ancestor? unit t j = some u := by
  have there : ∀ i, ∃ u ∈ unit.types, ancestor? unit t i = some u := by
    intro i
    induction i with
    | zero => exact ⟨t, ht, ancestor?_zero⟩
    | succ i ih =>
      obtain ⟨u, -, hu⟩ := ih
      obtain ⟨next, goes⟩ := exists_goesOn (undecided i u hu)
      refine ⟨next, (typeNamed?_of_step goes).2, ?_⟩
      rw [ancestor?, Function.iterate_succ_apply', ← ancestor?, hu, Option.bind_some,
        superclassDecl?_of_goesOn goes]
  choose decl listed reached using there
  obtain ⟨i, j, ne, same⟩ := Finite.exists_ne_map_eq_of_infinite
    fun i => (⟨decl i, listed i⟩ : {u // u ∈ unit.types})
  have same : decl i = decl j := congrArg Subtype.val same
  rcases Nat.lt_or_gt_of_ne ne with lt | lt
  · exact ⟨i, j, decl i, lt, reached i, same ▸ reached j⟩
  · exact ⟨j, i, decl j, lt, reached j, same ▸ reached i⟩

/-! ### The end of the search -/

/-- The search from `t`, after the names in `visited`, ends with an answer. Nothing bounds it. -/
inductive Climbs (unit : CompilationUnit) (fqn : String) :
    List String → TypeDecl → Conformance → Prop
  | seen {visited : List String} {t : TypeDecl} (old : t.name ∈ visited) :
      Climbs unit fqn visited t .no
  | stop {visited : List String} {t : TypeDecl} {answer : Conformance} (new : t.name ∉ visited)
      (h : step unit fqn t = .inl answer) : Climbs unit fqn visited t answer
  | up {visited : List String} {t next : TypeDecl} {answer : Conformance} (new : t.name ∉ visited)
      (h : step unit fqn t = .inr next) (rest : Climbs unit fqn (t.name :: visited) next answer) :
      Climbs unit fqn visited t answer

/-- The number of types of the unit whose names were not met yet. -/
def unmet (unit : CompilationUnit) (visited : List String) : Nat :=
  unit.types.countP (!visited.contains ·.name)

theorem unmet_nil (unit : CompilationUnit) : unmet unit [] = unit.types.length := by
  simp [unmet]

theorem unmet_mono {visited' : List String} (h : visited ⊆ visited') :
    unmet unit visited' ≤ unmet unit visited := by
  refine List.countP_mono_left fun u _ new => ?_
  simp only [Bool.not_eq_true', List.contains_eq_mem, decide_eq_false_iff_not] at new ⊢
  exact fun old => new (h old)

/-- A type of the unit that is met for the first time leaves fewer. -/
theorem unmet_cons_lt (ht : t ∈ unit.types) (new : t.name ∉ visited) :
    unmet unit (t.name :: visited) < unmet unit visited := by
  have split := List.perm_cons_erase ht
  have before : unmet unit visited = (unit.types.erase t).countP (!visited.contains ·.name) + 1 := by
    rw [unmet, split.countP_eq, List.countP_cons_of_pos (by simpa using new)]
  have after : unmet unit (t.name :: visited) =
      (unit.types.erase t).countP (!(t.name :: visited).contains ·.name) := by
    rw [unmet, split.countP_eq, List.countP_cons_of_neg (by simp)]
  have fewer : (unit.types.erase t).countP (!(t.name :: visited).contains ·.name) ≤
      (unit.types.erase t).countP (!visited.contains ·.name) :=
    List.countP_mono_left fun u _ => by simp
  omega

theorem climbs_climb (ht : t ∈ unit.types) (fuel : Nat) (enough : unmet unit visited < fuel) :
    Climbs unit fqn visited t (climb unit fqn fuel visited t) := by
  induction fuel generalizing visited t with
  | zero => exact absurd enough (Nat.not_lt_zero _)
  | succ fuel ih =>
    rw [climb]
    by_cases old : t.name ∈ visited
    · simpa [old] using Climbs.seen old
    · have fewer := unmet_cons_lt ht old
      simp only [List.contains_eq_mem, old, decide_false, Bool.false_eq_true, if_false]
      cases eq : step unit fqn t with
      | inl answer => exact .stop old eq
      | inr next => exact .up old eq (ih (typeNamed?_of_step eq).2 (by omega))

theorem Climbs.unique {answer' : Conformance} (h : Climbs unit fqn visited t answer)
    (h' : Climbs unit fqn visited t answer') : answer = answer' := by
  induction h with
  | seen old =>
    cases h' with
    | seen => rfl
    | stop new _ => exact absurd old new
    | up new _ _ => exact absurd old new
  | stop new stop =>
    cases h' with
    | seen old => exact absurd old new
    | stop _ stop' => exact Sum.inl.inj (stop.symm.trans stop')
    | up _ goes _ => cases stop.symm.trans goes
  | up new goes _ ih =>
    cases h' with
    | seen old => exact absurd old new
    | stop _ stop => cases stop.symm.trans goes
    | up _ goes' rest' =>
      obtain rfl := Sum.inr.inj (goes.symm.trans goes')
      exact ih rest'

/-- The search for a superclass ends without a bound, and with one answer: the verdict of the first
class of the chain that decides, or `no` if none does and the chain runs in a circle. -/
theorem extendsClass_first_verdict (first : unit.typeNamed? t.name = some t) (fqn : String) :
    (∀ answer, Climbs unit fqn [] t answer ↔ extendsClass unit t fqn = answer) ∧
    (∀ i u answer, ancestor? unit t i = some u → Decides unit fqn u answer →
      (∀ j < i, ∀ v, ancestor? unit t j = some v → ∀ other, ¬ Decides unit fqn v other) →
      extendsClass unit t fqn = answer) ∧
    ((∀ i u, ancestor? unit t i = some u → ∀ answer, ¬ Decides unit fqn u answer) →
      extendsClass unit t fqn = .no ∧
        ∃ i j u, i < j ∧ ancestor? unit t i = some u ∧ ancestor? unit t j = some u) := by
  have listed : t ∈ unit.types := List.mem_of_find?_eq_some first
  have enough : unmet unit [] < bound unit := by
    rw [unmet_nil, bound]
    omega
  have ends : Climbs unit fqn [] t (extendsClass unit t fqn) := climbs_climb listed _ enough
  refine ⟨fun answer => ⟨ends.unique, fun eq => eq ▸ ends⟩, ?_, fun undecided => ⟨?_, ?_⟩⟩
  · intro i u answer reached verdict undecided
    obtain ⟨above, trail⟩ := exists_trail reached undecided
    exact extendsClass_eq trail (decides_iff.1 verdict) (trail.own first)
  · refine climb_eq_no (fun above last trail => ?_) _ _
    obtain ⟨i, reached⟩ := trail.exists_ancestor?
    exact undecided i last reached
  · exact exists_ancestor?_eq listed undecided

/-- A class is a servlet by the listed ancestors of the superclass of its superclass. -/
theorem extendsClass_first_verdict_listed :
    ∃ unit, CompilationUnit.ofText? "file:///A.java"
        "package a;\nclass S extends T {}\nclass T extends jakarta.servlet.http.HttpServlet {}" =
        some unit ∧
      ∃ t, unit.typeNamed? t.name = some t ∧ t.name = "S" ∧
        extendsClass unit t "jakarta.servlet.GenericServlet" = .yes := by
  have facts : (CompilationUnit.ofText? "file:///A.java"
      "package a;\nclass S extends T {}\nclass T extends jakarta.servlet.http.HttpServlet {}").map
        (fun unit => (unit.typeNamed? "S").any fun t => (unit.typeNamed? "T").any fun u =>
          decide (t.name = "S" ∧ superclassDecl? unit t = some u ∧
            step unit "jakarta.servlet.GenericServlet" t = .inr u ∧
            Decides unit "jakarta.servlet.GenericServlet" u .yes)) =
      some true := by
    decide +kernel
  obtain ⟨unit, lowered, facts⟩ := Option.map_eq_some_iff.1 facts
  simp only [Option.any_eq_true, decide_eq_true_eq] at facts
  obtain ⟨t, first, u, -, name, superclass, goes, verdict⟩ := facts
  have first : unit.typeNamed? t.name = some t := name ▸ first
  have reached : ancestor? unit t 1 = some u := ancestor?_succ superclass 0
  refine ⟨unit, lowered, t, first, name,
    (extendsClass_first_verdict first _).2.1 1 u .yes reached verdict fun j hj v hv other no => ?_⟩
  obtain rfl : j = 0 := by omega
  obtain rfl : t = v := Option.some.inj hv
  cases goes.symm.trans (decides_iff.1 no)

end JakartaCheck.Hierarchy
