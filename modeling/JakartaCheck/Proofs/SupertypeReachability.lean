import JakartaCheck.Proofs.SuperclassChains
import Mathlib.Data.List.Forall2
import Mathlib.Logic.Relation

/-!
# Supertypes that can be reached

`Hierarchy.implementsAny` looks at every type once and says `no` where it comes again. Nothing is
lost by this: what was seen before, or is being looked at, adds its own answer (`Searched.settled`).
So the answer is that of reachability (`implementsAny_eq_reachability`), which does not depend on
the order in which interfaces are written.
-/

namespace JakartaCheck.Hierarchy

variable {unit : CompilationUnit} {fqns : List String} {t t' u next : TypeDecl} {s : TypeRef}
  {answer found : Conformance} {visited : List String} {types : List TypeRef}
  {out : Conformance × List String}

/-! ### Reachability -/

/-- A supertype of `t` is the type `u` of the unit. -/
def Leads (unit : CompilationUnit) (t u : TypeDecl) : Prop :=
  ∃ s ∈ t.supertypes, localType? unit s = some u

/-- Going from types to their supertypes in the unit leads from `t` to `u`. -/
abbrev Reaches (unit : CompilationUnit) : TypeDecl → TypeDecl → Prop :=
  Relation.ReflTransGen (Leads unit)

/-- The reference denotes one of `fqns`. -/
def Hits (unit : CompilationUnit) (fqns : List String) (s : TypeRef) : Prop :=
  ∃ fqn ∈ fqns, unit.typeIs s fqn

/-- The reference leaves the unit for a type that is not one of the platform. -/
def Strays (unit : CompilationUnit) (s : TypeRef) : Prop :=
  localType? unit s = none ∧ ¬ isPlatformType s

/-- A reference with the property `p` is met when the reference `s` is followed. -/
inductive Meets (unit : CompilationUnit) (p : TypeRef → Prop) : TypeRef → Prop
  | here {s : TypeRef} (h : p s) : Meets unit p s
  | through {s s' : TypeRef} {next : TypeDecl} (inside : localType? unit s = some next)
      (mem : s' ∈ next.supertypes) (rest : Meets unit p s') : Meets unit p s

theorem exists_meets_iff {p : TypeRef → Prop} : (∃ s ∈ t.supertypes, Meets unit p s) ↔
    ∃ u, Reaches unit t u ∧ ∃ s ∈ u.supertypes, p s := by
  constructor
  · rintro ⟨s, hs, meets⟩
    induction meets generalizing t with
    | @here s h => exact ⟨t, .refl, s, hs, h⟩
    | through inside mem _ ih =>
      obtain ⟨u, reaches, met⟩ := ih mem
      exact ⟨u, .head ⟨_, hs, inside⟩ reaches, met⟩
  · rintro ⟨u, reaches, s, hs, h⟩
    induction reaches using Relation.ReflTransGen.head_induction_on with
    | refl => exact ⟨s, hs, .here h⟩
    | head leads _ ih =>
      obtain ⟨s', hs', inside⟩ := leads
      obtain ⟨s'', mem, meets⟩ := ih
      exact ⟨s', hs', .through inside mem meets⟩

theorem first_of_localType? (h : localType? unit s = some next) :
    unit.typeNamed? next.name = some next ∧ next ∈ unit.types := by
  have first := typeNamed?_of_localType? h
  have name : next.name = s.simpleName := by simpa using List.find?_some first
  exact ⟨name ▸ first, List.mem_of_find?_eq_some first⟩

/-! ### The search without a bound -/

/-- The search looks at the references one after the other, when the names in `visited` were met
and `found` is the answer so far, and ends with an answer and all names that were met. Nothing
bounds it. -/
inductive Searched (unit : CompilationUnit) (fqns : List String) :
    List String → Conformance → List TypeRef → Conformance × List String → Prop
  | done {visited : List String} {found : Conformance} :
      Searched unit fqns visited found [] (found, visited)
  | hit {visited : List String} {found : Conformance} {s : TypeRef} {types : List TypeRef}
      (h : Hits unit fqns s) : Searched unit fqns visited found (s :: types) (.yes, visited)
  | outside {visited : List String} {found : Conformance} {s : TypeRef} {types : List TypeRef}
      {out : Conformance × List String} (miss : ¬ Hits unit fqns s)
      (foreign : localType? unit s = none)
      (rest : Searched unit fqns visited (if isPlatformType s then found else .unknown) types out) :
      Searched unit fqns visited found (s :: types) out
  | seen {visited : List String} {found : Conformance} {s : TypeRef} {types : List TypeRef}
      {next : TypeDecl} {out : Conformance × List String} (miss : ¬ Hits unit fqns s)
      (inside : localType? unit s = some next) (old : next.name ∈ visited)
      (rest : Searched unit fqns visited found types out) :
      Searched unit fqns visited found (s :: types) out
  | reached {visited visited' : List String} {found : Conformance} {s : TypeRef}
      {types : List TypeRef} {next : TypeDecl} (miss : ¬ Hits unit fqns s)
      (inside : localType? unit s = some next) (new : next.name ∉ visited)
      (inner : Searched unit fqns (next.name :: visited) .no next.supertypes (.yes, visited')) :
      Searched unit fqns visited found (s :: types) (.yes, visited')
  | passed {visited visited' : List String} {found answer : Conformance} {s : TypeRef}
      {types : List TypeRef} {next : TypeDecl} {out : Conformance × List String}
      (miss : ¬ Hits unit fqns s) (inside : localType? unit s = some next)
      (new : next.name ∉ visited)
      (inner : Searched unit fqns (next.name :: visited) .no next.supertypes (answer, visited'))
      (notYet : answer ≠ .yes)
      (rest : Searched unit fqns visited' (if answer = .unknown then .unknown else found) types
        out) :
      Searched unit fqns visited found (s :: types) out

theorem any_typeIs_iff : fqns.any (unit.typeIs s) ↔ Hits unit fqns s := List.any_eq_true

theorem Searched.subset (h : Searched unit fqns visited found types out) : visited ⊆ out.2 := by
  induction h with
  | done => exact List.Subset.refl _
  | hit => exact List.Subset.refl _
  | outside _ _ _ ih => exact ih
  | seen _ _ _ _ ih => exact ih
  | reached _ _ _ _ ih => exact fun _ h => ih (List.mem_cons_of_mem _ h)
  | passed _ _ _ _ _ _ ihInner ihRest => exact fun _ h => ihRest (ihInner (List.mem_cons_of_mem _ h))

/-- If every visit to a new type is a search, then so is looking at references. -/
theorem searched_searchAmong {fuel : Nat}
    (visits : ∀ visited t, t ∈ unit.types → t.name ∉ visited → unmet unit visited < fuel →
      Searched unit fqns (t.name :: visited) .no t.supertypes (search unit fqns fuel visited t))
    (enough : unmet unit visited < fuel) (found : Conformance) (types : List TypeRef) :
    Searched unit fqns visited found types
      (searchAmong unit fqns (search unit fqns fuel) visited found types) := by
  induction types generalizing visited found with
  | nil => exact .done
  | cons s types ih =>
    rw [searchAmong]
    by_cases hit : Hits unit fqns s
    · rw [if_pos (any_typeIs_iff.2 hit)]
      exact .hit hit
    rw [if_neg (mt any_typeIs_iff.1 hit)]
    cases place : localType? unit s with
    | none =>
      refine .outside hit place ?_
      cases isPlatformType s with
      | true => exact ih enough found
      | false => exact ih enough .unknown
    | some next =>
      by_cases old : next.name ∈ visited
      · obtain ⟨fuel, rfl⟩ := Nat.exists_eq_add_of_lt enough
        have again : search unit fqns (unmet unit visited + fuel + 1) visited next = (.no, visited) := by
          simp [search, old]
        simp only [again]
        exact .seen hit place old (ih enough found)
      · have inner := visits visited next (first_of_localType? place).2 old enough
        simp only
        cases result : search unit fqns fuel visited next with
        | mk answer visited' =>
          rw [result] at inner
          have enough' : unmet unit visited' < fuel :=
            Nat.lt_of_le_of_lt (unmet_mono fun _ h => inner.subset (List.mem_cons_of_mem _ h)) enough
          cases answer with
          | yes => exact .reached hit place old inner
          | no => exact .passed hit place old inner (by decide) (ih enough' found)
          | unknown => exact .passed hit place old inner (by decide) (ih enough' .unknown)

theorem searched_search (ht : t ∈ unit.types) (new : t.name ∉ visited) {fuel : Nat}
    (enough : unmet unit visited < fuel) :
    Searched unit fqns (t.name :: visited) .no t.supertypes (search unit fqns fuel visited t) := by
  induction fuel generalizing visited t with
  | zero => exact absurd enough (Nat.not_lt_zero _)
  | succ fuel ih =>
    have fewer := unmet_cons_lt ht new
    have begin : search unit fqns (fuel + 1) visited t =
        searchAmong unit fqns (search unit fqns fuel) (t.name :: visited) .no t.supertypes := by
      simp [search, new]
    rw [begin]
    exact searched_searchAmong (fun _ _ ht new enough => ih ht new enough) (by omega) .no t.supertypes

/-! ### What the answer rests on -/

theorem Searched.exists_hits (h : Searched unit fqns visited found types out) (yes : out.1 = .yes)
    (notYet : found ≠ .yes) : ∃ s ∈ types, Meets unit (Hits unit fqns) s := by
  induction h with
  | done => exact absurd yes notYet
  | @hit _ _ s _ hit => exact ⟨s, List.mem_cons_self, .here hit⟩
  | outside _ _ _ ih =>
    obtain ⟨s, hs, meets⟩ := ih yes (by split <;> [exact notYet; decide])
    exact ⟨s, List.mem_cons_of_mem _ hs, meets⟩
  | seen _ _ _ _ ih =>
    obtain ⟨s, hs, meets⟩ := ih yes notYet
    exact ⟨s, List.mem_cons_of_mem _ hs, meets⟩
  | @reached _ _ _ s _ _ _ inside _ _ ih =>
    obtain ⟨s', hs', meets⟩ := ih rfl (by decide)
    exact ⟨s, List.mem_cons_self, .through inside hs' meets⟩
  | passed _ _ _ _ _ _ _ ih =>
    obtain ⟨s, hs, meets⟩ := ih yes (by split <;> [decide; exact notYet])
    exact ⟨s, List.mem_cons_of_mem _ hs, meets⟩

theorem Searched.exists_strays (h : Searched unit fqns visited found types out)
    (unknown : out.1 = .unknown) (known : found ≠ .unknown) :
    ∃ s ∈ types, Meets unit (Strays unit) s := by
  induction h with
  | done => exact absurd unknown known
  | hit => cases unknown
  | @outside _ _ s _ _ _ foreign _ ih =>
    by_cases platform : isPlatformType s
    · obtain ⟨s', hs', meets⟩ := ih unknown (by rwa [if_pos platform])
      exact ⟨s', List.mem_cons_of_mem _ hs', meets⟩
    · exact ⟨s, List.mem_cons_self, .here ⟨foreign, platform⟩⟩
  | seen _ _ _ _ ih =>
    obtain ⟨s, hs, meets⟩ := ih unknown known
    exact ⟨s, List.mem_cons_of_mem _ hs, meets⟩
  | reached => cases unknown
  | @passed _ _ _ answer s _ _ _ _ inside _ _ _ _ ihInner ihRest =>
    by_cases stray : answer = .unknown
    · obtain ⟨s', hs', meets⟩ := ihInner stray (by decide)
      exact ⟨s, List.mem_cons_self, .through inside hs' meets⟩
    · obtain ⟨s', hs', meets⟩ := ihRest unknown (by rwa [if_neg stray])
      exact ⟨s', List.mem_cons_of_mem _ hs', meets⟩

/-! ### What the answer leaves out -/

/-- With an answer other than `yes`, nothing that the reference leads to is left to be looked at. -/
structure Settled (unit : CompilationUnit) (fqns : List String) (out : Conformance × List String)
    (s : TypeRef) : Prop where
  miss : ¬ Hits unit fqns s
  met : ∀ next, localType? unit s = some next → next.name ∈ out.2
  stray : Strays unit s → out.1 = .unknown

theorem Settled.mono {out' : Conformance × List String} (h : Settled unit fqns out s)
    (more : out.2 ⊆ out'.2) (kept : out.1 = .unknown → out'.1 = .unknown) :
    Settled unit fqns out' s :=
  ⟨h.miss, fun next inside => more (h.met next inside), fun stray => kept (h.stray stray)⟩

/-- All references are settled, and those of each type that was met on the way. -/
structure Explored (unit : CompilationUnit) (fqns visited : List String) (found : Conformance)
    (types : List TypeRef) (out : Conformance × List String) : Prop where
  here : ∀ s ∈ types, Settled unit fqns out s
  met : ∀ u, unit.typeNamed? u.name = some u → u.name ∈ out.2 →
    u.name ∈ visited ∨ ∀ s ∈ u.supertypes, Settled unit fqns out s
  kept : found = .unknown → out.1 = .unknown

theorem Searched.explored (h : Searched unit fqns visited found types out) (no : out.1 ≠ .yes) :
    Explored unit fqns visited found types out := by
  induction h with
  | done => exact ⟨nofun, fun _ _ => .inl, id⟩
  | hit => exact absurd rfl no
  | @outside visited found s types out miss foreign rest ih =>
    have after := ih no
    have settled : Settled unit fqns out s :=
      ⟨miss, fun next inside => (by cases foreign.symm.trans inside),
        fun stray => after.kept (if_neg stray.2)⟩
    exact ⟨List.forall_mem_cons.2 ⟨settled, after.here⟩, after.met,
      fun eq => after.kept (by rw [eq, ite_self])⟩
  | @seen visited found s types next out miss inside old rest ih =>
    have after := ih no
    have settled : Settled unit fqns out s := by
      refine ⟨miss, fun next' inside' => ?_, fun stray => ?_⟩
      · obtain rfl := Option.some.inj (inside.symm.trans inside')
        exact rest.subset old
      · cases stray.1.symm.trans inside
    exact ⟨List.forall_mem_cons.2 ⟨settled, after.here⟩, after.met, after.kept⟩
  | reached => exact absurd rfl no
  | @passed visited visited' found answer s types next out miss inside new inner notYet rest
      ihInner ihRest =>
    have within := ihInner notYet
    have after := ihRest no
    have more : visited' ⊆ out.2 := rest.subset
    have nextMet : next.name ∈ out.2 := more (inner.subset List.mem_cons_self)
    have up : ∀ s, Settled unit fqns (answer, visited') s → Settled unit fqns out s :=
      fun s h => h.mono more fun eq => after.kept (if_pos eq)
    have settled : Settled unit fqns out s := by
      refine ⟨miss, fun next' inside' => ?_, fun stray => ?_⟩
      · obtain rfl := Option.some.inj (inside.symm.trans inside')
        exact nextMet
      · cases stray.1.symm.trans inside
    refine ⟨List.forall_mem_cons.2 ⟨settled, after.here⟩, fun u first met => ?_,
      fun eq => after.kept (by rw [eq, ite_self])⟩
    rcases after.met u first met with met | done
    · rcases within.met u first met with met | done
      · rcases List.mem_cons.1 met with same | met
        -- the type that was entered here is the one of its name, so it is settled by the inner search
        · rw [same, (first_of_localType? inside).1] at first
          obtain rfl := Option.some.inj first
          exact .inr fun s hs => up s (within.here s hs)
        · exact .inl met
      · exact .inr fun s hs => up s (done s hs)
    · exact .inr done

/-- When the search from `t` has not found anything, every type that can be reached is settled. -/
theorem Explored.settled (first : unit.typeNamed? t.name = some t)
    (h : Explored unit fqns [t.name] .no t.supertypes out) (reaches : Reaches unit t u) :
    ∀ s ∈ u.supertypes, Settled unit fqns out s := by
  induction reaches with
  | refl => exact h.here
  | tail _ leads ih =>
    obtain ⟨s, hs, inside⟩ := leads
    have firstNext := (first_of_localType? inside).1
    rcases h.met _ firstNext ((ih s hs).met _ inside) with same | done
    · rw [List.mem_singleton.1 same, first] at firstNext
      obtain rfl := Option.some.inj firstNext
      exact h.here
    · exact done

/-! ### The order of interfaces -/

/-- The declarations differ in the order of interfaces only. -/
inductive Reordered (t : TypeDecl) : TypeDecl → Prop
  | intro {interfaces : List TypeRef} (perm : t.interfaces.Perm interfaces) :
      Reordered t { t with interfaces := interfaces }

theorem Reordered.symm (h : Reordered t u) : Reordered u t := by
  obtain ⟨perm⟩ := h
  exact .intro (t := { t with interfaces := _ }) perm.symm

theorem Reordered.name_eq (h : Reordered t u) : u.name = t.name := by
  cases h
  rfl

theorem Reordered.mem_supertypes (h : Reordered t u) : s ∈ t.supertypes → s ∈ u.supertypes := by
  obtain ⟨perm⟩ := h
  simp only [TypeDecl.supertypes, List.mem_append]
  exact Or.imp_right perm.mem_iff.1

section Reordering

variable {decls : List TypeDecl} (reordered : List.Forall₂ Reordered unit.types decls)

include reordered

theorem typeNamed?_reordered (name : String) : Option.Rel Reordered (unit.typeNamed? name)
    ({ unit with types := decls }.typeNamed? name) := by
  unfold CompilationUnit.typeNamed?
  generalize unit.types = types at reordered
  induction reordered with
  | nil => exact .none
  | @cons t u _ _ h _ ih =>
    simp only [List.find?_cons, h.name_eq]
    cases t.name == name with
    | true => exact .some h
    | false => exact ih

theorem localType?_reordered (s : TypeRef) :
    Option.Rel Reordered (localType? unit s) (localType? { unit with types := decls } s) := by
  have rel := typeNamed?_reordered reordered s.simpleName
  unfold localType?
  generalize unit.typeNamed? s.simpleName = a, { unit with types := decls }.typeNamed? s.simpleName = b
    at rel ⊢
  cases rel with
  | none => exact .none
  | some h =>
    simp only [Option.bind_eq_bind, Option.bind_some]
    split
    · split
      · exact .some h
      · exact .none
    · exact .some h

theorem strays_reordered (h : Strays unit s) : Strays { unit with types := decls } s := by
  refine ⟨?_, h.2⟩
  have rel := localType?_reordered reordered s
  rw [h.1] at rel
  generalize localType? { unit with types := decls } s = place at rel ⊢
  cases rel
  rfl

theorem reaches_reordered (h : Reordered t t') (reaches : Reaches unit t u) :
    ∃ u', Reordered u u' ∧ Reaches { unit with types := decls } t' u' := by
  induction reaches with
  | refl => exact ⟨t', h, .refl⟩
  | tail _ leads ih =>
    obtain ⟨s, hs, inside⟩ := leads
    obtain ⟨u', same, reaches⟩ := ih
    have rel := localType?_reordered reordered s
    rw [inside] at rel
    generalize place : localType? { unit with types := decls } s = next at rel
    cases rel with
    | some sameNext => exact ⟨_, sameNext, reaches.tail ⟨s, same.mem_supertypes hs, place⟩⟩

/-- What is met among the supertypes that can be reached is met in any order of interfaces. -/
theorem exists_reaches_reordered {p p' : TypeRef → Prop} (imp : ∀ s, p s → p' s)
    (h : Reordered t t') (met : ∃ u, Reaches unit t u ∧ ∃ s ∈ u.supertypes, p s) :
    ∃ u, Reaches { unit with types := decls } t' u ∧ ∃ s ∈ u.supertypes, p' s := by
  obtain ⟨u, reaches, s, hs, hp⟩ := met
  obtain ⟨u', same, reaches'⟩ := reaches_reordered reordered h reaches
  exact ⟨u', reaches', s, same.mem_supertypes hs, imp s hp⟩

end Reordering

/-! ### The answer -/

/-- Every way through the search answers `yes` if one of `fqns` can be reached. -/
theorem Searched.yes_iff (first : unit.typeNamed? t.name = some t)
    (h : Searched unit fqns [t.name] .no t.supertypes out) :
    out.1 = .yes ↔ ∃ u, Reaches unit t u ∧ ∃ s ∈ u.supertypes, Hits unit fqns s := by
  constructor
  · intro yes
    exact exists_meets_iff.1 (h.exists_hits yes (by decide))
  · rintro ⟨u, reaches, s, hs, hits⟩
    by_contra no
    exact ((h.explored no).settled first reaches s hs).miss hits

theorem Searched.unknown_iff (first : unit.typeNamed? t.name = some t)
    (h : Searched unit fqns [t.name] .no t.supertypes out) : out.1 = .unknown ↔
      (¬ ∃ u, Reaches unit t u ∧ ∃ s ∈ u.supertypes, Hits unit fqns s) ∧
        ∃ u, Reaches unit t u ∧ ∃ s ∈ u.supertypes, Strays unit s := by
  rw [← h.yes_iff first]
  constructor
  · intro unknown
    refine ⟨by rw [unknown]; decide, ?_⟩
    exact exists_meets_iff.1 (h.exists_strays unknown (by decide))
  · rintro ⟨no, u, reaches, s, hs, strays⟩
    exact ((h.explored no).settled first reaches s hs).stray strays

theorem searched_implementsAny (first : unit.typeNamed? t.name = some t) (fqns : List String) :
    ∃ visited, Searched unit fqns [t.name] .no t.supertypes (implementsAny unit t fqns, visited) := by
  have enough : unmet unit [] < bound unit := by
    rw [unmet_nil, bound]
    omega
  exact ⟨_, searched_search (List.mem_of_find?_eq_some first) List.not_mem_nil enough⟩

theorem eq_of_yes_iff_of_unknown_iff {a b : Conformance} (yes : a = .yes ↔ b = .yes)
    (unknown : a = .unknown ↔ b = .unknown) : a = b := by
  cases a <;> cases b <;> simp_all

theorem implementsAny_reordered {decls : List TypeDecl}
    (reordered : List.Forall₂ Reordered unit.types decls)
    (first : unit.typeNamed? t.name = some t)
    (first' : { unit with types := decls }.typeNamed? t.name = some t') :
    implementsAny { unit with types := decls } t' fqns = implementsAny unit t fqns := by
  have same : Reordered t t' := by
    have rel := typeNamed?_reordered reordered t.name
    rw [first, first'] at rel
    cases rel with
    | some same => exact same
  have back : List.Forall₂ Reordered { unit with types := decls }.types unit.types :=
    reordered.flip.imp fun _ _ h => h.symm
  rw [← same.name_eq] at first'
  obtain ⟨_, ends⟩ := searched_implementsAny first fqns
  obtain ⟨_, ends'⟩ := searched_implementsAny first' fqns
  have hits : (∃ u, Reaches { unit with types := decls } t' u ∧
      ∃ s ∈ u.supertypes, Hits { unit with types := decls } fqns s) ↔
      ∃ u, Reaches unit t u ∧ ∃ s ∈ u.supertypes, Hits unit fqns s :=
    ⟨exists_reaches_reordered back (fun _ => id) same.symm,
      exists_reaches_reordered reordered (fun _ => id) same⟩
  have strays : (∃ u, Reaches { unit with types := decls } t' u ∧
      ∃ s ∈ u.supertypes, Strays { unit with types := decls } s) ↔
      ∃ u, Reaches unit t u ∧ ∃ s ∈ u.supertypes, Strays unit s :=
    ⟨exists_reaches_reordered back (fun _ => strays_reordered back) same.symm,
      exists_reaches_reordered reordered (fun _ => strays_reordered reordered) same⟩
  refine eq_of_yes_iff_of_unknown_iff ?_ ?_
  · rw [ends.yes_iff first, ends'.yes_iff first', hits]
  · rw [ends.unknown_iff first, ends'.unknown_iff first', hits, strays]

/-- The search ends without a bound, and with one answer: whether one of `fqns`, or else a type that
nobody knows, is named by a supertype of some type that can be reached. The order of interfaces does
not matter. -/
theorem implementsAny_eq_reachability (first : unit.typeNamed? t.name = some t)
    (fqns : List String) :
    (∀ answer, (∃ visited, Searched unit fqns [t.name] .no t.supertypes (answer, visited)) ↔
      implementsAny unit t fqns = answer) ∧
    (implementsAny unit t fqns = .yes ↔
      ∃ u, Reaches unit t u ∧ ∃ s ∈ u.supertypes, Hits unit fqns s) ∧
    (implementsAny unit t fqns = .unknown ↔
      (¬ ∃ u, Reaches unit t u ∧ ∃ s ∈ u.supertypes, Hits unit fqns s) ∧
        ∃ u, Reaches unit t u ∧ ∃ s ∈ u.supertypes, Strays unit s) ∧
    (implementsAny unit t fqns = .no ↔
      (¬ ∃ u, Reaches unit t u ∧ ∃ s ∈ u.supertypes, Hits unit fqns s) ∧
        ¬ ∃ u, Reaches unit t u ∧ ∃ s ∈ u.supertypes, Strays unit s) ∧
    ∀ decls t', List.Forall₂ Reordered unit.types decls →
      { unit with types := decls }.typeNamed? t.name = some t' →
      implementsAny { unit with types := decls } t' fqns = implementsAny unit t fqns := by
  obtain ⟨visited, ends⟩ := searched_implementsAny first fqns
  have yes := ends.yes_iff first
  have unknown := ends.unknown_iff first
  refine ⟨fun answer => ⟨?_, fun eq => eq ▸ ⟨visited, ends⟩⟩, yes, unknown, ?_, ?_⟩
  · rintro ⟨visited', ends'⟩
    exact eq_of_yes_iff_of_unknown_iff (yes.trans (ends'.yes_iff first).symm)
      (unknown.trans (ends'.unknown_iff first).symm)
  · rw [← yes]
    constructor
    · intro no
      have known : implementsAny unit t fqns ≠ .unknown := by rw [no]; decide
      have notYes : implementsAny unit t fqns ≠ .yes := by rw [no]; decide
      exact ⟨notYes, fun strays => known (unknown.2 ⟨mt yes.2 notYes, strays⟩)⟩
    · rintro ⟨notYes, none⟩
      cases answer : implementsAny unit t fqns with
      | yes => exact absurd answer notYes
      | no => rfl
      | unknown => exact absurd (unknown.1 answer).2 none
  · exact fun decls t' reordered first' => implementsAny_reordered reordered first first'

/-- A filter behind a diamond of interfaces and a circle of classes. -/
theorem implementsAny_eq_reachability_diamond :
    ∃ unit, CompilationUnit.ofText? "file:///A.java"
        ("package a;\nclass A extends B implements C, D {}\nclass B extends A {}\n" ++
          "interface C extends E {}\ninterface D extends E {}\n" ++
          "interface E extends jakarta.servlet.Filter {}") = some unit ∧
      ∃ t, unit.typeNamed? t.name = some t ∧ t.name = "A" ∧
        implementsAny unit t ["jakarta.servlet.Filter"] = .yes := by
  have facts : (CompilationUnit.ofText? "file:///A.java"
        ("package a;\nclass A extends B implements C, D {}\nclass B extends A {}\n" ++
          "interface C extends E {}\ninterface D extends E {}\n" ++
          "interface E extends jakarta.servlet.Filter {}")).map
        (fun unit => (unit.typeNamed? "A").any fun t => (unit.typeNamed? "D").any fun d =>
          (unit.typeNamed? "E").any fun e => decide (t.name = "A" ∧
            (∃ s ∈ t.supertypes, localType? unit s = some d) ∧
            (∃ s ∈ d.supertypes, localType? unit s = some e) ∧
            ∃ s ∈ e.supertypes, ∃ fqn ∈ ["jakarta.servlet.Filter"], unit.typeIs s fqn)) =
      some true := by
    decide +kernel
  obtain ⟨unit, lowered, facts⟩ := Option.map_eq_some_iff.1 facts
  simp only [Option.any_eq_true, decide_eq_true_eq] at facts
  obtain ⟨t, first, d, -, e, -, name, toD, toE, hits⟩ := facts
  have first : unit.typeNamed? t.name = some t := name ▸ first
  have reaches : Reaches unit t e := .head toD (.head toE .refl)
  exact ⟨unit, lowered, t, first, name,
    (implementsAny_eq_reachability first _).2.1.2 ⟨e, reaches, hits⟩⟩

end JakartaCheck.Hierarchy
