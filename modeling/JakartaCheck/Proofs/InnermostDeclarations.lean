import JakartaCheck.Java.Reading
import JakartaCheck.Proofs.FamilyOffers

/-!
# The innermost declaration

In a unit whose declarations lie apart or one in the other (`CompilationUnit.Arranged`) those around
a piece form a chain, and `declarationAt?` finds the smallest of them: the shortest type around the
piece has all members around it, since those of other types lie outside. The declarations lie so in
every unit that is read from a text (`CompilationUnit.arranged_of_lower?`).
-/

namespace JakartaCheck

/-- The declaration is one of the unit, and `s` lies in it. -/
structure Located.Around (unit : CompilationUnit) (s : Span) (d : Located) : Prop where
  of : d.Of unit
  holds : d.span.contains s

namespace CompilationUnit

variable {unit : CompilationUnit} {t u : TypeDecl} {s : Span} {d e : Located}

/-! ### The shortest type -/

theorem shortest?_eq_none_iff {types : List TypeDecl} : shortest? types = none ↔ types = [] := by
  cases types with
  | nil => simp [shortest?]
  | cons t types =>
    rw [shortest?]
    split
    · split <;> simp
    · simp

theorem len_le_of_shortest? {types : List TypeDecl} (h : shortest? types = some t) :
    ∀ u ∈ types, t.span.len ≤ u.span.len := by
  induction types generalizing t with
  | nil => nofun
  | cons a types ih =>
    rw [shortest?] at h
    cases hnext : shortest? types with
    | none =>
      rw [hnext] at h
      obtain rfl := Option.some.inj h
      rw [shortest?_eq_none_iff.1 hnext]
      simp
    | some b =>
      have hrest := ih hnext
      simp only [hnext] at h
      split at h
      · obtain rfl := Option.some.inj h
        exact List.forall_mem_cons.2 ⟨Nat.le_of_lt ‹_›, hrest⟩
      · obtain rfl := Option.some.inj h
        exact List.forall_mem_cons.2
          ⟨Nat.le_refl _, fun u hu => Nat.le_trans (Nat.le_of_not_lt ‹_›) (hrest u hu)⟩

theorem ownerAt?_eq_none_iff : unit.ownerAt? s = none ↔ ∀ t ∈ unit.types, ¬ t.span.contains s := by
  rw [ownerAt?, shortest?_eq_none_iff, List.filter_eq_nil_iff]

theorem mem_of_ownerAt? (h : unit.ownerAt? s = some t) : t ∈ unit.types ∧ t.span.contains s :=
  List.mem_filter.1 (mem_of_shortest? h)

/-- The owner lies in every type around the piece. -/
theorem Arranged.contains_ownerAt? (h : unit.Arranged) (hne : s.start < s.stop)
    (howner : unit.ownerAt? s = some t) (hu : u ∈ unit.types) (hs : u.span.contains s) :
    u.span.contains t.span := by
  obtain ⟨ht, hts⟩ := mem_of_ownerAt? howner
  have hle := len_le_of_shortest? howner u (List.mem_filter.2 ⟨hu, hs⟩)
  rcases h.nested_or_eq hu ht with rfl | hdis | hin | hout
  · exact Span.contains_self _
  · rw [Span.not_contains_of_disjoint hdis hs hne] at hts
    cases hts
  · exact Span.contains_trans (h.bodies u hu).1 hin
  · exact absurd (h.len_lt ht hout hs hne) (Nat.not_lt.2 hle)

/-! ### The declaration that is found -/

theorem declarationAt?_eq_none_iff : unit.declarationAt? s = none ↔ unit.ownerAt? s = none := by
  rw [declarationAt?]
  cases unit.ownerAt? s with
  | none => simp
  | some t =>
    simp only [Option.bind_eq_bind, Option.bind_some]
    split
    · simp
    · split
      · simp
      · split <;> simp

/-- What is found is a declaration around the piece, and belongs to the shortest type around it. -/
theorem around_of_declarationAt? (h : unit.declarationAt? s = some d) :
    d.Around unit s ∧ unit.ownerAt? s = some d.owner := by
  rw [declarationAt?] at h
  cases howner : unit.ownerAt? s with
  | none => simp [howner] at h
  | some t =>
    obtain ⟨ht, hts⟩ := mem_of_ownerAt? howner
    simp only [howner, Option.bind_eq_bind, Option.bind_some] at h
    split at h
    · rename_i f hf
      obtain rfl := Option.some.inj h
      have hs := List.find?_some hf
      exact ⟨⟨⟨ht, List.mem_of_find?_eq_some hf⟩, hs⟩, rfl⟩
    · split at h
      · obtain rfl := Option.some.inj h
        exact ⟨⟨ht, hts⟩, rfl⟩
      · rename_i m hm
        have hmem := List.mem_of_find?_eq_some hm
        split at h
        · rename_i p hp
          obtain rfl := Option.some.inj h
          have hs := List.find?_some hp
          exact ⟨⟨⟨ht, hmem, List.mem_of_find?_eq_some hp⟩, hs⟩, rfl⟩
        · obtain rfl := Option.some.inj h
          have hs := List.find?_some hm
          exact ⟨⟨⟨ht, hmem⟩, hs⟩, rfl⟩

theorem Arranged.owner_contains (h : unit.Arranged) (hd : d.Of unit) :
    d.owner.span.contains d.span := by
  have hmember : ∀ t ∈ unit.types, ∀ s ∈ t.memberSpans, t.span.contains s := fun t ht s hs =>
    Span.contains_trans (h.bodies t ht).1 (h.members_inside t ht s hs)
  cases d with
  | type t => exact Span.contains_self _
  | field t f => exact hmember t hd.1 _ (field_mem_memberSpans hd.2)
  | method t m => exact hmember t hd.1 _ (method_mem_memberSpans hd.2)
  | parameter t m p =>
    exact Span.contains_trans (hmember t hd.1 _ (method_mem_memberSpans hd.2.1))
      (h.params_inside t hd.1 m hd.2.1 p hd.2.2)

/-- A member around the piece belongs to the shortest type around it. -/
theorem Arranged.ownerAt?_of_around (h : unit.Arranged) (hne : s.start < s.stop)
    (hd : d.Around unit s) : d = .type d.owner ∨ unit.ownerAt? s = some d.owner := by
  obtain ⟨hof, hs⟩ := hd
  cases d with
  | type t => exact .inl rfl
  | field t f => exact .inr (h.ownerAt?_member hof.1 (field_mem_memberSpans hof.2) hs hne)
  | method t m => exact .inr (h.ownerAt?_member hof.1 (method_mem_memberSpans hof.2) hs hne)
  | parameter t m p =>
    have hin := Span.contains_trans (h.params_inside t hof.1 m hof.2.1 p hof.2.2) hs
    exact .inr (h.ownerAt?_member hof.1 (method_mem_memberSpans hof.2.1) hin hne)

theorem Arranged.type_comparable (h : unit.Arranged) (hne : s.start < s.stop)
    (ht : (Located.type t).Around unit s) (he : e.Around unit s) :
    t.span.contains e.span ∨ e.span.contains t.span := by
  rcases h.ownerAt?_of_around hne he with htype | howner
  · rw [htype] at he ⊢
    rcases h.nested_or_eq ht.of he.of with heq | hdis | hin | hout
    · rw [heq]
      exact .inl (Span.contains_self _)
    · have hno := Span.not_contains_of_disjoint hdis ht.holds hne
      exact absurd he.holds (Bool.eq_false_iff.1 hno)
    · exact .inl (Span.contains_trans (h.bodies t ht.of).1 hin)
    · exact .inr (Span.contains_trans (h.bodies _ he.of).1 hout)
  · exact .inl (Span.contains_trans (h.contains_ownerAt? hne howner ht.of ht.holds)
      (h.owner_contains he.of))

/-- Every declaration around the piece is around the declaration that is found. -/
theorem Arranged.contains_declarationAt? (h : unit.Arranged) (hne : s.start < s.stop)
    (hfound : unit.declarationAt? s = some d) (he : e.Around unit s) : e.span.contains d.span := by
  obtain ⟨hd, howner⟩ := around_of_declarationAt? hfound
  obtain ⟨hof, hs⟩ := he
  cases e with
  | type t =>
    exact Span.contains_trans (h.contains_ownerAt? hne howner hof hs) (h.owner_contains hd.of)
  | field t f =>
    rw [h.declarationAt?_field hof.1 hof.2 hs hne] at hfound
    obtain rfl := Option.some.inj hfound
    exact Span.contains_self _
  | parameter t m p =>
    rw [h.declarationAt?_parameter hof.1 hof.2.1 hof.2.2 hs hne] at hfound
    obtain rfl := Option.some.inj hfound
    exact Span.contains_self _
  | method t m =>
    rw [h.declarationAt?_member_method hof.1 hof.2 hs hne] at hfound
    obtain rfl := Option.some.inj hfound
    split
    · rename_i p hp
      exact h.params_inside t hof.1 m hof.2 p (List.mem_of_find?_eq_some hp)
    · exact Span.contains_self _

/-- Of two declarations around the piece, one lies in the other. -/
theorem Arranged.comparable (h : unit.Arranged) (hne : s.start < s.stop) (hd : d.Around unit s)
    (he : e.Around unit s) : d.span.contains e.span ∨ e.span.contains d.span := by
  cases d with
  | type t => exact h.type_comparable hne hd he
  | field t f =>
    have hfound := h.declarationAt?_field hd.of.1 hd.of.2 hd.holds hne
    exact .inr (h.contains_declarationAt? hne hfound he)
  | parameter t m p =>
    have hfound := h.declarationAt?_parameter hd.of.1 hd.of.2.1 hd.of.2.2 hd.holds hne
    exact .inr (h.contains_declarationAt? hne hfound he)
  | method t m =>
    have hfound := h.declarationAt?_member_method hd.of.1 hd.of.2 hd.holds hne
    cases e with
    | type u => exact (h.type_comparable hne he hd).symm
    | field t' f =>
      have hfound' := h.declarationAt?_field he.of.1 he.of.2 he.holds hne
      exact .inl (h.contains_declarationAt? hne hfound' hd)
    | parameter t' m' p =>
      have hfound' := h.declarationAt?_parameter he.of.1 he.of.2.1 he.of.2.2 he.holds hne
      exact .inl (h.contains_declarationAt? hne hfound' hd)
    | method t' m' =>
      -- both methods are on the way to what is found, so they are the same
      have hfound' := h.declarationAt?_member_method he.of.1 he.of.2 he.holds hne
      have hsame := hfound.symm.trans hfound'
      split at hsame <;> split at hsame <;> cases hsame <;> exact .inl (Span.contains_self _)

/-- The declarations around a piece form a chain. The smallest of them is found, or nothing if there
is none. -/
theorem declarationAt?_innermost (h : unit.Arranged) (hne : s.start < s.stop) :
    (∀ d e : Located, d.Around unit s → e.Around unit s →
      d.span.contains e.span ∨ e.span.contains d.span) ∧
    (unit.declarationAt? s = none ↔ ∀ d : Located, ¬ d.Around unit s) ∧
    ∀ d, unit.declarationAt? s = some d →
      d.Around unit s ∧ ∀ e : Located, e.Around unit s → e.span.contains d.span := by
  refine ⟨fun d e hd he => h.comparable hne hd he, ?_, fun d hfound =>
    ⟨(around_of_declarationAt? hfound).1, fun e he => h.contains_declarationAt? hne hfound he⟩⟩
  constructor
  · intro hnone d hd
    rw [declarationAt?_eq_none_iff, ownerAt?_eq_none_iff] at hnone
    exact hnone _ hd.of.owner_mem (Span.contains_trans (h.owner_contains hd.of) hd.holds)
  · intro hnone
    rw [declarationAt?_eq_none_iff, ownerAt?_eq_none_iff]
    exact fun t ht hs => hnone (.type t) ⟨ht, hs⟩

/-- The second parameter of a method in a nested class. -/
theorem declarationAt?_innermost_parameter :
    ∃ unit, CompilationUnit.ofText? "file:///A.java"
        "class A { int x; class B { void f(int p, int q) {} } }" = some unit ∧
      ∃ d, unit.declarationAt? ⟨45, 46⟩ = some d ∧ d.name = "q" ∧ d.owner.name = "B" ∧
        ∀ e : Located, e.Around unit ⟨45, 46⟩ → e.span.contains d.span := by
  have facts : (CompilationUnit.ofText? "file:///A.java"
      "class A { int x; class B { void f(int p, int q) {} } }").map (fun unit =>
        decide unit.Arranged && (unit.declarationAt? ⟨45, 46⟩).any fun d =>
          decide (d.name = "q" ∧ d.owner.name = "B")) = some true := by
    decide +kernel
  obtain ⟨unit, lowered, facts⟩ := Option.map_eq_some_iff.1 facts
  simp only [Bool.and_eq_true, Option.any_eq_true, decide_eq_true_eq] at facts
  obtain ⟨arranged, d, found, name, owner⟩ := facts
  have innermost := (declarationAt?_innermost arranged (by decide)).2.2 d found
  exact ⟨unit, lowered, d, found, name, owner, innermost.2⟩

end CompilationUnit

end JakartaCheck
