import JakartaCheck.Proofs.DraftedChanges
import JakartaCheck.Proofs.MemberOrder

/-!
# Where keywords are put in

A fix gives a keyword to a method, a field or a constructor. Where it inserts the keyword and does
not replace another, it does so at the first part of the member (`Edit.Fronts`), if the parts of
members are in source order in the tree that the unit is read from. The fix for constructors does not
look at type parameters, though: without keywords they stand in front of what it inserts.
-/

namespace JakartaCheck

open Java

/-- The edit puts a keyword in at one of the parts, in front of all of them. -/
structure Edit.Fronts (parts : List Span) (keyword : String) (e : Edit) : Prop where
  text : e.replacement = keyword ++ " "
  place : ∃ first ∈ parts, e.range.start = first.start % ByteRange.modulus
  ahead : ∀ s ∈ parts, e.range.start ≤ s.start

/-- The parts of a method or a field. -/
def Located.memberParts? : Located → Option (List Span)
  | .method _ m => some m.parts
  | .field _ f => some f.parts
  | _ => none

variable {unit : CompilationUnit} {d : Diagnostic} {text keyword : String}
  {proposals : List Proposal} {edits : List Edit} {m : Modifiers}

namespace Family

/-! ### Setting a keyword -/

/-- What stands in place of an access keyword takes up the place of that keyword. -/
theorem replace_not_isEmpty {k : Keyword} (spelled : k.span.Spells text k.text)
    (access : k.text ∈ accessKeywords) (hok : Draft.replace [] k.span keyword = .ok edits) :
    ∀ e ∈ edits, e.range.isEmpty = false := by
  obtain ⟨range, hrange, rfl⟩ := Draft.replace_eq_ok hok
  have hlength : 0 < Text.length k.text ∧ Text.length k.text < ByteRange.modulus := by
    simp only [accessKeywords, List.mem_cons, List.not_mem_nil, or_false] at access
    rcases access with h | h | h <;> rw [h] <;> decide
  obtain ⟨-, -, -, -, hstop⟩ := Text.slice?_eq_some_iff.1 spelled
  intro e he
  obtain rfl := List.mem_singleton.1 he
  rw [Span.toRange, ByteRange.between] at hrange
  split at hrange
  · obtain rfl := Except.ok.inj hrange
    refine beq_eq_false_iff_ne.2 fun heq => ?_
    simp only [ByteRange.modulus] at heq hlength
    omega
  · cases hrange

/-- The keyword comes to the first of the keywords, or to the part behind them if there are none. -/
theorem setModifier_fronts {rest : List Span} {s : Span}
    (spelled : m.Spelled text)
    (ordered : (m.keywords.map (·.span) ++ rest).Pairwise (·.start ≤ ·.start))
    (hfirst : m.keywords ≠ [] ∨ rest.head? = some s)
    (hok : setModifier m s.start keyword = .ok edits) :
    ∀ e ∈ edits, e.range.isEmpty → e.Fronts (m.keywords.map (·.span) ++ rest) keyword := by
  intro e he hempty
  rcases setModifier_eq_ok hok with ⟨k, hk, haccess, hreplace⟩ | rfl
  · have written : k.text ≠ "" := by
      rintro empty
      rw [empty] at haccess
      exact absurd haccess (by decide)
    rw [replace_not_isEmpty (spelled k hk written) haccess hreplace e he] at hempty
    cases hempty
  · obtain ⟨first, behind, hparts, hoffset⟩ : ∃ first behind,
        m.keywords.map (·.span) ++ rest = first :: behind ∧
        (m.keywords.head?.map (·.span.start)).getD s.start = first.start := by
      cases hkeywords : m.keywords with
      | nil =>
        obtain ⟨behind, rfl⟩ := List.head?_eq_some_iff.1 (hfirst.resolve_left (absurd hkeywords))
        exact ⟨s, behind, rfl, rfl⟩
      | cons k ks => exact ⟨k.span, _, rfl, rfl⟩
    obtain rfl := List.mem_singleton.1 he
    rw [hparts] at ordered ⊢
    rw [hoffset]
    have hahead : ∀ s ∈ first :: behind, first.start ≤ s.start :=
      List.forall_mem_cons.2 ⟨Nat.le_refl _, (List.pairwise_cons.1 ordered).1⟩
    exact ⟨rfl, ⟨first, List.mem_cons_self, rfl⟩,
      fun s hs => Nat.le_trans (Nat.mod_le _ _) (hahead s hs)⟩

/-! ### Members of a unit -/

section Unit

variable (inOrder : ∀ t ∈ unit.types, t.InOrder text)

include inOrder

theorem proposeAddModifier_fronts (hok : proposeAddModifier keyword d unit = .ok proposals) :
    ∃ found, unit.declarationAt? d.span = some found ∧ ∃ parts ∈ found.memberParts?,
      ∀ p ∈ proposals, ∀ e ∈ p.edits, e.range.isEmpty → e.Fronts parts keyword := by
  obtain ⟨found, hfound, s, edits, label, rfl, hedits, hcases⟩ := proposeAddModifier_eq_ok hok
  have hof := (CompilationUnit.around_of_declarationAt? hfound).1.of
  have hordered := inOrder found.owner hof.owner_mem
  simp only [List.forall_mem_singleton]
  refine ⟨found, hfound, ?_⟩
  rcases hcases with ⟨t, m, rfl, rfl⟩ | ⟨t, f, rfl, rfl⟩
  · have hs : (m.typeParamsSpan.toList ++ ((m.returnType.map (·.span)).toList ++
        [m.nameSpan])).head? =
        some ((m.typeParamsSpan <|> m.returnType.map (·.span)).getD m.nameSpan) := by
      cases m.typeParamsSpan with
      | some s => rfl
      | none =>
        cases m.returnType with
        | some r => rfl
        | none => rfl
    obtain ⟨spelled, ordered⟩ := hordered.methods m hof.2
    exact ⟨m.parts, rfl, setModifier_fronts spelled ordered (.inr hs) hedits⟩
  · obtain ⟨spelled, ordered⟩ := hordered.fields f hof.2
    exact ⟨f.parts, rfl, setModifier_fronts spelled ordered (.inr rfl) hedits⟩

theorem proposeAddNoArgConstructor_fronts
    (hok : proposeAddNoArgConstructor keyword d unit = .ok proposals) {found : Located}
    (hfound : unit.declarationAt? d.span = some found) {c : MethodDecl}
    (hc : found.owner.constructors.find? (·.params.isEmpty) = some c) :
    ∀ p ∈ proposals, ∀ e ∈ p.edits, e.range.isEmpty →
      (c.modifiers.keywords ≠ [] ∨ c.typeParamsSpan = none → e.Fronts c.parts keyword) ∧
        (c.modifiers.keywords = [] → e.Fronts [c.nameSpan] keyword) := by
  obtain ⟨found', hfound', edits, label, rfl, hedits⟩ := proposeAddNoArgConstructor_eq_ok hok
  obtain rfl := Option.some.inj (hfound'.symm.trans hfound)
  have hedits : setModifier c.modifiers c.nameSpan.start keyword = .ok edits := by
    rcases hedits with ⟨c', hc', hedits⟩ | ⟨hnone, -⟩
    · obtain rfl := Option.some.inj (hc'.symm.trans hc)
      exact hedits
    · rw [hnone] at hc
      cases hc
  obtain ⟨hmem, hconstructor⟩ := List.mem_filter.1 (List.mem_of_find?_eq_some hc)
  have hof := (CompilationUnit.around_of_declarationAt? hfound).1.of
  have hordered := inOrder found'.owner hof.owner_mem
  obtain ⟨spelled, ordered⟩ := hordered.methods c hmem
  have hreturn : c.returnType = none :=
    Option.isNone_iff_eq_none.1 ((hordered.constructors c hmem).symm.trans hconstructor)
  simp only [List.forall_mem_singleton]
  rw [MethodDecl.parts, hreturn] at ordered ⊢
  intro e he hempty
  constructor
  · intro hcase
    refine setModifier_fronts spelled ordered ?_ hedits e he hempty
    rcases hcase with hkeywords | hnone
    · exact .inl hkeywords
    · rw [hnone]
      exact .inr rfl
  · intro hnone
    have halone : (c.modifiers.keywords.map (·.span) ++ [c.nameSpan]).Pairwise
        (·.start ≤ ·.start) := by
      rw [hnone]
      exact List.pairwise_singleton _ _
    have hfronts := setModifier_fronts spelled halone (.inr rfl) hedits e he hempty
    rwa [hnone] at hfronts

end Unit

/-! ### Both fixes -/

/-- Whatever tree a unit is read from, with syntax errors or without: if the members in it are in source
order, a keyword that is put in stands in front of all parts of its member; only the type parameters
of a constructor without keywords may stand in front of it. -/
theorem keyword_put_in_front (uri text : String) {root : Node}
    (sorted : root.Everywhere Node.Sorted) (laid : root.Everywhere (Node.LaidOut memberLayout))
    (d : Diagnostic) :
    (∀ keyword proposals,
      propose d (CompilationUnit.ofTree uri text root) (.addModifier keyword) = .ok proposals →
      ∃ found, (CompilationUnit.ofTree uri text root).declarationAt? d.span = some found ∧
        ∃ parts ∈ found.memberParts?,
          ∀ p ∈ proposals, ∀ e ∈ p.edits, e.range.isEmpty → e.Fronts parts keyword) ∧
    ∀ visibility proposals found c,
      propose d (CompilationUnit.ofTree uri text root) (.addNoArgConstructor visibility) =
        .ok proposals →
      (CompilationUnit.ofTree uri text root).declarationAt? d.span = some found →
      found.owner.constructors.find? (·.params.isEmpty) = some c →
      ∀ p ∈ proposals, ∀ e ∈ p.edits, e.range.isEmpty →
        (c.modifiers.keywords ≠ [] ∨ c.typeParamsSpan = none → e.Fronts c.parts visibility) ∧
          (c.modifiers.keywords = [] → e.Fronts [c.nameSpan] visibility) := by
  have inOrder : ∀ t ∈ (CompilationUnit.ofTree uri text root).types, t.InOrder text :=
    fun t ht => CompilationUnit.inOrder_of_tree sorted laid ht
  constructor
  · intro keyword proposals hok
    rw [propose] at hok
    exact proposeAddModifier_fronts inOrder hok
  · intro visibility proposals found c hok hfound hc
    rw [propose] at hok
    exact proposeAddNoArgConstructor_fronts inOrder hok hfound hc

/-- An annotated method with type parameters gets the keyword in front of these. -/
theorem keyword_put_in_front_generic : ∃ root,
    grammar "class A { @X <T> T f() {} }" = some ⟨root, false⟩ ∧
      ∃ found, (CompilationUnit.ofTree "file:///A.java" "class A { @X <T> T f() {} }"
          root).declarationAt? ⟨19, 20⟩ = some found ∧ ∃ parts ∈ found.memberParts?,
        (Edit.insert 13 "static ").Fronts parts "static" := by
  have facts : (parse "class A { @X <T> T f() {} }").bind (fun root =>
      (propose (.error "" "" "" ⟨19, 20⟩)
        (CompilationUnit.ofTree "file:///A.java" "class A { @X <T> T f() {} }" root)
        (.addModifier "static")).toOption) =
      some [⟨"Make 'f' static", [.insert 13 "static "]⟩] := by
    decide +kernel
  obtain ⟨root, parsed, proposed⟩ := Option.bind_eq_some_iff.1 facts
  obtain ⟨found, hfound, parts, hparts, hfronts⟩ :=
    (keyword_put_in_front "file:///A.java" "class A { @X <T> T f() {} }" (sorted_of_parse parsed)
      (laidOut_of_parse parsed) _).1 "static" _ (eq_ok_of_toOption proposed)
  exact ⟨root, grammar_eq_some_iff.2 ⟨parsed, rfl⟩, found, hfound, parts, hparts,
    hfronts _ List.mem_cons_self _ List.mem_cons_self rfl⟩

/-- A constructor with type parameters gets the keyword behind them. -/
theorem keyword_put_behind_type_parameters :
    ∃ unit, CompilationUnit.ofText? "file:///Test.java" "class A { <T> A() {} }" = some unit ∧
      propose (.error "" "C" "" ⟨6, 7⟩) unit (.addNoArgConstructor "public") =
        .ok [⟨"Make the no-arg constructor of 'A' public", [.insert 14 "public "]⟩] ∧
      ∃ found c, unit.declarationAt? ⟨6, 7⟩ = some found ∧
        found.owner.constructors.find? (·.params.isEmpty) = some c ∧
        ¬ (Edit.insert 14 "public ").Fronts c.parts "public" := by
  have facts : (CompilationUnit.ofText? "file:///Test.java" "class A { <T> A() {} }").map
      (fun unit => (
        (propose (.error "" "C" "" ⟨6, 7⟩) unit (.addNoArgConstructor "public")).toOption,
        (unit.declarationAt? ⟨6, 7⟩).bind fun found =>
          (found.owner.constructors.find? (·.params.isEmpty)).map MethodDecl.parts)) =
      some (some [⟨"Make the no-arg constructor of 'A' public", [.insert 14 "public "]⟩],
        some [⟨10, 13⟩, ⟨14, 15⟩]) := by
    decide +kernel
  obtain ⟨unit, lowered, facts⟩ := Option.map_eq_some_iff.1 facts
  obtain ⟨proposed, hparts⟩ := Prod.mk.inj facts
  obtain ⟨found, hfound, hparts⟩ := Option.bind_eq_some_iff.1 hparts
  obtain ⟨c, hc, hparts⟩ := Option.map_eq_some_iff.1 hparts
  refine ⟨unit, lowered, eq_ok_of_toOption proposed, found, c, hfound, hc, ?_⟩
  intro hfronts
  rw [hparts] at hfronts
  have hbefore := hfronts.ahead ⟨10, 13⟩ List.mem_cons_self
  exact absurd hbefore (by decide)

end Family

end JakartaCheck
