import JakartaCheck.Fixes.Imports
import JakartaCheck.Proofs.TypeSpellings

/-!
# What a written reference denotes

`Imports.typeReference` writes a type by its simple name if the type is visible, in full if the
simple name is taken, and else by its simple name beside a new import. In the last case the name
binds to the type in every unit that has the import in addition. In the first two cases nothing looks
at what the written name is bound to already, so another type can stand in the way
(`Imports.Obscured`), and this is the only way in which a reference goes wrong.
-/

namespace JakartaCheck

open Java

namespace CompilationUnit

/-! ### Resolving names without brackets -/

theorem resolve?_word {unit : CompilationUnit} {name : String} (word : IsWord name)
    (named : name ≠ "void" ∧ TypeText.isPrimitive name = false) :
    unit.resolve? name = unit.bindHead? name := by
  have single : dotted [name] = name := String.intercalate_singleton
  have erased := TypeText.erase_dotted word (List.forall_mem_nil _)
  rw [single] at erased
  have nonempty : name.isEmpty = false :=
    String.isEmpty_eq_false_iff.2 (mt String.toList_eq_nil_iff.2 word.1)
  have special : (name == "void" || TypeText.isPrimitive name) = false := by
    rw [beq_eq_false_iff_ne.2 named.1, named.2]
    rfl
  rw [resolve?, erased, nonempty, special, Text.splitOnce_eq_none_iff.2 word.not_point_mem]
  rfl

theorem resolve?_identifier {unit : CompilationUnit} {name : String}
    (h : isIdentifier name.toList) : unit.resolve? name = unit.bindHead? name := by
  have hword : name ∉ keywords := by
    obtain ⟨c, cs, hname⟩ := List.exists_cons_of_ne_nil (isIdentifier_ne_nil h)
    have := (isIdentifier_cons (hname ▸ h)).2.2
    rwa [← hname, String.ofList_toList] at this
  have hvoid : name ≠ "void" := by
    rintro rfl
    exact hword (by decide)
  have hprim : TypeText.isPrimitive name = false := by
    refine Bool.eq_false_iff.2 fun he => hword ?_
    exact (by decide : ∀ p ∈ TypeText.primitives, p ∈ keywords) name (List.contains_iff_mem.1 he)
  have word := isWord_of_isIdentifier h
  rw [String.ofList_toList] at word
  exact resolve?_word word ⟨hvoid, hprim⟩

/-- The first part of a dotted name decides what the whole denotes. -/
theorem resolve?_dotted {unit : CompilationUnit} {name : String} {first tail : List Char}
    (h : TypeText.erase name = name) (hname : name.toList = first ++ '.' :: tail)
    (hfirst : '.' ∉ first) :
    unit.resolve? name =
      match unit.bindHead? (String.ofList first) with
      | some bound => some (bound ++ "." ++ String.ofList tail)
      | none => if looksLikePackage first then some name else none := by
  have hmem : '.' ∈ name.toList := by rw [hname]; simp
  have hne : name.isEmpty = false :=
    String.isEmpty_eq_false_iff.2 (mt String.toList_eq_nil_iff.2 (List.ne_nil_of_mem hmem))
  have hprim : (name == "void" || TypeText.isPrimitive name) = false := by
    refine Bool.eq_false_iff.2 fun he => ?_
    simp only [TypeText.isPrimitive, List.contains_eq_mem, Bool.or_eq_true, beq_iff_eq,
      decide_eq_true_eq] at he
    exact (by decide : ∀ p ∈ "void" :: TypeText.primitives, '.' ∉ p.toList) name
      (List.mem_cons.2 he) hmem
  rw [resolve?, h, hne, hprim, Text.splitOnce_eq_some_iff.2 ⟨hname, hfirst⟩]
  rfl

/-! ### One more import -/

/-- `unit` with one more import somewhere among the others. -/
def withImport (unit : CompilationUnit) (before after : List ImportDecl) (new : ImportDecl) :
    CompilationUnit :=
  { unit with imports := before ++ new :: after }

theorem importedAs?_eq_of_unique (unit : CompilationUnit) (new : ImportDecl) (hmem : new ∈ unit.imports)
    (hsingle : new.isStatic = false ∧ new.isWildcard = false)
    (hunique : ∀ i ∈ unit.imports, i.isStatic = false → i.isWildcard = false →
      TypeText.lastName i.path = TypeText.lastName new.path → i.path = new.path) :
    unit.importedAs? (TypeText.lastName new.path) = some new.path := by
  rw [importedAs?]
  cases hfind : (unit.imports.reverse.filter fun i => !i.isStatic && !i.isWildcard).find? fun i =>
      TypeText.lastName i.path == TypeText.lastName new.path with
  | none =>
    have hno := List.find?_eq_none.1 hfind new (by simp [hmem, hsingle])
    simp at hno
  | some i =>
    have hi := List.mem_of_find?_eq_some hfind
    simp only [List.mem_filter, List.mem_reverse, Bool.and_eq_true, Bool.not_eq_true'] at hi
    have hlast := List.find?_some hfind
    rw [Option.map_some, hunique i hi.1 hi.2.1 hi.2.2 (by simpa using hlast)]

end CompilationUnit

namespace Imports

open CompilationUnit

/-- What stands before the first point of a name. -/
def firstName (name : String) : String :=
  match Text.splitOnce '.' name.toList with
  | some (first, _) => String.ofList first
  | none => name

/-- The name that `typeReference` writes for `fqn` is bound to something else already: the simple
name of a visible type, or else the first name of a type whose simple name is taken. -/
def Obscured (unit : CompilationUnit) (fqn : String) : Prop :=
  if unit.isVisible fqn then ∃ q, unit.bindHead? (TypeText.lastName fqn) = some q ∧ q ≠ fqn
  else unit.simpleNameTaken fqn ∧ ∃ q, unit.bindHead? (firstName fqn) = some q ∧ q ≠ firstName fqn

/-- `unit'` is `unit` with the import that an edit adds, if there is one. -/
def Extends (unit unit' : CompilationUnit) (fqn : String) (edit : Option Edit) : Prop :=
  match edit with
  | none => unit' = unit
  | some _ => ∃ before after span, unit.imports = before ++ after ∧
      unit' = unit.withImport before after ⟨fqn, false, false, span⟩

theorem importEdit?_isSome {unit : CompilationUnit} {fqn : String} (h : unit.isVisible fqn = false) :
    ∃ edit, importEdit? unit fqn = some edit := by
  rw [importEdit?, h]
  simp only [Bool.false_eq_true, if_false]
  split
  · exact ⟨_, rfl⟩
  · split
    · exact ⟨_, rfl⟩
    · exact ⟨_, rfl⟩

/-- A new import binds the simple name of its type, unless that name is taken. -/
theorem resolve?_imported {unit unit' : CompilationUnit} {fqn : String} {edit : Edit}
    (hname : isDottedName fqn) (htaken : unit.simpleNameTaken fqn = false)
    (hext : Extends unit unit' fqn (some edit)) :
    unit'.resolve? (TypeText.lastName fqn) = some fqn := by
  obtain ⟨before, after, span, himports, rfl⟩ := hext
  simp only [simpleNameTaken, Bool.or_eq_false_iff, List.any_eq_false, himports] at htaken
  have hunique : ∀ i ∈ before ++ ⟨fqn, false, false, span⟩ :: after, i.isStatic = false →
      i.isWildcard = false → TypeText.lastName i.path = TypeText.lastName fqn → i.path = fqn := by
    intro i hi hstatic hwildcard hlast
    rcases List.mem_append.1 hi with hi | hi
    · have := htaken.1 i (List.mem_append_left _ hi)
      simpa [hstatic, hwildcard, hlast] using this
    · rcases List.mem_cons.1 hi with rfl | hi
      · rfl
      · have := htaken.1 i (List.mem_append_right _ hi)
        simpa [hstatic, hwildcard, hlast] using this
  have hbound := importedAs?_eq_of_unique (unit.withImport before after ⟨fqn, false, false, span⟩)
    ⟨fqn, false, false, span⟩ (by simp [withImport]) ⟨rfl, rfl⟩ hunique
  rw [resolve?_identifier (isIdentifier_lastName hname), bindHead?, hbound]
  rfl

/-- Written in full, a name denotes its type unless its first part is bound to something that is not
a package of this name. -/
theorem resolve?_in_full {unit : CompilationUnit} {fqn : String} (hname : isDottedName fqn) :
    (∀ q, unit.resolve? fqn = some q → q = fqn) ↔
      ¬ ∃ q, unit.bindHead? (firstName fqn) = some q ∧ q ≠ firstName fqn := by
  rw [not_exists]
  cases hsplit : Text.splitOnce '.' fqn.toList with
  | none =>
    have hid : isIdentifier fqn.toList := by
      obtain ⟨first, rest, hparts, hlist⟩ := exists_parts hname
      have hno := Text.splitOnce_eq_none_iff.1 hsplit
      cases rest with
      | nil =>
        rw [hlist, List.flatMap_nil, List.append_nil]
        exact hparts first (by simp)
      | cons part rest =>
        refine absurd ?_ hno
        rw [hlist]
        simp
    have hfirst : firstName fqn = fqn := by rw [firstName, hsplit]
    rw [resolve?_identifier hid, hfirst]
    exact forall_congr' fun q => by simp only [ne_eq, not_and, Classical.not_not]
  | some parts =>
    obtain ⟨first, tail⟩ := parts
    obtain ⟨hlist, hpoint⟩ := Text.splitOnce_eq_some_iff.1 hsplit
    have hfirst : firstName fqn = String.ofList first := by rw [firstName, hsplit]
    have hfqn : fqn = String.ofList first ++ "." ++ String.ofList tail := by
      rw [← String.ofList_toList (s := fqn), hlist]
      apply String.toList_injective
      simp
    rw [resolve?_dotted (erase_eq_self hname) hlist hpoint, hfirst]
    cases hbind : unit.bindHead? (String.ofList first) with
    | none =>
      refine iff_of_true ?_ (by simp)
      intro q hq
      simp only at hq
      split at hq
      · exact (Option.some.inj hq).symm
      · cases hq
    | some bound =>
      constructor
      · intro h q ⟨hq, hne⟩
        obtain rfl := Option.some.inj hq
        have := h _ rfl
        rw [hfqn] at this
        refine hne (String.toList_injective ?_)
        have := congrArg String.toList this
        simpa using this
      · intro h q hq
        obtain rfl := Option.some.inj hq
        have : bound = String.ofList first := Classical.byContradiction fun hne => h bound ⟨rfl, hne⟩
        rw [this]
        exact hfqn.symm

/-- In the unit extended by the import that comes with it, a written reference is bound to its type
or not at all, unless the name is obscured; beside a new import it is always bound to its type. -/
theorem typeReference_denotes_iff {unit unit' : CompilationUnit} {fqn : String}
    (hname : isDottedName fqn) (hext : Extends unit unit' fqn (typeReference unit fqn).2) :
    ((∀ q, unit'.resolve? (typeReference unit fqn).1 = some q → q = fqn) ↔ ¬ Obscured unit fqn) ∧
      ((typeReference unit fqn).2.isSome → unit'.resolve? (typeReference unit fqn).1 = some fqn) := by
  rw [typeReference] at hext ⊢
  rw [Obscured]
  by_cases hvisible : unit.isVisible fqn = true
  · rw [if_pos hvisible] at hext ⊢
    rw [if_pos hvisible]
    obtain rfl : unit' = unit := hext
    refine ⟨?_, fun h => by cases h⟩
    rw [resolve?_identifier (isIdentifier_lastName hname), not_exists]
    exact forall_congr' fun q => by simp only [ne_eq, not_and, Classical.not_not]
  · rw [if_neg hvisible] at hext ⊢
    rw [if_neg hvisible]
    by_cases htaken : unit.simpleNameTaken fqn = true
    · rw [if_pos htaken] at hext ⊢
      obtain rfl : unit' = unit := hext
      refine ⟨?_, fun h => by cases h⟩
      rw [resolve?_in_full hname]
      exact not_congr ⟨fun h => ⟨htaken, h⟩, fun h => h.2⟩
    · rw [if_neg htaken] at hext ⊢
      obtain ⟨edit, hedit⟩ := importEdit?_isSome (Bool.eq_false_iff.2 hvisible)
      rw [hedit] at hext
      have hbound := resolve?_imported hname (Bool.eq_false_iff.2 htaken) hext
      refine ⟨iff_of_true ?_ fun h => htaken h.1, fun _ => hbound⟩
      intro q hq
      exact Option.some.inj (hq.symm.trans hbound)

/-- The unit of `import b.B; class A {}`. -/
def oneImport : CompilationUnit where
  uri := "file:///A.java"
  text := "import b.B;\nclass A {}"
  package := none
  imports := [⟨"b.B", false, false, ⟨0, 11⟩⟩]
  types := [⟨.classType, "A", ⟨18, 19⟩, ⟨12, 22⟩, ⟨20, 22⟩, .none, none, none, [], [], []⟩]
  calls := []

/-- A name that is new to the unit is imported. -/
theorem typeReference_denotes_iff_imported :
    (oneImport.withImport oneImport.imports [] ⟨"jakarta.inject.Inject", false, false, ⟨12, 41⟩⟩).resolve?
      (typeReference oneImport "jakarta.inject.Inject").1 = some "jakarta.inject.Inject" := by
  have hedit : (typeReference oneImport "jakarta.inject.Inject").2 =
      some (.insert 11 "\nimport jakarta.inject.Inject;") := by decide +kernel
  refine (typeReference_denotes_iff (by decide +kernel) ?_).2 (by rw [hedit]; rfl)
  rw [hedit]
  exact ⟨oneImport.imports, [], ⟨12, 41⟩, by simp, rfl⟩

/-- The unit of `import jakarta.inject.*; import com.acme.Inject; class A {}`. -/
def wildcardBeside : CompilationUnit where
  uri := "file:///A.java"
  text := "import jakarta.inject.*;\nimport com.acme.Inject;\nclass A {}"
  package := none
  imports := [⟨"jakarta.inject", false, true, ⟨0, 24⟩⟩, ⟨"com.acme.Inject", false, false, ⟨25, 48⟩⟩]
  types := [⟨.classType, "A", ⟨55, 56⟩, ⟨49, 59⟩, ⟨57, 59⟩, .none, none, none, [], [], []⟩]
  calls := []

/-- Beside a wildcard import the simple name counts as visible, although it is bound to the other
type of that name. -/
theorem typeReference_obscured_by_import :
    typeReference wildcardBeside "jakarta.inject.Inject" = ("Inject", none) ∧
      wildcardBeside.simpleNameTaken "jakarta.inject.Inject" ∧
      wildcardBeside.resolve? "Inject" = some "com.acme.Inject" := by
  decide +kernel

end Imports

end JakartaCheck
