import JakartaCheck.Proofs.AddedImport

/-!
# What an import edit does

`Imports.importEdit?` finds the place of a new import in four ways: behind the last import that is not
static, behind the last import, behind the package, or in front of the first type. The package is
searched for in the text, so it can be missed (`Imports.FindsPackage`); apart from that, the edited
source has the new import and is the same otherwise (`Imports.importEdit?_adds`).
-/

namespace JakartaCheck.Imports

open CompilationUnit Java

variable {parser : Parser} {uri text fqn : String} {unit : CompilationUnit} {root : Node}

/-! ### Behind an import -/

/-- Behind the import after which a new one goes, all imports are static. -/
theorem static_behind_anchor {found : ImportDecl} (anchor : anchor? unit = some found)
    {before after : List ImportDecl} (split : unit.imports = before ++ after)
    (behind : ∀ i ∈ after, found.span.stop < i.span.stop) : ∀ i ∈ after, i.isStatic = true := by
  intro i hi
  by_contra single
  cases last : (after.filter (!·.isStatic)).getLast? with
  | none =>
    have none := List.filter_eq_nil_iff.1 (List.getLast?_eq_none_iff.1 last) i hi
    simp [single] at none
  | some j =>
    have mem := (List.mem_filter.1 (List.mem_of_getLast? last)).1
    unfold anchor? at anchor
    rw [split, List.filter_append, List.getLast?_append, last] at anchor
    obtain rfl : j = found := Option.some.inj anchor
    exact Nat.lt_irrefl _ (behind j mem)

theorem imports_of_anchor?_eq_none (h : anchor? unit = none) : unit.imports = [] := by
  unfold anchor? at h
  cases last : unit.imports.getLast? with
  | none => exact List.getLast?_eq_none_iff.1 last
  | some i =>
    rw [last] at h
    cases single : (unit.imports.filter (!·.isStatic)).getLast? with
    | none =>
      rw [single] at h
      cases h
    | some j =>
      rw [single] at h
      cases h

theorem static_of_none (none : unit.imports = []) (offset : Nat) : ∀ before after,
    unit.imports = before ++ after → (∀ i ∈ after, offset < i.span.stop) →
      ∀ i ∈ after, i.isStatic = true := by
  intro before after split _ i hi
  rw [none] at split
  rw [(List.append_eq_nil_iff.1 split.symm).2] at hi
  cases hi

theorem mem_imports {i : ImportDecl} (h : i ∈ (ofTree uri text root).imports) :
    ∃ n ∈ root.children, n.kind = .form .importDeclaration ∧ n.span = i.span := by
  obtain ⟨n, hn, reads⟩ := List.mem_filterMap.1 h
  obtain ⟨kind, place⟩ := readImport?_place reads
  exact ⟨n, (List.mem_filter.1 hn).1, kind, place.symm⟩

/-! ### In front of the first type -/

theorem typeForm_of_typeKind? {n : Node} {kind : TypeKind} (h : typeKind? n = some kind) :
    ∃ form ∈ typeForms, n.kind = .form form := by
  have declares : ∀ form : Form, form ∉ typeForms → ∀ field span children,
      typeKind? (.mk (.form form) field span children) = none := by
    intro form hform field span children
    cases form
    all_goals first | rfl | exact absurd (by decide) hform
  obtain ⟨⟨text⟩ | ⟨form⟩, field, span, children⟩ := n
  · cases h
  · refine ⟨form, ?_, rfl⟩
    by_contra other
    rw [declares form other] at h
    cases h

theorem exists_readTypeDecl? {n : Node} {t : TypeDecl} (h : t ∈ readTypes text n) :
    ∃ d ∈ readTypes text n, readTypeDecl? text n = some d := by
  obtain ⟨kind, field, span, children⟩ := n
  rw [readTypes] at h ⊢
  cases decl : readTypeDecl? text (.mk kind field span children) with
  | none =>
    rw [decl] at h
    cases h
  | some d => exact ⟨d, List.mem_cons_self, rfl⟩

theorem typeForm_of_readTypeDecl? {n : Node} {t : TypeDecl} (h : readTypeDecl? text n = some t) :
    ∃ form ∈ typeForms, n.kind = .form form := by
  simp only [readTypeDecl?, Option.bind_eq_bind, Option.bind_eq_some_iff] at h
  obtain ⟨kind, hkind, -⟩ := h
  exact typeForm_of_typeKind? hkind

/-- Within a type at the top of a source no type starts before it. -/
theorem start_le_of_mem_readTypes {n : Node} (takes : parser.TakesImports)
    (parsed : parser text = some ⟨root, false⟩) (mem : n ∈ root.children) {t : TypeDecl}
    (ht : t ∈ readTypes text n) :
    n.span.start ≤ t.span.start := by
  obtain ⟨d, -, decl⟩ := exists_readTypeDecl? ht
  obtain ⟨form, hform, kind⟩ := typeForm_of_readTypeDecl? decl
  -- an import in front of the type divides the tree where the type starts
  have added : parser.AddsImport text root n.span.start (importText ['a'] [] ++ []) n.span.start
      ['a'] [] := takes.before parsed mem hform kind (by simp) (by decide +kernel)
  obtain ⟨a, b, front, back, -, -, children, divides, -⟩ := added
  rw [children] at mem
  rcases List.mem_append.1 mem with mem | mem
  · exact absurd (divides.front n mem).span.1 (Nat.lt_irrefl _)
  · exact (readTypes_places ((divides.back n mem).imp fun _ h => h.1) ht).1

theorem exists_firstType (takes : parser.TakesImports)
    (parsed : parser text = some ⟨root, false⟩) (types : (ofTree uri text root).types ≠ []) :
    ∃ n ∈ root.children, (∃ form ∈ typeForms, n.kind = .form form) ∧
      n.span.start = firstType (ofTree uri text root) := by
  obtain ⟨start, least⟩ : ∃ start,
      ((ofTree uri text root).types.map (·.span.start)).min? = some start := by
    cases least : ((ofTree uri text root).types.map (·.span.start)).min? with
    | none => exact absurd (List.map_eq_nil_iff.1 (List.min?_eq_none_iff.1 least)) types
    | some start => exact ⟨start, rfl⟩
  have first : firstType (ofTree uri text root) = start := by
    unfold firstType
    rw [least]
    rfl
  have declared : ∀ d ∈ (unboundOfTree uri text root).types, start ≤ d.span.start := by
    intro d hd
    have bound : (unboundOfTree uri text root).bindTypeDecl d ∈ (ofTree uri text root).types :=
      List.mem_map_of_mem hd
    have le := firstType_le bound
    rwa [first] at le
  obtain ⟨t, ht, place⟩ := List.mem_map.1 (List.min?_eq_some_iff.1 least).1
  obtain ⟨t, unbound, rfl⟩ := List.mem_map.1 ht
  obtain ⟨n, hn, ht⟩ := List.mem_flatMap.1 unbound
  have mem := (List.mem_filter.1 hn).1
  obtain ⟨d, hd, decl⟩ := exists_readTypeDecl? ht
  have le := declared d (List.mem_flatMap.2 ⟨n, hn, hd⟩)
  rw [(readTypeDecl?_places decl).1] at le
  have ge : n.span.start ≤ start := by
    rw [← place]
    exact start_le_of_mem_readTypes takes (t := t) parsed mem ht
  exact ⟨n, mem, typeForm_of_readTypeDecl? decl, by omega⟩

/-! ### All places -/

/-- If the search for the package of a unit with that tree finds something, it is the end of a package
declaration. -/
def FindsPackage (root : Node) (unit : CompilationUnit) : Prop :=
  unit.imports = [] → ∀ offset, packageEnd? unit (firstType unit) = some offset →
    ∃ n ∈ root.children, n.kind = .form .packageDeclaration ∧ n.span.stop = offset

theorem isGap_lineEnding (text : String) : ∀ c ∈ (Draft.lineEnding text).toList, isGap c = true := by
  refine List.all_eq_true.1 ?_
  unfold Draft.lineEnding
  split
  · decide
  · decide

/-- The characters of an import of `fqn`. -/
def importLine (fqn : String) : List Char := "import ".toList ++ (fqn.toList ++ [';'])

theorem toList_importLine (front back fqn : String) :
    (front ++ "import " ++ fqn ++ ";" ++ back).toList =
      front.toList ++ (importLine fqn ++ back.toList) := by
  have stop : ";".toList = [';'] := by decide
  unfold importLine
  rw [← stop]
  generalize "import " = word
  generalize ";" = stop
  simp only [String.toList_append, List.append_assoc]

/-- The places of a new import, and the blanks around it. -/
theorem importEdit?_cases {edit : Edit} (h : importEdit? unit fqn = some edit) :
    let ending := Draft.lineEnding unit.text
    (∃ found new, anchor? unit = some found ∧
      edit = .insert (found.span.stop % ByteRange.modulus) new ∧
      new.toList = ending.toList ++ importLine fqn) ∨
    (∃ offset new, anchor? unit = none ∧ packageEnd? unit (firstType unit) = some offset ∧
      edit = .insert (offset % ByteRange.modulus) new ∧
      new.toList = ending.toList ++ ending.toList ++ importLine fqn) ∨
    (∃ new, anchor? unit = none ∧ edit = .insert (firstType unit % ByteRange.modulus) new ∧
      new.toList = importLine fqn ++ (ending.toList ++ ending.toList)) := by
  intro ending
  have behind : ∀ front : String, (front ++ "import " ++ fqn ++ ";").toList =
      front.toList ++ importLine fqn := by
    intro front
    have line := toList_importLine front "" fqn
    rwa [String.append_empty, String.toList_empty, List.append_nil] at line
  have before : ∀ back : String, ("import " ++ fqn ++ ";" ++ back ++ back).toList =
      importLine fqn ++ (back.toList ++ back.toList) := by
    intro back
    have line := toList_importLine "" (back ++ back) fqn
    rw [String.empty_append, String.toList_empty, List.nil_append, ← String.append_assoc] at line
    rw [line, String.toList_append]
  unfold importEdit? at h
  split at h
  · cases h
  cases anchor : anchor? unit with
  | some found =>
    rw [anchor] at h
    exact .inl ⟨found, _, rfl, (Option.some.inj h).symm, behind ending⟩
  | none =>
    rw [anchor] at h
    cases package : packageEnd? unit (firstType unit) with
    | some offset =>
      rw [package] at h
      refine .inr (.inl ⟨offset, _, rfl, rfl, (Option.some.inj h).symm, ?_⟩)
      rw [← String.toList_append]
      exact behind (ending ++ ending)
    | none =>
      rw [package] at h
      exact .inr (.inr ⟨_, rfl, (Option.some.inj h).symm, before ending⟩)

end JakartaCheck.Imports
