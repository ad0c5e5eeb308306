import JakartaCheck.Proofs.TokenTexts
import JakartaCheck.Proofs.TypeReferences

/-!
# Names that annotations are bound to

A written type is bound to a name that ends in the same part (`CompilationUnit.resolve?_ends`). Of the
name of an annotation nothing is erased, unless a comment stands in it. Then the name that it is bound
to has a slash in it and is no dotted name. So an annotation that is bound to a dotted name has the
simple name of that name (`CompilationUnit.lastName_bound`).
-/

namespace JakartaCheck

open Java

namespace TypeText

theorem lastName_of_not_mem {name : String} (h : '.' ∉ name.toList) : lastName name = name := by
  rw [lastName, Text.afterLast_of_not_mem h, String.ofList_toList]

theorem lastName_append_dotted (front : String) {last : String} (h : '.' ∉ last.toList) :
    lastName (front ++ "." ++ last) = last := by
  rw [lastName, CompilationUnit.toList_dotted, Text.afterLast_append h, String.ofList_toList]

/-- What follows a point is cut in the same place whatever stands in front of the point. -/
theorem lastName_append (front : List Char) (tail : List Char) :
    lastName (String.ofList (front ++ '.' :: tail)) = lastName (String.ofList tail) := by
  obtain ⟨before, split, free, ends⟩ := Text.exists_append_afterLast '.' tail
  have whole : Text.afterLast '.' (front ++ '.' :: tail) = Text.afterLast '.' tail := by
    rcases ends with rfl | ends
    · rw [List.nil_append] at split
      rw [← split] at free
      rw [Text.afterLast_append free, Text.afterLast_of_not_mem free]
    · obtain ⟨before, rfl⟩ := List.getLast?_eq_some_iff.1 ends
      conv_lhs => rw [split]
      rw [List.append_assoc, List.singleton_append, ← List.cons_append, ← List.append_assoc,
        Text.afterLast_append free]
  rw [lastName, lastName, String.toList_ofList, String.toList_ofList, whole]

theorem mem_of_mem_lastName {name : String} {c : Char} (h : c ∈ (lastName name).toList) :
    c ∈ name.toList := by
  obtain ⟨front, split, -, -⟩ := Text.exists_append_afterLast '.' name.toList
  rw [split, List.mem_append]
  rw [lastName, String.toList_ofList] at h
  exact .inr h

end TypeText

namespace CompilationUnit

open TypeText

variable {unit : CompilationUnit}

theorem lastName_dotted (names : List String) {last : String} (h : '.' ∉ last.toList) :
    TypeText.lastName (dotted (names ++ [last])) = last := by
  cases names with
  | nil =>
    rw [List.nil_append, show dotted [last] = last from String.intercalate_singleton]
    exact TypeText.lastName_of_not_mem h
  | cons first rest =>
    rw [TypeText.lastName, List.cons_append, toList_dotted_cons, List.flatMap_append,
      List.flatMap_singleton, ← List.append_assoc, Text.afterLast_append h, String.ofList_toList]

theorem lastName_declaredFrom? {simple bound : String} (point : '.' ∉ simple.toList)
    {before types : List TypeDecl} (h : unit.declaredFrom? simple before types = some bound) :
    TypeText.lastName bound = simple := by
  induction types generalizing before with
  | nil => cases h
  | cons t types ih =>
    rw [declaredFrom?] at h
    split at h
    · rename_i same
      obtain rfl := Option.some.inj h
      obtain rfl : t.name = simple := beq_iff_eq.1 same
      exact lastName_dotted _ point
    · exact ih h

/-- What a name is bound to ends in it. -/
theorem lastName_bindHead? {head bound : String} (point : '.' ∉ head.toList)
    (h : unit.bindHead? head = some bound) : TypeText.lastName bound = head := by
  rcases Option.or_eq_some_iff.1 (Option.orElse_eq_or.symm.trans h) with imported | ⟨-, h⟩
  · obtain ⟨i, found, rfl⟩ := Option.map_eq_some_iff.1 imported
    simpa using List.find?_some found
  rcases Option.or_eq_some_iff.1 (Option.orElse_eq_or.symm.trans h) with declared | ⟨-, h⟩
  · exact lastName_declaredFrom? point declared
  · rw [TypeText.javaLangQualified?] at h
    split at h
    · obtain rfl := Option.some.inj h
      exact TypeText.lastName_append_dotted "java.lang" point
    · cases h

/-- A written type is bound to a name that ends in the same part and has all its characters. -/
theorem resolve?_ends {written bound : String} (h : unit.resolve? written = some bound) :
    TypeText.lastName bound = TypeText.lastName (TypeText.erase written) ∧
      ∀ c ∈ (TypeText.erase written).toList, c ∈ bound.toList := by
  unfold resolve? at h
  generalize TypeText.erase written = erased at h
  dsimp only at h
  split at h
  · cases h
  split at h
  · obtain rfl := Option.some.inj h
    exact ⟨rfl, fun _ => id⟩
  split at h
  · rename_i whole
    have point := Text.splitOnce_eq_none_iff.1 whole
    have last := lastName_bindHead? point h
    rw [TypeText.lastName_of_not_mem point, last]
    refine ⟨rfl, fun c hc => mem_of_mem_lastName ?_⟩
    rwa [last]
  · rename_i head tail cut
    obtain ⟨split, point⟩ := Text.splitOnce_eq_some_iff.1 cut
    have spelled : erased = String.ofList (head ++ '.' :: tail) := by
      rw [← split, String.ofList_toList]
    split at h
    · rename_i first binds
      obtain rfl := Option.some.inj h
      have joined : first ++ "." ++ String.ofList tail = String.ofList (first.toList ++ '.' :: tail) := by
        refine String.toList_injective ?_
        rw [toList_dotted, String.toList_ofList, String.toList_ofList]
      have last := lastName_bindHead? (by rwa [String.toList_ofList]) binds
      rw [joined, spelled, lastName_append, lastName_append, String.toList_ofList,
        String.toList_ofList]
      refine ⟨rfl, fun c hc => ?_⟩
      rcases List.mem_append.1 hc with hc | hc
      · refine List.mem_append_left _ (mem_of_mem_lastName ?_)
        rwa [last, String.toList_ofList]
      · exact List.mem_append_right _ hc
    · split at h
      · obtain rfl := Option.some.inj h
        exact ⟨rfl, fun _ => id⟩
      · cases h

end CompilationUnit

namespace TypeText

/-! ### Names with comments in them -/

theorem mem_stripFrontAll {piece cs : List Char} {c : Char} (mem : c ∈ cs) (other : c ∉ piece) :
    c ∈ stripFrontAll piece cs := by
  fun_induction stripFrontAll piece cs with
  | case1 => exact mem
  | case2 cs some here ih =>
    obtain ⟨rest, rfl⟩ := List.isPrefixOf_iff_prefix.1 here.1
    rw [List.drop_left] at ih ⊢
    exact ih ((List.mem_append.1 mem).resolve_left other)
  | case3 => exact mem

theorem mem_stripBackAll {piece cs : List Char} {c : Char} (mem : c ∈ cs) (other : c ∉ piece) :
    c ∈ stripBackAll piece cs := by
  rw [stripBackAll, List.mem_reverse]
  exact mem_stripFrontAll (List.mem_reverse.2 mem) (by rwa [List.mem_reverse])

theorem dropBlanks_idem (cs : List Char) :
    Text.dropBlanks (Text.dropBlanks cs) = Text.dropBlanks cs := by
  simp [Text.dropBlanks]

theorem getLast?_dropBlanks {cs : List Char} {last : Char} (ends : cs.getLast? = some last)
    (solid : Text.isBlank last = false) : (Text.dropBlanks cs).getLast? = some last := by
  obtain ⟨front, rfl⟩ := List.getLast?_eq_some_iff.1 ends
  simp [Text.dropBlanks, solid]

/-- Nothing is erased from a name, unless there is a comment in it. -/
theorem erase_namePiece {raw : String} (piece : IsNamePiece raw.toList) {last : Char}
    (ends : raw.toList.getLast? = some last) (word : continuesWord last = true) :
    erase (clean raw) = clean raw ∨ '/' ∈ (erase (clean raw)).toList := by
  have solid : Text.isBlank last = false := by
    by_contra blank
    rw [not_continuesWord_of_isBlank (by simpa using blank)] at word
    cases word
  obtain ⟨front, rest, split, taken, -, stops⟩ := exists_takeWhile (· != '/') raw.toList
  have noBracket : ∀ c ∈ Text.dropBlanks front, c ≠ '<' ∧ c ≠ '>' := by
    intro c hc
    rcases piece c (taken ▸ List.mem_of_mem_filter hc) with word | rfl | gap
    · exact ⟨ne_of_continuesWord word (by decide) (by decide),
        ne_of_continuesWord word (by decide) (by decide)⟩
    · decide
    · constructor <;> rintro rfl <;> cases gap
  have bare : outsideBrackets 0 (Text.dropBlanks raw.toList) =
      Text.dropBlanks front ++ outsideBrackets 0 (Text.dropBlanks rest) := by
    rw [split, dropBlanks_append, outsideBrackets_append noBracket]
  rw [erase, clean, String.toList_ofList, dropBlanks_idem, bare]
  cases rest with
  | nil =>
    rw [List.append_nil] at split
    have final : (Text.dropBlanks front).getLast? = some last :=
      getLast?_dropBlanks (split ▸ ends) solid
    have point : last ≠ '.' := ne_of_continuesWord word (by decide) (by decide)
    have square : last ≠ ']' := ne_of_continuesWord word (by decide) (by decide)
    have dots : stripBackAll ['.', '.', '.'] (Text.dropBlanks front) = Text.dropBlanks front :=
      stripBackAll_eq_self '.' rfl (by simp [final, point])
    have squares : stripBackAll ['[', ']'] (Text.dropBlanks front) = Text.dropBlanks front :=
      stripBackAll_eq_self ']' rfl (by simp [final, square])
    refine .inl ?_
    rw [show outsideBrackets 0 (Text.dropBlanks []) = [] from rfl, List.append_nil, dots, squares,
      split]
  | cons c rest =>
    obtain rfl : c = '/' := by simpa using stops c rfl
    refine .inr ?_
    rw [String.toList_ofList, show Text.dropBlanks ('/' :: rest) = '/' :: Text.dropBlanks rest from rfl,
      outsideBrackets_plain (by decide), if_pos rfl]
    exact mem_stripBackAll (mem_stripBackAll (by simp) (by decide)) (by decide)

end TypeText

namespace CompilationUnit

variable {unit : CompilationUnit}

theorem not_slash_mem {name : String} (h : isDottedName name) : '/' ∉ name.toList := by
  obtain ⟨first, rest, word, words, rfl⟩ := exists_words h
  rw [toList_dotted_cons, List.mem_append, List.mem_flatMap]
  rintro (mem | ⟨n, hn, mem⟩)
  · exact word.not_mem (by decide) (by decide) mem
  · exact (words n hn).not_mem (by decide) (by decide) ((List.mem_cons.1 mem).resolve_left (by decide))

/-- An annotation that is bound to a dotted name ends in the last part of that name. -/
theorem lastName_bound {raw bound : String} (piece : IsNamePiece raw.toList) {last : Char}
    (ends : raw.toList.getLast? = some last) (word : continuesWord last = true)
    (h : unit.resolve? (TypeText.clean raw) = some bound) (dotted : isDottedName bound) :
    TypeText.lastName (TypeText.clean raw) = TypeText.lastName bound := by
  obtain ⟨last, chars⟩ := resolve?_ends h
  rw [last]
  rcases TypeText.erase_namePiece piece ends word with whole | slash
  · rw [whole]
  · exact absurd (chars '/' slash) (not_slash_mem dotted)

end CompilationUnit

end JakartaCheck
