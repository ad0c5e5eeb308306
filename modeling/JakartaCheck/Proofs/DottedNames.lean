import JakartaCheck.Java.Binding
import JakartaCheck.Java.Productions
import JakartaCheck.Proofs.TextSearch

/-!
# Dotted names

A dotted name is made of identifiers with points between them (`Java.isDottedName`). Identifiers are
words (`Java.IsWord`), and neither marks nor white space stand in a word, so that cutting a dotted name
at its points gives the identifiers back.
-/

namespace JakartaCheck

namespace Java

/-! ### The characters of words -/

/-- Among the ASCII characters, words start with letters, `_` and `$`. -/
theorem startsWord_eq_of_ascii {c : Char} (hc : c.toNat < 128) :
    startsWord c = (c.isAlpha || c == '_' || c == '$') := by
  simp [startsWord, isForeign, Nat.not_le.2 hc]

/-- Among the ASCII characters, words are made of letters, digits, `_` and `$`. -/
theorem continuesWord_of_ascii {c : Char} (hc : c.toNat < 128) :
    continuesWord c = (c.isAlpha || c == '_' || c == '$' || c.isDigit) := by
  simp [continuesWord, startsWord_eq_of_ascii hc, isForeign, Nat.not_le.2 hc]

/-- The run lies between two neighbouring runs of white space, the last of them first. -/
def hasNoBlank (run : Nat × Nat) : Bool :=
  0x3000 < run.1 || (0x205F < run.1 && run.2 < 0x3000) || (0x202F < run.1 && run.2 < 0x205F) ||
    (0x2029 < run.1 && run.2 < 0x202F) || (0x200A < run.1 && run.2 < 0x2028) ||
    (0x1680 < run.1 && run.2 < 0x2000) || (0xA0 < run.1 && run.2 < 0x1680)

theorem inRuns_of_isBlank {runs : List (Nat × Nat)} (hruns : runs.all hasNoBlank) {c : Char}
    (hc : Text.isBlank c) : Text.inRuns runs c = false := by
  rw [Text.inRuns, List.any_eq_false]
  intro run hrun
  have hfree := List.all_eq_true.1 hruns run hrun
  simp only [hasNoBlank, Text.isBlank, Bool.or_eq_true, Bool.and_eq_true, decide_eq_true_eq,
    beq_iff_eq] at hfree hc
  simp only [Bool.and_eq_true, decide_eq_true_eq, not_and]
  omega

/-- The codes of the ASCII letters. -/
theorem toNat_of_isAlpha {c : Char} (h : c.isAlpha = true) :
    0x41 ≤ c.toNat ∧ c.toNat ≤ 0x5A ∨ 0x61 ≤ c.toNat ∧ c.toNat ≤ 0x7A := by
  have letter : (decide (c.val ≥ 'A'.val ∧ c.val ≤ 'Z'.val) ||
      (decide (c.val ≥ 'a'.val) && decide (c.val ≤ 'z'.val))) = true := h
  simp only [Bool.or_eq_true, Bool.and_eq_true, decide_eq_true_eq, ge_iff_le,
    UInt32.le_iff_toNat_le] at letter
  exact letter

theorem toNat_lt_of_plain {c : Char} (h : (c.isAlpha || c == '_' || c == '$' || c.isDigit) = true) :
    c.toNat < 128 := by
  simp only [Char.isDigit, Bool.or_eq_true, Bool.and_eq_true, decide_eq_true_eq, beq_iff_eq,
    ge_iff_le, UInt32.le_iff_toNat_le, Char.toNat_val] at h
  rcases h with ((h | rfl) | rfl) | h
  · have := toNat_of_isAlpha h
    omega
  · decide
  · decide
  · exact Nat.lt_of_le_of_lt h.2 (by decide)

/-- White space stands in no word. -/
theorem not_continuesWord_of_isBlank {c : Char} (hc : Text.isBlank c) : continuesWord c = false := by
  have hplain : (c.isAlpha || c == '_' || c == '$' || c.isDigit) = false := by
    refine Bool.eq_false_iff.2 fun hne => ?_
    have hascii := toNat_lt_of_plain hne
    simp only [Text.isBlank, Bool.or_eq_true, Bool.and_eq_true, decide_eq_true_eq, beq_iff_eq] at hc
    have hmem : c.toNat ∈ [9, 10, 11, 12, 13, 0x20] := by simp; omega
    have hall : ∀ n ∈ [9, 10, 11, 12, 13, 0x20], ((Char.ofNat n).isAlpha || Char.ofNat n == '_' ||
        Char.ofNat n == '$' || (Char.ofNat n).isDigit) = false := by decide
    have hno := hall _ hmem
    rw [Char.ofNat_toNat, hne] at hno
    cases hno
  have hletter : Text.inRuns Text.letterRuns c = false := inRuns_of_isBlank (by decide +kernel) hc
  have hfurther : Text.inRuns furtherStartRuns c = false := inRuns_of_isBlank (by decide +kernel) hc
  have hdigit : Text.inRuns digitRuns c = false := inRuns_of_isBlank (by decide +kernel) hc
  have hextender : Text.inRuns Text.extenderRuns c = false :=
    inRuns_of_isBlank (by decide +kernel) hc
  have hspacing : Text.inRuns Text.spacingMarkRuns c = false :=
    inRuns_of_isBlank (by decide +kernel) hc
  have hjoiner : Text.inRuns joinerRuns c = false := inRuns_of_isBlank (by decide +kernel) hc
  simp only [Bool.or_eq_false_iff] at hplain
  simp [continuesWord, startsWord, Text.isLetter, Text.isMark, Text.isExtender, hletter, hfurther,
    hdigit, hextender, hspacing, hjoiner, hplain]

theorem ne_of_continuesWord {c mark : Char} (word : continuesWord c = true)
    (ascii : mark.toNat < 128)
    (no : (mark.isAlpha || mark == '_' || mark == '$' || mark.isDigit) = false) : c ≠ mark := by
  rintro rfl
  rw [continuesWord_of_ascii ascii, no] at word
  cases word

/-! ### Words -/

/-- Letters, digits and the like: an identifier or a keyword. -/
def IsWord (name : String) : Prop := name.toList ≠ [] ∧ ∀ c ∈ name.toList, continuesWord c

-- along the list: where `Fintype Char` is in scope, all characters would be tried
instance (name : String) : Decidable (IsWord name) :=
  decidable_of_iff (name.toList ≠ [] ∧ name.toList.all continuesWord)
    (and_congr_right fun _ => List.all_eq_true)

namespace IsWord

variable {name : String}

/-- A mark such as a point or a bracket stands in no word. -/
theorem not_mem (h : IsWord name) {mark : Char} (ascii : mark.toNat < 128)
    (no : (mark.isAlpha || mark == '_' || mark == '$' || mark.isDigit) = false) :
    mark ∉ name.toList :=
  fun mem => ne_of_continuesWord (h.2 mark mem) ascii no rfl

theorem not_point_mem (h : IsWord name) : '.' ∉ name.toList :=
  h.not_mem (by decide) (by decide)

theorem dropBlanks_eq (h : IsWord name) : Text.dropBlanks name.toList = name.toList := by
  refine List.filter_eq_self.2 fun c hc => ?_
  cases blank : Text.isBlank c
  · rfl
  · have word := h.2 c hc
    rw [not_continuesWord_of_isBlank blank] at word
    cases word

end IsWord

/-! ### Identifiers and dotted names -/

/-- A word that is no keyword. -/
def isIdentifier (cs : List Char) : Bool :=
  match cs with
  | c :: rest => startsWord c && rest.all continuesWord && !keywords.contains (String.ofList cs)
  | [] => false

/-- Identifiers with points between them. -/
def isDottedName (name : String) : Bool := (Text.splitOn '.' name.toList).all isIdentifier

theorem isIdentifier_cons {c : Char} {cs : List Char} (h : isIdentifier (c :: cs)) :
    startsWord c ∧ (∀ d ∈ cs, continuesWord d) ∧ String.ofList (c :: cs) ∉ keywords := by
  simpa [isIdentifier, and_assoc] using h

theorem isIdentifier_ne_nil {cs : List Char} (h : isIdentifier cs) : cs ≠ [] := by
  rintro rfl
  cases h

theorem continuesWord_of_startsWord {c : Char} (h : startsWord c) : continuesWord c := by
  simp [continuesWord, h]

theorem isWord_of_isIdentifier {cs : List Char} (h : isIdentifier cs) : IsWord (String.ofList cs) := by
  rw [IsWord, String.toList_ofList]
  refine ⟨isIdentifier_ne_nil h, ?_⟩
  cases cs with
  | nil => simp
  | cons c cs =>
    obtain ⟨hstart, hrest, -⟩ := isIdentifier_cons h
    exact List.forall_mem_cons.2 ⟨continuesWord_of_startsWord hstart, hrest⟩

theorem exists_parts {name : String} (h : isDottedName name) : ∃ first rest,
    (∀ part ∈ first :: rest, isIdentifier part) ∧ name.toList = first ++ rest.flatMap ('.' :: ·) := by
  obtain ⟨first, rest, heq, hname, -⟩ := Text.exists_splitOn_eq '.' name.toList
  rw [isDottedName, heq, List.all_eq_true] at h
  exact ⟨first, rest, h, hname⟩

theorem not_point_mem {part : List Char} (h : isIdentifier part) : '.' ∉ part := by
  simpa using (isWord_of_isIdentifier h).not_point_mem

/-- The last part of a dotted name, and what stands before it. -/
theorem exists_last_part {first : List Char} {rest : List (List Char)}
    (h : ∀ part ∈ first :: rest, isIdentifier part) : ∃ last, isIdentifier last ∧
      ((rest = [] ∧ first = last) ∨
        ∃ before, first ++ rest.flatMap ('.' :: ·) = before ++ '.' :: last) := by
  rcases rest.eq_nil_or_concat with rfl | ⟨init, last, rfl⟩
  · exact ⟨first, h first (by simp), .inl ⟨rfl, rfl⟩⟩
  · refine ⟨last, h last (by simp), .inr ⟨first ++ init.flatMap ('.' :: ·), by simp⟩⟩

theorem isIdentifier_lastName {name : String} (h : isDottedName name) :
    isIdentifier (TypeText.lastName name).toList := by
  obtain ⟨first, rest, hparts, hname⟩ := exists_parts h
  obtain ⟨last, hlast, ⟨rfl, rfl⟩ | ⟨before, heq⟩⟩ := exists_last_part hparts
  · rw [TypeText.lastName, hname, List.flatMap_nil, List.append_nil,
      Text.afterLast_of_not_mem (not_point_mem hlast), String.toList_ofList]
    exact hlast
  · rw [TypeText.lastName, hname, heq, Text.afterLast_append (not_point_mem hlast),
      String.toList_ofList]
    exact hlast

end Java

end JakartaCheck
