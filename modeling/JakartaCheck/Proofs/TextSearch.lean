import JakartaCheck.Text.Bytes

/-!
# Searching and cutting texts

A text is cut at the first separator (`splitOnce_eq_some_iff`), at the last one
(`exists_append_afterLast`) or at all of them. In the last case the parts are the only texts without
separators that, each behind a separator, make up the whole (`splitOn_eq_iff`).
-/

namespace JakartaCheck.Text

theorem occursIn_iff {piece cs : List Char} : occursIn piece cs ↔ piece <:+: cs := by
  induction cs with
  | nil => rw [List.infix_nil, occursIn, List.isEmpty_iff]
  | cons c cs ih => rw [occursIn, Bool.or_eq_true, List.isPrefixOf_iff_prefix, ih, List.infix_cons_iff]

/-! ### One cut -/

theorem splitOnce_eq_some_iff {sep : Char} {cs a b : List Char} :
    splitOnce sep cs = some (a, b) ↔ cs = a ++ sep :: b ∧ sep ∉ a := by
  induction cs generalizing a with
  | nil => simp [splitOnce]
  | cons c cs ih =>
    rw [splitOnce]
    by_cases hc : c = sep
    · subst hc
      cases a with
      | nil => simp
      | cons d a => simp; rintro rfl _; simp
    · rw [if_neg hc, Option.map_eq_some_iff]
      constructor
      · rintro ⟨⟨a', b'⟩, hsplit, heq⟩
        obtain ⟨rfl, rfl⟩ := Prod.mk.inj heq
        obtain ⟨rfl, hmem⟩ := ih.1 hsplit
        exact ⟨rfl, by simp [Ne.symm hc, hmem]⟩
      · rintro ⟨hcs, hmem⟩
        cases a with
        | nil => simp at hcs; exact absurd hcs.1 hc
        | cons d a =>
          obtain ⟨rfl, rfl⟩ := List.cons.inj hcs
          exact ⟨(a, b), ih.2 ⟨rfl, fun h => hmem (List.mem_cons_of_mem _ h)⟩, rfl⟩

theorem splitOnce_eq_none_iff {sep : Char} {cs : List Char} :
    splitOnce sep cs = none ↔ sep ∉ cs := by
  induction cs with
  | nil => simp [splitOnce]
  | cons c cs ih =>
    rw [splitOnce]
    by_cases hc : c = sep
    · simp [hc]
    · simp [hc, ih, Ne.symm hc]

theorem afterLast_append {sep : Char} {a b : List Char} (hb : sep ∉ b) :
    afterLast sep (a ++ sep :: b) = b := by
  have h : splitOnce sep (a ++ sep :: b).reverse = some (b.reverse, a.reverse) :=
    splitOnce_eq_some_iff.2 ⟨by simp, by simpa using hb⟩
  rw [afterLast, splitLast, h]
  simp

theorem afterLast_of_not_mem {sep : Char} {cs : List Char} (h : sep ∉ cs) : afterLast sep cs = cs := by
  have hnone : splitOnce sep cs.reverse = none := splitOnce_eq_none_iff.2 (by simpa using h)
  rw [afterLast, splitLast, hnone]
  rfl

/-- What follows the last separator, and what stands before it. -/
theorem exists_append_afterLast (separator : Char) (cs : List Char) : ∃ front,
    cs = front ++ afterLast separator cs ∧ separator ∉ afterLast separator cs ∧
      (front = [] ∨ front.getLast? = some separator) := by
  cases h : splitOnce separator cs.reverse with
  | none =>
    have hno : separator ∉ cs := by simpa using splitOnce_eq_none_iff.1 h
    refine ⟨[], ?_, ?_, .inl rfl⟩
    · rw [afterLast_of_not_mem hno, List.nil_append]
    · rwa [afterLast_of_not_mem hno]
  | some parts =>
    obtain ⟨line, front⟩ := parts
    obtain ⟨hcs, hno⟩ := splitOnce_eq_some_iff.1 h
    have hcs' : cs = front.reverse ++ separator :: line.reverse := by
      rw [← List.reverse_reverse cs, hcs]
      simp
    have hline : afterLast separator cs = line.reverse := by
      rw [hcs', afterLast_append (by simpa using hno)]
    refine ⟨front.reverse ++ [separator], ?_, ?_, .inr (by simp)⟩
    · rw [hline, hcs']
      simp
    · rw [hline]
      simpa using hno

/-! ### Cuts at all separators -/

/-- The parts have no separator in them, and put together with separators they are the whole. -/
theorem exists_splitOn_eq (sep : Char) (cs : List Char) : ∃ first rest, splitOn sep cs = first :: rest ∧
    cs = first ++ rest.flatMap (sep :: ·) ∧ ∀ part ∈ first :: rest, sep ∉ part := by
  induction cs with
  | nil => exact ⟨[], [], rfl, rfl, by simp⟩
  | cons c cs ih =>
    obtain ⟨first, rest, heq, hcs, hparts⟩ := ih
    rw [splitOn, heq]
    by_cases hc : c = sep
    · subst hc
      refine ⟨[], first :: rest, by simp, by rw [hcs]; simp, ?_⟩
      exact List.forall_mem_cons.2 ⟨by simp, hparts⟩
    · obtain ⟨hfirst, hrest⟩ := List.forall_mem_cons.1 hparts
      refine ⟨c :: first, rest, by simp [hc], by rw [hcs]; simp, List.forall_mem_cons.2 ⟨?_, hrest⟩⟩
      simp [Ne.symm hc, hfirst]

theorem splitOn_of_not_mem {sep : Char} {cs : List Char} (h : sep ∉ cs) : splitOn sep cs = [cs] := by
  induction cs with
  | nil => rfl
  | cons c cs ih =>
    obtain ⟨hc, hcs⟩ := not_or.1 (mt List.mem_cons.2 h)
    rw [splitOn, if_neg (Ne.symm hc), ih hcs]

theorem splitOn_append {sep : Char} {a : List Char} (h : sep ∉ a) (cs : List Char) :
    splitOn sep (a ++ sep :: cs) = a :: splitOn sep cs := by
  induction a with
  | nil => rw [List.nil_append, splitOn, if_pos rfl]
  | cons c a ih =>
    obtain ⟨hc, ha⟩ := not_or.1 (mt List.mem_cons.2 h)
    rw [List.cons_append, splitOn, if_neg (Ne.symm hc), ih ha]

/-- The parts are the only texts without separators that, each behind a separator, make up the
whole. -/
theorem splitOn_eq_iff {sep : Char} {cs : List Char} {parts : List (List Char)} :
    splitOn sep cs = parts ↔
      parts ≠ [] ∧ (∀ part ∈ parts, sep ∉ part) ∧ sep :: cs = parts.flatMap (sep :: ·) := by
  constructor
  · rintro rfl
    obtain ⟨first, rest, heq, hcs, hparts⟩ := exists_splitOn_eq sep cs
    rw [heq]
    exact ⟨nofun, hparts, congrArg (sep :: ·) hcs⟩
  · rintro ⟨hne, hparts, hcs⟩
    induction parts generalizing cs with
    | nil => exact absurd rfl hne
    | cons part parts ih =>
      obtain ⟨hpart, hparts⟩ := List.forall_mem_cons.1 hparts
      obtain rfl : cs = part ++ parts.flatMap (sep :: ·) := (List.cons.inj hcs).2
      cases parts with
      | nil =>
        rw [List.flatMap_nil, List.append_nil]
        exact splitOn_of_not_mem hpart
      | cons next rest =>
        have hrest : splitOn sep (next ++ rest.flatMap (sep :: ·)) = next :: rest := ih nofun hparts rfl
        rw [List.flatMap_cons, List.cons_append, splitOn_append hpart, hrest]

end JakartaCheck.Text
