import JakartaCheck.Proofs.EditLayout

/-!
# The normal form of a list of edits

The order in which edits are listed does not matter: what the checks see of them are their ranges,
and these come out of sorting in one order only (`map_range_sorted`). If the checks pass, no two
edits share a range and the sorted list itself is the same.

A normal form is `Separated`: each edit ends strictly before the next one starts. On such a list
sorting and joining change nothing, so it is its own normal form.
-/

namespace JakartaCheck.Edit

open Text (byteLen)

/-! ### The order of the list -/

/-- All that the checks see of an edit is its range. -/
theorem check_congr {text : String} {previous : Option ByteRange} {edits edits' : List Edit}
    (h : edits.map range = edits'.map range) :
    check text previous edits = check text previous edits' := by
  induction edits generalizing previous edits' with
  | nil =>
    obtain rfl : edits' = [] := by simpa using h.symm
    rfl
  | cons edit edits ih =>
    obtain ⟨edit', edits', rfl, hr, hrest⟩ := List.map_eq_cons_iff.1 h.symm
    rw [check, check, hr]
    simp only [ih hrest.symm]

theorem map_range_sorted {edits edits' : List Edit} (hp : edits.Perm edits') :
    (edits.mergeSort le).map range = (edits'.mergeSort le).map range := by
  have hperm : (edits.mergeSort le).Perm (edits'.mergeSort le) :=
    (List.mergeSort_perm edits le).trans (hp.trans (List.mergeSort_perm edits' le).symm)
  have hsorted : ∀ l : List Edit, ((l.mergeSort le).map range).Pairwise fun r s =>
      r.start < s.start ∨ (r.start = s.start ∧ r.stop ≤ s.stop) := fun l =>
    List.pairwise_map.2 ((pairwise_sorted l).imp le_iff.1)
  refine List.Perm.eq_of_pairwise (fun r s _ _ hrs hsr => ?_) (hsorted _) (hsorted _)
    (hperm.map range)
  exact ByteRange.ext (by omega) (by omega)

theorem normalize_eq_of_perm {text : String} {edits edits' : List Edit} (hp : edits.Perm edits') :
    normalize text edits = normalize text edits' := by
  have hcheck : check text none (edits.mergeSort le) = check text none (edits'.mergeSort le) :=
    check_congr (map_range_sorted hp)
  cases h : check text none (edits.mergeSort le) with
  | error e => simp [normalize, ← hcheck, h, bind, Except.bind]
  | ok _ =>
    have hperm := List.mergeSort_perm edits le
    have hperm' := List.mergeSort_perm edits' le
    have happ := check_sorted_eq_ok_iff.1 h
    have heq : edits.mergeSort le = edits'.mergeSort le :=
      (happ.perm hperm.symm).sorted_unique (hperm.trans (hp.trans hperm'.symm))
        (pairwise_sorted edits) (pairwise_sorted edits')
    rw [normalize, normalize, heq]

/-! ### Separated edits -/

/-- Each edit ends strictly before the next one starts. -/
def Separated (edits : List Edit) : Prop :=
  edits.Pairwise fun a b => a.range.stop < b.range.start

theorem Separated.sorted {edits : List Edit} (h : Separated edits) :
    edits.Pairwise fun a b => a.le b :=
  h.imp fun {a b} hab => le_iff.2 (.inl (by have := a.range.start_le_stop; omega))

theorem Separated.apart {edits : List Edit} (h : Separated edits) :
    edits.Pairwise fun a b => a.range.Apart b.range := by
  refine h.imp fun {a b} hab => ⟨.inl (Nat.le_of_lt hab), fun ⟨_, _, heq⟩ => ?_⟩
  have := a.range.start_le_stop
  omega

theorem Separated.joinTouching_eq {edits : List Edit} (h : Separated edits) :
    joinTouching edits = edits := by
  fun_induction joinTouching edits with
  | case1 => rfl
  | case2 => rfl
  | case3 a b edits htouch ih =>
    have := (List.pairwise_cons.1 h).1 b (List.mem_cons_self ..)
    omega
  | case4 a b edits _ ih => rw [ih (List.pairwise_cons.1 h).2]

/-- Joining moves no start of an edit to the left of all of them. -/
theorem le_start_joinTouching {edits : List Edit} {n : Nat} (h : ∀ e ∈ edits, n ≤ e.range.start) :
    ∀ e ∈ joinTouching edits, n ≤ e.range.start := by
  fun_induction joinTouching edits with
  | case1 => exact h
  | case2 => exact h
  | case3 a b edits _ ih =>
    obtain ⟨ha, hb, hrest⟩ : n ≤ a.range.start ∧ n ≤ b.range.start ∧
        ∀ e ∈ edits, n ≤ e.range.start := by simpa using h
    refine ih (List.forall_mem_cons.2 ⟨?_, hrest⟩)
    exact Nat.le_min.2 ⟨ha, hb⟩
  | case4 a b edits _ ih =>
    obtain ⟨ha, hrest⟩ := List.forall_mem_cons.1 h
    exact List.forall_mem_cons.2 ⟨ha, ih hrest⟩

theorem separated_joinTouching {edits : List Edit}
    (h : edits.Pairwise fun a b => a.range.stop ≤ b.range.start) : Separated (joinTouching edits) := by
  fun_induction joinTouching edits with
  | case1 => exact .nil
  | case2 => exact List.pairwise_singleton _ _
  | case3 a b edits _ ih =>
    obtain ⟨ha, hb⟩ := List.pairwise_cons.1 h
    obtain ⟨hb, hrest⟩ := List.pairwise_cons.1 hb
    refine ih (List.pairwise_cons.2 ⟨fun e he => ?_, hrest⟩)
    exact Nat.max_le.2 ⟨ha e (List.mem_cons_of_mem _ he), hb e he⟩
  | case4 a b edits htouch ih =>
    obtain ⟨ha, hb⟩ := List.pairwise_cons.1 h
    refine List.pairwise_cons.2 ⟨fun e he => ?_, ih hb⟩
    -- whatever `e` is joined from starts no sooner than `b`
    have hlow : ∀ x ∈ b :: edits, b.range.start ≤ x.range.start := by
      have := b.range.start_le_stop
      refine List.forall_mem_cons.2 ⟨Nat.le_refl _, fun x hx => ?_⟩
      have := (List.pairwise_cons.1 hb).1 x hx
      omega
    have := ha b (List.mem_cons_self ..)
    have := le_start_joinTouching hlow e he
    omega

/-- The edits of a layout fit. -/
theorem Laid.fits {text : String} {n : Nat} {cs : List Char} {edits : List Edit}
    (h : Laid n cs edits) (front : List Char) (htext : text.toList = front ++ cs)
    (hn : byteLen front = n) : ∀ edit ∈ edits, edit.range.Fits text := by
  induction h generalizing front with
  | nil => simp
  | @cons n kept gone rest edit edits hstart hstop _ ih =>
    have hcut : text.toList = front ++ kept ++ (gone ++ rest) := by simpa using htext
    have hcut' : text.toList = front ++ kept ++ gone ++ rest := by simpa using htext
    refine List.forall_mem_cons.2 ⟨⟨?_, ?_, ?_⟩, ih _ hcut' ?_⟩
    · rw [Text.length_eq, hcut']; simp only [Text.byteLen_append]; omega
    · exact Text.isBoundary_iff.2 ⟨_, _, hcut, by simp only [Text.byteLen_append]; omega⟩
    · exact Text.isBoundary_iff.2 ⟨_, _, hcut', by simp only [Text.byteLen_append]; omega⟩
    · simp only [Text.byteLen_append]; omega

theorem separated_of_normalize {text : String} {edits normal : List Edit}
    (h : normalize text edits = .ok normal) : Separated normal := by
  obtain ⟨happ, rfl⟩ := normalize_eq_ok_iff.1 h
  have hs := pairwise_sorted edits
  have hbefore := ((applicable_iff_of_sorted hs).1
    (happ.perm (List.mergeSort_perm edits le).symm)).2
  exact separated_joinTouching ((List.pairwise_map.1 hbefore).imp And.left)

theorem normalize_of_separated {text : String} {edits : List Edit} (hs : Separated edits)
    (hfits : ∀ edit ∈ edits, edit.range.Fits text) : normalize text edits = .ok edits := by
  refine normalize_eq_ok_iff.2 ⟨⟨hfits, hs.apart⟩, ?_⟩
  rw [List.mergeSort_of_pairwise hs.sorted, hs.joinTouching_eq]

/-- The outcome of `normalize` does not depend on the order of the list. A normal form is sorted and
separated, it is its own normal form, and it does to the text what the edits do. -/
theorem normalize_unique_normal_form (text : String) (edits : List Edit) :
    (∀ edits', edits'.Perm edits → normalize text edits' = normalize text edits) ∧
    ∀ normal, normalize text edits = .ok normal →
      (normal.Pairwise fun a b => a.le b ∧ a.range.stop < b.range.start) ∧
      normalize text normal = .ok normal ∧ applyAll text normal = applyAll text edits := by
  refine ⟨fun edits' hp => normalize_eq_of_perm hp, fun normal h => ?_⟩
  have hs := separated_of_normalize h
  have hself := normalize_of_separated hs ((laid_of_normalize h).1.fits [] rfl rfl)
  exact ⟨hs.sorted.and hs, hself, by rw [applyAll, applyAll, hself, h]⟩

/-- An insertion is joined to the replacement that follows it, wherever the two are listed. -/
theorem normalize_unique_normal_form_touching :
    normalize "abcdef" [.delete ⟨5, 6, by decide⟩, ⟨⟨2, 4, by decide⟩, "XX"⟩, .insert 2 "?"] =
        .ok [⟨⟨2, 4, by decide⟩, "?XX"⟩, .delete ⟨5, 6, by decide⟩] ∧
      applyAll "abcdef" [⟨⟨2, 4, by decide⟩, "?XX"⟩, .delete ⟨5, 6, by decide⟩] =
        applyAll "abcdef" [.delete ⟨5, 6, by decide⟩, ⟨⟨2, 4, by decide⟩, "XX"⟩, .insert 2 "?"] := by
  have hall := normalize_unique_normal_form "abcdef"
    [.delete ⟨5, 6, by decide⟩, ⟨⟨2, 4, by decide⟩, "XX"⟩, .insert 2 "?"]
  have hsorted : normalize "abcdef"
      [.insert 2 "?", ⟨⟨2, 4, by decide⟩, "XX"⟩, .delete ⟨5, 6, by decide⟩] =
        .ok [⟨⟨2, 4, by decide⟩, "?XX"⟩, .delete ⟨5, 6, by decide⟩] := by
    refine normalize_eq_ok_iff.2 ⟨⟨by decide, by decide⟩, ?_⟩
    rw [List.mergeSort_of_pairwise (by decide)]
    simp [joinTouching, join, insert, delete, ByteRange.point, ByteRange.cover]
  rw [hall.1 _ (by decide)] at hsorted
  exact ⟨hsorted, (hall.2 _ hsorted).2.2⟩

end JakartaCheck.Edit
