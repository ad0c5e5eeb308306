import JakartaCheck.Proofs.EditNormalForm

/-!
# Taking edits back

Each edit of a normal form is taken back by one edit of the text that comes out (`Edit.undo`): what
was put in gives way to what was there. Edits further to the left have moved it by what they put in
less what they took out. A layout of the edits is one of the edits that take them back, with the same
pieces kept and the others exchanged, and what lies between two edits stays the same, so that they are
in normal form as well (`Laid.undo`).
-/

namespace JakartaCheck.Edit

open Text (byteLen)

/-- By how much the edit makes a text longer. -/
def growth (edit : Edit) : Int :=
  Text.length edit.replacement - (edit.range.stop - edit.range.start)

/-- The edits that take back normalized edits of `text`, which have been moved by `shift`. A cut that
does not fit is a fault. -/
def undo (text : String) (shift : Int) : List Edit → Outcome (List Edit)
  | [] => return []
  | edit :: edits => do
    let gone ← Text.slice text edit.range.start edit.range.stop
    let start := (edit.range.start + shift).toNat
    let back ← undo text (shift + edit.growth) edits
    return ⟨⟨start, start + Text.length edit.replacement, Nat.le_add_right ..⟩, gone⟩ :: back

theorem undo_cons {text : String} {shift : Int} {edit : Edit} {edits back : List Edit}
    {gone : List Char} {start : Nat}
    (hgone : Text.slice text edit.range.start edit.range.stop = .ok (String.ofList gone))
    (hstart : edit.range.start + shift = start)
    (hback : undo text (shift + edit.growth) edits = .ok back) :
    undo text shift (edit :: edits) =
      .ok (⟨⟨start, start + Text.length edit.replacement, Nat.le_add_right ..⟩, String.ofList gone⟩ ::
        back) := by
  simp [undo, hgone, hstart, hback, bind, Except.bind, pure, Except.pure]

/-- The edited text is laid out by the edits that take the edits back, and they spell the text. -/
theorem Laid.undo {text : String} {n m : Nat} {cs : List Char} {edits : List Edit}
    (h : Laid n cs edits) (front : List Char) (htext : text.toList = front ++ cs)
    (hn : byteLen front = n) {shift : Int} (hm : n + shift = m) :
    ∃ back, undo text shift edits = .ok back ∧ Laid m (splice n edits cs) back ∧
      splice m back (splice n edits cs) = cs ∧
      (Separated edits → Separated back ∧
        ((∀ e ∈ edits, n < e.range.start) → ∀ e ∈ back, m < e.range.start)) := by
  induction h generalizing front m shift with
  | nil n cs => exact ⟨[], rfl, .nil _ _, rfl, fun _ => ⟨.nil, by simp⟩⟩
  | @cons n kept gone rest edit edits hstart hstop _ ih =>
    have hcut : text.toList = (front ++ kept) ++ (gone ++ rest) := by simpa using htext
    have hgone : Text.slice text edit.range.start edit.range.stop = .ok (String.ofList gone) :=
      Text.slice_eq_ok hcut (by rw [Text.byteLen_append]; omega) hstop.symm
    have hgrowth : edit.growth = byteLen edit.replacement.toList - byteLen gone := by
      rw [growth, Text.length_eq]
      omega
    -- behind the edit the text has moved by the growth of the edit as well
    have hnext : edit.range.stop + (shift + edit.growth) =
        (m + byteLen kept + byteLen edit.replacement.toList : Nat) := by
      rw [hgrowth]
      omega
    obtain ⟨back, hback, hlaid, hsplice, hsep⟩ := ih (front ++ kept ++ gone) (by simpa using htext)
      (by simp only [Text.byteLen_append]; omega) hnext
    have hfirst : (edit.range.start : Int) + shift = (m + byteLen kept : Nat) := by omega
    refine ⟨_, undo_cons hgone hfirst hback, ?_, ?_, fun h => ?_⟩
    · rw [splice_cons hstart hstop, List.append_assoc]
      exact .cons kept edit.replacement.toList rfl rfl hlaid
    · rw [splice_cons hstart hstop, List.append_assoc, splice_cons rfl rfl]
      rw [Text.length_eq, hsplice, String.toList_ofList, List.append_assoc]
    · obtain ⟨hnext, hedits⟩ := List.pairwise_cons.1 h
      obtain ⟨hback', hlow⟩ := hsep hedits
      have hlow := hlow hnext
      refine ⟨List.pairwise_cons.2 ⟨hlow, hback'⟩, fun hn => List.forall_mem_cons.2 ⟨?_, fun e he => ?_⟩⟩
      · have := hn edit (List.mem_cons_self ..)
        show m < m + byteLen kept
        omega
      · have := hlow e he
        omega

/-- Edits can be taken back: the normal form has a list of edits that fits the edited text and gives
the text itself. -/
theorem applyAll_undo {text : String} {edits normal : List Edit}
    (h : normalize text edits = .ok normal) : ∃ out back, applyAll text edits = .ok out ∧
      undo text 0 normal = .ok back ∧ applyAll out back = .ok text := by
  obtain ⟨hlaid, -⟩ := laid_of_normalize h
  obtain ⟨back, hback, hlaid', hsplice, hsep⟩ := hlaid.undo [] rfl rfl (Int.add_zero 0)
  have hback' := (hsep (separated_of_normalize h)).1
  have hout : applyAll text edits = .ok (String.ofList (splice 0 normal text.toList)) := by
    rw [applyAll, h]
    rfl
  refine ⟨_, back, hout, hback, ?_⟩
  rw [applyAll, normalize_of_separated hback' (hlaid'.fits [] (by simp) rfl)]
  show Except.ok (String.ofList (splice 0 back (String.ofList _).toList)) = _
  rw [String.toList_ofList, hsplice, String.ofList_toList]

/-- A replacement by a longer text, a deletion and an insertion at the end. -/
theorem applyAll_undo_growing :
    normalize "aéb-c" [⟨⟨1, 3, by decide⟩, "xyz!"⟩, .delete ⟨4, 5, by decide⟩, .insert 6 "é"] =
        .ok [⟨⟨1, 3, by decide⟩, "xyz!"⟩, .delete ⟨4, 5, by decide⟩, .insert 6 "é"] ∧
      applyAll "axyz!bcé" [⟨⟨1, 5, by decide⟩, "é"⟩, .insert 6 "-", .delete ⟨7, 9, by decide⟩] =
        .ok "aéb-c" := by
  have h : normalize "aéb-c" [⟨⟨1, 3, by decide⟩, "xyz!"⟩, .delete ⟨4, 5, by decide⟩, .insert 6 "é"] =
      .ok [⟨⟨1, 3, by decide⟩, "xyz!"⟩, .delete ⟨4, 5, by decide⟩, .insert 6 "é"] :=
    normalize_of_separated (by unfold Separated; decide) (by decide)
  obtain ⟨out, back, hout, hback, happly⟩ := applyAll_undo h
  obtain rfl : "axyz!bcé" = out := by
    rw [applyAll, h] at hout
    exact Except.ok.inj hout
  obtain rfl : [⟨⟨1, 5, by decide⟩, "é"⟩, .insert 6 "-", .delete ⟨7, 9, by decide⟩] = back :=
    Except.ok.inj hback
  exact ⟨h, happly⟩

end JakartaCheck.Edit
