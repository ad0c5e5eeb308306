import JakartaCheck.Proofs.Cutting
import JakartaCheck.Text.Edit
import Mathlib.Data.List.Pairwise

/-!
# Which edits can be applied, and what they do

A list of edits is applicable to a text (`Edit.Applicable`) if each range cuts a piece out of the
text and any two ranges are apart. This says nothing of an order; `normalize` sorts the edits and
then compares neighbours only. The link is `ByteRange.Before`, which is transitive: on a sorted list
neighbours come one before the other exactly if all pairs are apart.

Sorted applicable edits cut the text into pieces that are kept and pieces that are replaced
(`Edit.Laid`). Joining edits that touch keeps such a layout and the text it spells
(`Laid.joinTouching`), and from a layout one reads off that no cut fails (`Laid.pieces_eq_ok`) and
that replacing one range after the other, from the last to the first, spells the same text
(`Laid.foldrM_replaceOne`).
-/

namespace JakartaCheck

open Text (byteLen CutAt)

namespace ByteRange

/-- The range cuts a piece out of the text: it ends inside, and both its ends lie between
characters. -/
def Fits (text : String) (r : ByteRange) : Prop :=
  r.stop ≤ Text.length text ∧ Text.isBoundary text r.start ∧ Text.isBoundary text r.stop

/-- One of the ranges ends before the other starts, and they are not both empty at one place. -/
def Apart (r s : ByteRange) : Prop :=
  (r.stop ≤ s.start ∨ s.stop ≤ r.start) ∧ ¬ (r.isEmpty ∧ s.isEmpty ∧ r.start = s.start)

/-- `r` ends before `s` starts, and they are not both empty at one place. -/
def Before (r s : ByteRange) : Prop :=
  r.stop ≤ s.start ∧ ¬ (r.isEmpty ∧ s.isEmpty ∧ r.start = s.start)

instance (text : String) (r : ByteRange) : Decidable (r.Fits text) :=
  inferInstanceAs (Decidable (_ ∧ _ ∧ _))

instance (r s : ByteRange) : Decidable (r.Apart s) := inferInstanceAs (Decidable (_ ∧ ¬ _))

theorem isEmpty_iff {r : ByteRange} : r.isEmpty ↔ r.start = r.stop := by
  simp [isEmpty]

theorem ext {r s : ByteRange} (hstart : r.start = s.start) (hstop : r.stop = s.stop) : r = s := by
  cases r; cases s; simp_all

theorem Apart.symm {r s : ByteRange} (h : r.Apart s) : s.Apart r :=
  ⟨h.1.symm, fun ⟨hs, hr, heq⟩ => h.2 ⟨hr, hs, heq.symm⟩⟩

theorem not_apart_self (r : ByteRange) : ¬ r.Apart r := by
  intro h
  have := r.start_le_stop
  exact h.2 ⟨isEmpty_iff.2 (by have := h.1; omega), isEmpty_iff.2 (by have := h.1; omega), rfl⟩

theorem Before.apart {r s : ByteRange} (h : r.Before s) : r.Apart s := ⟨.inl h.1, h.2⟩

theorem Before.trans {r s t : ByteRange} (hrs : r.Before s) (hst : s.Before t) : r.Before t := by
  obtain ⟨hle, hne⟩ := hrs
  have hle' := hst.1
  have hs := s.start_le_stop
  refine ⟨by omega, ?_⟩
  rintro ⟨hr, -, heq⟩
  have hr' := isEmpty_iff.1 hr
  -- `s` lies between two ranges that are empty at one place, so it is empty there as well
  exact hne ⟨hr, isEmpty_iff.2 (by omega), by omega⟩

instance : IsTrans ByteRange Before := ⟨fun _ _ _ => Before.trans⟩

end ByteRange

namespace Edit

/-- The edits make sense together for the text, in whatever order they are listed. -/
structure Applicable (text : String) (edits : List Edit) : Prop where
  fits : ∀ edit ∈ edits, edit.range.Fits text
  apart : edits.Pairwise fun a b => a.range.Apart b.range

/-! ### The checks -/

theorem checkRange_eq_ok {text : String} {r : ByteRange} :
    checkRange text r = .ok () ↔ r.Fits text := by
  unfold checkRange ByteRange.Fits
  split
  · simp; omega
  · split
    · simp_all
    · split <;> simp_all

theorem clash_eq_false {r s : ByteRange} : clash r s = false ↔ r.Before s := by
  unfold clash ByteRange.Before
  by_cases h : s.start < r.stop
  · have h' : ¬ r.stop ≤ s.start := by omega
    simp [h, h']
  · simp [h, Nat.le_of_not_lt h]

theorem check_cons {text : String} {previous : Option ByteRange} {edit : Edit} {edits : List Edit} :
    check text previous (edit :: edits) = .ok () ↔ edit.range.Fits text ∧
      (∀ r ∈ previous, r.Before edit.range) ∧ check text (some edit.range) edits = .ok () := by
  rw [← checkRange_eq_ok, check]
  simp only [bind, Except.bind]
  cases hr : checkRange text edit.range with
  | error e => simp
  | ok u =>
    cases previous with
    | none => simp
    | some r =>
      cases hc : clash r edit.range with
      | true => simp [← clash_eq_false, hc, throw, throwThe, MonadExceptOf.throw]
      | false => simp [← clash_eq_false, hc]

/-- The loop accepts a list exactly if every range fits and each comes before all later ones. -/
theorem check_eq_ok_iff {text : String} {previous : Option ByteRange} {edits : List Edit} :
    check text previous edits = .ok () ↔ (∀ edit ∈ edits, edit.range.Fits text) ∧
      (previous.toList ++ edits.map range).Pairwise ByteRange.Before := by
  induction edits generalizing previous with
  | nil => cases previous <;> simp [check]
  | cons edit edits ih =>
    rw [check_cons, ih, List.forall_mem_cons]
    cases previous with
    | none => simp [and_assoc]
    | some r =>
      simp only [Option.toList_some, List.map_cons, List.cons_append, List.nil_append,
        List.pairwise_cons_cons_iff_of_trans]
      simp only [Option.mem_def, Option.some.injEq, forall_eq']
      constructor
      · rintro ⟨he, hr, hes, hp⟩; exact ⟨⟨he, hes⟩, hr, hp⟩
      · rintro ⟨⟨he, hes⟩, hr, hp⟩; exact ⟨he, hr, hes, hp⟩

/-! ### The order of sorted edits -/

theorem le_iff {a b : Edit} : a.le b ↔ a.range.start < b.range.start ∨
    (a.range.start = b.range.start ∧ a.range.stop ≤ b.range.stop) := by
  simp [le]

theorem le_trans (a b c : Edit) (hab : a.le b) (hbc : b.le c) : a.le c := by
  rw [le_iff] at *
  omega

theorem le_total (a b : Edit) : a.le b || b.le a := by
  rw [Bool.or_eq_true, le_iff, le_iff]
  omega

theorem range_eq_of_le_of_le {a b : Edit} (hab : a.le b) (hba : b.le a) : a.range = b.range := by
  rw [le_iff] at *
  exact ByteRange.ext (by omega) (by omega)

theorem pairwise_sorted (edits : List Edit) : (edits.mergeSort le).Pairwise fun a b => a.le b :=
  List.pairwise_mergeSort le_trans le_total edits

/-- Of two edits in order, being apart means that the first comes before the second. -/
theorem apart_iff_before {a b : Edit} (hab : a.le b) : a.range.Apart b.range ↔ a.range.Before b.range := by
  refine ⟨fun h => ⟨?_, h.2⟩, ByteRange.Before.apart⟩
  rcases h.1 with hle | hle
  · exact hle
  -- otherwise `b` ends where `a` starts, and being in order both are empty there
  · rw [le_iff] at hab
    have ha := a.range.start_le_stop
    have hb := b.range.start_le_stop
    exact absurd ⟨ByteRange.isEmpty_iff.2 (by omega), ByteRange.isEmpty_iff.2 (by omega), by omega⟩ h.2

theorem Applicable.perm {text : String} {edits edits' : List Edit} (h : Applicable text edits)
    (hp : edits.Perm edits') : Applicable text edits' :=
  ⟨fun e he => h.fits e (hp.mem_iff.2 he), h.apart.perm hp ByteRange.Apart.symm⟩

theorem applicable_iff_of_sorted {text : String} {edits : List Edit}
    (hs : edits.Pairwise fun a b => a.le b) : Applicable text edits ↔
      (∀ edit ∈ edits, edit.range.Fits text) ∧ (edits.map range).Pairwise ByteRange.Before := by
  have hpair : edits.Pairwise (fun a b => a.range.Apart b.range) ↔
      (edits.map range).Pairwise ByteRange.Before := by
    rw [List.pairwise_map]
    exact ⟨fun h => (hs.and h).imp fun ⟨hle, hap⟩ => (apart_iff_before hle).1 hap,
      fun h => h.imp ByteRange.Before.apart⟩
  rw [← hpair]
  exact ⟨fun h => ⟨h.fits, h.apart⟩, fun h => ⟨h.1, h.2⟩⟩

/-- Sorting applicable edits leaves no choice: no two of them have the same range. -/
theorem Applicable.sorted_unique {text : String} {edits edits' : List Edit}
    (h : Applicable text edits) (hp : edits.Perm edits') (hs : edits.Pairwise fun a b => a.le b)
    (hs' : edits'.Pairwise fun a b => a.le b) : edits = edits' := by
  refine List.Perm.eq_of_pairwise (fun a b ha hb hab hba => ?_) hs hs' hp
  have : Std.Symm fun a b : Edit => a.range.Apart b.range := ⟨fun _ _ => ByteRange.Apart.symm⟩
  by_contra hne
  have hap := h.apart.forall ha (hp.mem_iff.2 hb) hne
  rw [range_eq_of_le_of_le hab hba] at hap
  exact ByteRange.not_apart_self _ hap

theorem check_sorted_eq_ok_iff {text : String} {edits : List Edit} :
    check text none (edits.mergeSort le) = .ok () ↔ Applicable text edits := by
  have hp := List.mergeSort_perm edits le
  rw [check_eq_ok_iff, Option.toList_none, List.nil_append,
    ← applicable_iff_of_sorted (pairwise_sorted edits)]
  exact ⟨fun h => h.perm hp, fun h => h.perm hp.symm⟩

theorem normalize_eq_ok_iff {text : String} {edits normal : List Edit} :
    normalize text edits = .ok normal ↔
      Applicable text edits ∧ joinTouching (edits.mergeSort le) = normal := by
  rw [← check_sorted_eq_ok_iff, normalize]
  cases check text none (edits.mergeSort le) <;> simp [bind, Except.bind, pure, Except.pure]

/-! ### Layouts -/

/-- The edits, in this order, cut `cs`, which starts at offset `n`, into pieces that are kept and
pieces that are replaced. -/
inductive Laid : Nat → List Char → List Edit → Prop where
  | nil (n : Nat) (cs : List Char) : Laid n cs []
  | cons {n : Nat} (kept gone : List Char) {rest : List Char} {edit : Edit} {edits : List Edit}
      (start_eq : edit.range.start = n + byteLen kept)
      (stop_eq : edit.range.stop = edit.range.start + byteLen gone)
      (tail : Laid edit.range.stop rest edits) :
      Laid n (kept ++ (gone ++ rest)) (edit :: edits)

/-- Edits that fit and come one before the other are laid out behind any front part of the text that
ends before the first of them. -/
theorem laid_of_fits {text : String} {edits : List Edit} (front : List Char) {cs : List Char}
    (htext : text.toList = front ++ cs) (hfits : ∀ edit ∈ edits, edit.range.Fits text)
    (hbefore : (edits.map range).Pairwise ByteRange.Before)
    (hfront : ∀ edit ∈ edits, byteLen front ≤ edit.range.start) : Laid (byteLen front) cs edits := by
  induction edits generalizing front cs with
  | nil => exact .nil _ _
  | cons edit edits ih =>
    obtain ⟨hfit, hfits⟩ := List.forall_mem_cons.1 hfits
    obtain ⟨hlow, -⟩ := List.forall_mem_cons.1 hfront
    obtain ⟨hnext, hbefore⟩ := List.pairwise_cons.1 hbefore
    obtain ⟨a, b, hab, ha⟩ := Text.isBoundary_iff.1 hfit.2.1
    obtain ⟨a', rest, hrest, ha'⟩ := Text.isBoundary_iff.1 hfit.2.2
    obtain ⟨kept, rfl, rfl⟩ := Text.exists_append_of_byteLen_le (htext.symm.trans hab) (by omega)
    obtain ⟨gone, rfl, rfl⟩ := Text.exists_append_of_byteLen_le (hab.symm.trans hrest)
      (by rw [ha, ha']; exact edit.range.start_le_stop)
    rw [Text.byteLen_append] at ha ha'
    refine .cons kept gone ha.symm (by rw [← ha', Text.byteLen_append, ha]) ?_
    rw [← ha', ← Text.byteLen_append]
    refine ih _ hrest hfits hbefore fun e he => ?_
    rw [Text.byteLen_append, ha']
    exact (hnext e.range (List.mem_map_of_mem he)).1

theorem Applicable.laid {text : String} {edits : List Edit} (h : Applicable text edits)
    (hs : edits.Pairwise fun a b => a.le b) : Laid 0 text.toList edits := by
  obtain ⟨hfits, hbefore⟩ := (applicable_iff_of_sorted hs).1 h
  exact laid_of_fits [] rfl hfits hbefore fun _ _ => Nat.zero_le _

theorem splice_cons {n : Nat} {kept gone rest : List Char} {edit : Edit} {edits : List Edit}
    (hstart : edit.range.start = n + byteLen kept)
    (hstop : edit.range.stop = edit.range.start + byteLen gone) :
    splice n (edit :: edits) (kept ++ (gone ++ rest)) =
      kept ++ edit.replacement.toList ++ splice edit.range.stop edits rest := by
  have hk : edit.range.start - n = byteLen kept := by omega
  have hg : edit.range.stop - n = byteLen (kept ++ gone) := by rw [Text.byteLen_append]; omega
  rw [splice, hk, hg, Text.takeBytes_append, ← List.append_assoc kept, Text.dropBytes_append]

/-- Two edits that touch may be joined: the layout stays one and spells the same text. -/
theorem Laid.join {n : Nat} {cs : List Char} {a b : Edit} {edits : List Edit}
    (h : Laid n cs (a :: b :: edits)) (htouch : a.range.stop = b.range.start) :
    Laid n cs (a.join b :: edits) ∧
      splice n (a.join b :: edits) cs = splice n (a :: b :: edits) cs := by
  obtain _ | ⟨kept, gone, hstart, hstop, htail⟩ := h
  obtain _ | ⟨kept', gone', hstart', hstop', htail⟩ := htail
  obtain rfl : kept' = [] := Text.byteLen_eq_zero.1 (by omega)
  have hstart'' : (a.join b).range.start = n + byteLen kept := by
    show min a.range.start b.range.start = _
    omega
  have hstop'' : (a.join b).range.stop = b.range.stop := by
    show max a.range.stop b.range.stop = _
    omega
  have hlen : (a.join b).range.stop = (a.join b).range.start + byteLen (gone ++ gone') := by
    rw [hstop'', hstart'', Text.byteLen_append]
    omega
  rw [List.nil_append, ← List.append_assoc gone]
  refine ⟨.cons kept (gone ++ gone') hstart'' hlen (by rwa [hstop'']), ?_⟩
  rw [splice_cons hstart'' hlen, hstop'', List.append_assoc gone, splice_cons hstart hstop,
    ← List.nil_append (gone' ++ _), splice_cons hstart' hstop']
  simp [Edit.join]

theorem Laid.joinTouching {n : Nat} {cs : List Char} {edits : List Edit} (h : Laid n cs edits) :
    Laid n cs (joinTouching edits) ∧ splice n (joinTouching edits) cs = splice n edits cs := by
  fun_induction Edit.joinTouching edits generalizing n cs with
  | case1 => exact ⟨h, rfl⟩
  | case2 => exact ⟨h, rfl⟩
  | case3 a b edits htouch ih =>
    obtain ⟨hjoin, heq⟩ := h.join htouch
    exact ⟨(ih hjoin).1, (ih hjoin).2.trans heq⟩
  | case4 a b edits _ ih =>
    obtain _ | ⟨kept, gone, hstart, hstop, htail⟩ := h
    refine ⟨.cons kept gone hstart hstop (ih htail).1, ?_⟩
    rw [splice_cons hstart hstop, splice_cons hstart hstop, (ih htail).2]

theorem laid_of_normalize {text : String} {edits normal : List Edit}
    (h : normalize text edits = .ok normal) : Laid 0 text.toList normal ∧
      splice 0 normal text.toList = splice 0 (edits.mergeSort le) text.toList := by
  obtain ⟨happ, rfl⟩ := normalize_eq_ok_iff.1 h
  exact ((happ.perm (List.mergeSort_perm edits le).symm).laid (pairwise_sorted edits)).joinTouching

/-! ### Cutting and replacing -/

/-- The text after normalized edits, put together from pieces that are cut out of `text` by their
offsets: a cut that does not fit is a fault. -/
def pieces (text : String) (cursor : Nat) : List Edit → Outcome String
  | [] => Text.slice text cursor (Text.length text)
  | edit :: edits => do
    let kept ← Text.slice text cursor edit.range.start
    let rest ← pieces text edit.range.stop edits
    return kept ++ edit.replacement ++ rest

/-- Like `applyAll`, with cuts that can fail. -/
def applyByCuts (text : String) (edits : List Edit) : Outcome (Except EditError String) :=
  match normalize text edits with
  | .ok edits => (pieces text 0 edits).map .ok
  | .error e => .ok (.error e)

/-- The text with one range replaced. -/
def replaceOne (text : String) (edit : Edit) : Outcome String := do
  let before ← Text.slice text 0 edit.range.start
  let after ← Text.slice text edit.range.stop (Text.length text)
  return before ++ edit.replacement ++ after

theorem Laid.pieces_eq_ok {text : String} {n : Nat} {cs : List Char} {edits : List Edit}
    (h : Laid n cs edits) (front : List Char) (htext : text.toList = front ++ cs)
    (hn : byteLen front = n) :
    pieces text n edits = .ok (String.ofList (splice n edits cs)) := by
  induction h generalizing front with
  | nil n cs =>
    rw [pieces, splice]
    refine Text.slice_eq_ok (b := []) (by simpa using htext) hn ?_
    rw [Text.length_eq, htext, Text.byteLen_append, hn]
  | @cons n kept gone rest edit edits hstart hstop _ ih =>
    have hkept : Text.slice text n edit.range.start = .ok (String.ofList kept) :=
      Text.slice_eq_ok htext hn hstart.symm
    have hrest := ih (front ++ kept ++ gone) (by simpa using htext)
      (by simp only [Text.byteLen_append]; omega)
    rw [pieces, splice_cons hstart hstop, hkept, hrest]
    simp [bind, Except.bind, pure, Except.pure, ← String.toList_inj]

/-- Replacing the ranges of a layout from the last to the first spells its text; the part in front
is not touched. -/
theorem Laid.foldrM_replaceOne {text : String} {n : Nat} {cs : List Char} {edits : List Edit}
    (h : Laid n cs edits) (front : List Char) (htext : text.toList = front ++ cs)
    (hn : byteLen front = n) : edits.foldrM (fun edit text => replaceOne text edit) text =
      .ok (String.ofList (front ++ splice n edits cs)) := by
  induction h generalizing front with
  | nil n cs =>
    rw [List.foldrM_nil, splice, ← htext, String.ofList_toList]
    rfl
  | @cons n kept gone rest edit edits hstart hstop _ ih =>
    rw [List.foldrM_cons, ih (front ++ kept ++ gone) (by simpa using htext)
      (by simp only [Text.byteLen_append]; omega), splice_cons hstart hstop]
    generalize splice edit.range.stop edits rest = done
    have hbefore : Text.slice (String.ofList (front ++ kept ++ gone ++ done)) 0 edit.range.start =
        .ok (String.ofList (front ++ kept)) :=
      Text.slice_eq_ok (a := []) (b := gone ++ done) (by simp) rfl
        (by simp only [Text.byteLen_append]; omega)
    have hafter : Text.slice (String.ofList (front ++ kept ++ gone ++ done)) edit.range.stop
        (Text.length (String.ofList (front ++ kept ++ gone ++ done))) = .ok (String.ofList done) :=
      Text.slice_eq_ok (a := front ++ kept ++ gone) (b := []) (by simp)
        (by simp only [Text.byteLen_append]; omega)
        (by simp only [Text.length_ofList, Text.byteLen_append]; omega)
    simp only [replaceOne, bind, Except.bind, hbefore, hafter]
    simp [pure, Except.pure, ← String.toList_inj]

theorem applyAll_eq_ok_iff {text out : String} {edits : List Edit} :
    applyAll text edits = .ok out ↔ Applicable text edits ∧
      String.ofList (splice 0 (edits.mergeSort le) text.toList) = out := by
  rw [applyAll]
  cases hn : normalize text edits with
  | ok normal =>
    have happ := (normalize_eq_ok_iff.1 hn).1
    simp [bind, Except.bind, pure, Except.pure, happ, (laid_of_normalize hn).2]
  | error e =>
    have : ¬ Applicable text edits := fun h => by
      rw [normalize_eq_ok_iff.2 ⟨h, rfl⟩] at hn
      cases hn
    simp [bind, Except.bind, this]

/-- No cut fails. The edits are applied exactly if they are applicable, and then the outcome is that
of replacing one range at a time, in decreasing order of the ranges. -/
theorem applyAll_replaces_iff_applicable (text : String) (edits : List Edit) :
    applyByCuts text edits = .ok (applyAll text edits) ∧
    ((∃ out, applyAll text edits = .ok out) ↔ Applicable text edits) ∧
    ∀ out, applyAll text edits = .ok out → ∀ order : List Edit, order.Perm edits →
      (order.Pairwise fun a b => b.le a) → order.foldlM replaceOne text = .ok out := by
  refine ⟨?_, ⟨?_, ?_⟩, ?_⟩
  · rw [applyByCuts, applyAll]
    cases hn : normalize text edits with
    | error e => rfl
    | ok normal =>
      show (pieces text 0 normal).map Except.ok = _
      rw [(laid_of_normalize hn).1.pieces_eq_ok [] rfl rfl]
      rfl
  · rintro ⟨out, h⟩
    exact (applyAll_eq_ok_iff.1 h).1
  · intro h
    exact ⟨_, applyAll_eq_ok_iff.2 ⟨h, rfl⟩⟩
  · intro out h order hp hs
    obtain ⟨happ, rfl⟩ := applyAll_eq_ok_iff.1 h
    have hsorted := pairwise_sorted edits
    have hperm := List.mergeSort_perm edits le
    -- read backwards the order is sorted, so it is the one that `normalize` finds
    have heq : edits.mergeSort le = order.reverse :=
      (happ.perm hperm.symm).sorted_unique
        (hperm.trans (hp.symm.trans order.reverse_perm.symm)) hsorted (List.pairwise_reverse.2 hs)
    have hlaid := (happ.perm hperm.symm).laid hsorted
    rw [← order.reverse_reverse, ← heq, List.foldlM_reverse]
    exact hlaid.foldrM_replaceOne [] rfl rfl

/-- An insertion and a replacement at one offset, and another pair that touches them. -/
theorem applyAll_replaces_touching :
    applyAll "aéb" [⟨⟨1, 3, by decide⟩, "X"⟩, .insert 3 "!", .insert 1 "<", .delete ⟨3, 4, by decide⟩] =
      .ok "a<X!" := by
  have h := applyAll_replaces_iff_applicable "aéb"
    [⟨⟨1, 3, by decide⟩, "X"⟩, .insert 3 "!", .insert 1 "<", .delete ⟨3, 4, by decide⟩]
  obtain ⟨out, hout⟩ := h.2.1.2 ⟨by decide, by decide⟩
  have hone := h.2.2 out hout
    [.delete ⟨3, 4, by decide⟩, .insert 3 "!", ⟨⟨1, 3, by decide⟩, "X"⟩, .insert 1 "<"]
    (by decide) (by decide)
  obtain rfl : out = "a<X!" := Except.ok.inj (hone.symm.trans rfl)
  exact hout

end Edit

end JakartaCheck
