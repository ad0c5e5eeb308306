import JakartaCheck.Fixes.Family
import JakartaCheck.Proofs.EditLayout
import JakartaCheck.Proofs.SourceLayout
import Mathlib.Data.List.Forall2

/-!
# Drafted edits fit together

A fix drafts its edits one by one, without looking at those it has already. That they can be applied
together rests on the white space around declarations: a removal takes blanks only
(`Draft.Removal`), so it reaches neither another declaration nor another removal, and a new import
goes where an import ends or before all types (`Imports.Place`).
-/

namespace JakartaCheck

namespace Text

/-- Only characters with the property `p` stand between the offsets. -/
def Filled (text : String) (p : Char → Bool) (start stop : Nat) : Prop :=
  ∃ a g b, text.toList = a ++ (g ++ b) ∧ byteLen a = start ∧ start + byteLen g = stop ∧ ∀ c ∈ g, p c

variable {text : String} {p : Char → Bool} {start stop offset : Nat} {c : Char}

theorem Filled.charAt? (h : Filled text p start stop) (hc : charAt? text offset = some c)
    (hstart : start ≤ offset) (hstop : offset < stop) : p c := by
  obtain ⟨a, g, b, htext, rfl, rfl, hg⟩ := h
  obtain ⟨a', b', htext', rfl⟩ := charAt?_eq_some_iff.1 hc
  obtain ⟨m, rfl, hrest⟩ := exists_append_of_byteLen_le (htext.symm.trans htext') hstart
  rw [byteLen_append] at hstop
  obtain ⟨w, rfl, hw⟩ := exists_append_of_byteLen_le hrest.symm (by omega)
  cases w with
  | nil => simp at hstop
  | cons d w =>
    obtain rfl := (List.cons.inj hw).1
    exact hg c (by simp)

theorem Filled.charBefore? (h : Filled text p start stop) (hc : charBefore? text offset = some c)
    (hstart : start < offset) (hstop : offset ≤ stop) : p c := by
  obtain ⟨a, g, b, htext, rfl, rfl, hg⟩ := h
  obtain ⟨a', b', htext', rfl⟩ := charBefore?_eq_some_iff.1 hc
  obtain ⟨m, hm, hrest⟩ :=
    exists_append_of_byteLen_le (htext.symm.trans htext') (Nat.le_of_lt hstart)
  rw [hm, byteLen_append] at hstop hstart
  obtain ⟨w, rfl, -⟩ := exists_append_of_byteLen_le hrest.symm (by omega)
  rcases m.eq_nil_or_concat with rfl | ⟨init, d, rfl⟩
  · simp at hstart
  · rw [List.concat_eq_append, ← List.append_assoc] at hm
    obtain rfl : c = d := by simpa using (List.append_inj' hm rfl).2
    exact hg c (by simp)

theorem Filled.refl (h : CutAt text.toList start) : Filled text p start start := by
  obtain ⟨a, b, htext, rfl⟩ := h
  exact ⟨a, [], b, htext, rfl, rfl, by simp⟩

end Text

namespace Span

variable {text : String} {s t : Span}

theorem Fits.exists_split (h : s.Fits text) : ∃ a m b, text.toList = a ++ (m ++ b) ∧
    Text.byteLen a = s.start ∧ s.start + Text.byteLen m = s.stop := by
  obtain ⟨a, rest, htext, ha⟩ := Text.isBoundary_iff.1 h.start_cut
  obtain ⟨a', b, htext', ha'⟩ := Text.isBoundary_iff.1 h.stop_cut
  have hne := h.nonempty
  obtain ⟨m, rfl, rfl⟩ := Text.exists_append_of_byteLen_le (htext.symm.trans htext') (by omega)
  rw [Text.byteLen_append] at ha'
  exact ⟨a, m, b, htext, ha, by omega⟩

theorem Fits.stop_le (h : s.Fits text) : s.stop ≤ Text.length text :=
  (Text.isBoundary_iff.1 h.stop_cut).le

theorem Solid.exists_first (h : s.Solid text) :
    ∃ c, Text.charAt? text s.start = some c ∧ Text.isBlank c = false := by
  have hfirst := h.first
  cases hc : Text.charAt? text s.start with
  | none => rw [hc] at hfirst; cases hfirst
  | some c => exact ⟨c, rfl, by simpa [hc] using hfirst⟩

theorem Solid.exists_last (h : s.Solid text) :
    ∃ c, Text.charBefore? text s.stop = some c ∧ Text.isBlank c = false := by
  have hlast := h.last
  cases hc : Text.charBefore? text s.stop with
  | none => rw [hc] at hlast; cases hlast
  | some c => exact ⟨c, rfl, by simpa [hc] using hlast⟩

theorem toRange_eq (h : s.start ≤ s.stop) (hsmall : s.stop < ByteRange.modulus) :
    s.toRange = .ok ⟨s.start, s.stop, h⟩ := by
  rw [toRange, Nat.mod_eq_of_lt (by omega), Nat.mod_eq_of_lt hsmall, ByteRange.between, dif_pos h]

end Span

/-! ### Removing a piece and the blanks around it -/

namespace Draft

/-- What `removalSpan` adds to a span: blanks on both sides, in front from the beginning of the line
if anything, and behind at most one line break, at the end. -/
structure Removal (text : String) (s r : Span) : Prop where
  start_le : r.start ≤ s.start
  le_stop : s.stop ≤ r.stop
  start_cut : Text.isBoundary text r.start
  stop_cut : Text.isBoundary text r.stop
  front : Text.Filled text Text.isBlank r.start s.start
  back : Text.Filled text Text.isBlank s.stop r.stop
  line_start : r.start = s.start ∨ r.start = 0 ∨ Text.charBefore? text r.start = some '\n'
  line_end : ∀ o, s.stop < o → o < r.stop → Text.charBefore? text o ≠ some '\n'

variable {text : String} {s t r r' : Span}

theorem isBlank_of_isGap {c : Char} (h : isGap c) : Text.isBlank c := by
  simp only [isGap, Bool.or_eq_true, beq_iff_eq] at h
  rcases h with rfl | rfl
  · decide
  · decide

theorem byteLen_gap {cs : List Char} (h : ∀ c ∈ cs, isGap c) : Text.byteLen cs = cs.length := by
  induction cs with
  | nil => rfl
  | cons c cs ih =>
    obtain ⟨hc, hcs⟩ := List.forall_mem_cons.1 h
    simp only [isGap, Bool.or_eq_true, beq_iff_eq] at hc
    rw [Text.byteLen_cons, ih hcs, List.length_cons]
    rcases hc with rfl | rfl
    · have : (' ' : Char).utf8Size = 1 := by decide
      omega
    · have : ('\t' : Char).utf8Size = 1 := by decide
      omega

theorem afterGap_eq {a rest : List Char} (htext : text.toList = a ++ rest) :
    afterGap text (Text.byteLen a) = Text.byteLen a + Text.byteLen (rest.takeWhile isGap) := by
  have hsplit : Text.splitBytes? (Text.byteLen a) text.toList = some (a, rest) :=
    Text.splitBytes?_eq_some_iff.2 ⟨htext, rfl⟩
  rw [afterGap, hsplit, byteLen_gap fun c hc => List.all_eq_true.1 List.all_takeWhile c hc]

theorem lineBefore_eq {a rest : List Char} (htext : text.toList = a ++ rest) :
    lineBefore text (Text.byteLen a) = .ok (Text.afterLast '\n' a) := by
  have hslice : Text.slice text 0 (Text.byteLen a) = .ok (String.ofList a) :=
    Text.slice_eq_ok (a := []) (by simpa using htext) rfl (by simp)
  rw [lineBefore, hslice]
  show Except.ok _ = _
  rw [String.toList_ofList]

/-- A line break in front of a text. -/
theorem lineBreakLength_cases (cs : List Char) : lineBreakLength cs = 0 ∨
    ∃ br rest, cs = br ++ rest ∧ (br = ['\n'] ∨ br = ['\r', '\n']) ∧
      lineBreakLength cs = Text.byteLen br := by
  unfold lineBreakLength
  split
  · exact .inr ⟨['\r', '\n'], _, rfl, .inr rfl, by decide⟩
  · exact .inr ⟨['\n'], _, rfl, .inl rfl, by decide⟩
  · exact .inl rfl

section

variable {a m gap tail : List Char} (htext : text.toList = a ++ (m ++ (gap ++ tail)))
  (hstart : Text.byteLen a = s.start) (hstop : s.start + Text.byteLen m = s.stop)
  (hgap : ∀ c ∈ gap, isGap c)

include htext hstart hstop hgap

theorem filled_gap : Text.Filled text isGap s.stop (s.stop + Text.byteLen gap) :=
  ⟨a ++ m, gap, tail, by simp [htext], by rw [Text.byteLen_append]; omega, rfl, hgap⟩

theorem no_break_in_gap (o : Nat) (hlo : s.stop < o) (hhi : o ≤ s.stop + Text.byteLen gap) :
    Text.charBefore? text o ≠ some '\n' := fun hc =>
  absurd ((filled_gap htext hstart hstop hgap).charBefore? hc hlo hhi) (by decide)

/-- The span and the blanks behind it. -/
theorem removal_of_gap : Removal text s ⟨s.start, s.stop + Text.byteLen gap⟩ where
  start_le := Nat.le_refl _
  le_stop := Nat.le_add_right _ _
  start_cut := Text.isBoundary_iff.2 ⟨a, _, htext, hstart⟩
  stop_cut := Text.isBoundary_iff.2 ⟨a ++ m ++ gap, tail, by simp [htext], by
    simp only [Text.byteLen_append]; omega⟩
  front := Text.Filled.refl ⟨a, _, htext, hstart⟩
  back := by
    obtain ⟨x, g, y, h1, h2, h3, h4⟩ := filled_gap htext hstart hstop hgap
    exact ⟨x, g, y, h1, h2, h3, fun c hc => isBlank_of_isGap (h4 c hc)⟩
  line_start := .inl rfl
  line_end := fun o hlo hhi => no_break_in_gap htext hstart hstop hgap o hlo (Nat.le_of_lt hhi)

/-- The whole line of the span, if nothing else stands on it. -/
theorem removal_of_line {front before br rest : List Char} (ha : a = front ++ before)
    (hbefore : ∀ c ∈ before, Text.isBlank c) (hline : front = [] ∨ front.getLast? = some '\n')
    (htail : tail = br ++ rest) (hbr : br = ['\n'] ∨ br = ['\r', '\n']) :
    Removal text s ⟨Text.byteLen front, s.stop + Text.byteLen gap + Text.byteLen br⟩ := by
  subst ha htail
  rw [Text.byteLen_append] at hstart
  refine
    { start_le := by simp only; omega
      le_stop := by simp only; omega
      start_cut := Text.isBoundary_iff.2
        ⟨front, before ++ (m ++ (gap ++ (br ++ rest))), by simp [htext], rfl⟩
      stop_cut := Text.isBoundary_iff.2 ⟨front ++ before ++ m ++ gap ++ br, rest, by simp [htext], by
        simp only [Text.byteLen_append]; omega⟩
      front := ⟨front, before, m ++ (gap ++ (br ++ rest)), by simp [htext], rfl, hstart, hbefore⟩
      back := ⟨front ++ before ++ m, gap ++ br, rest, by simp [htext], by
        simp only [Text.byteLen_append]; omega, by simp only [Text.byteLen_append]; omega, ?_⟩
      line_start := .inr ?_
      line_end := ?_ }
  · intro c hc
    rcases List.mem_append.1 hc with hc | hc
    · exact isBlank_of_isGap (hgap c hc)
    · have hreturn : Text.isBlank '\r' := by decide
      have hnewline : Text.isBlank '\n' := by decide
      rcases hbr with rfl | rfl
      · rwa [List.mem_singleton.1 hc]
      · rcases List.mem_cons.1 hc with rfl | hc
        · exact hreturn
        · rwa [List.mem_singleton.1 hc]
  · rcases hline with rfl | hlast
    · exact .inl rfl
    · obtain ⟨init, rfl⟩ := List.getLast?_eq_some_iff.1 hlast
      exact .inr (Text.charBefore?_eq_some_iff.2
        ⟨init, before ++ (m ++ (gap ++ (br ++ rest))), by simpa using htext, rfl⟩)
  · intro o hlo hhi hc
    by_cases hle : o ≤ s.stop + Text.byteLen gap
    · refine no_break_in_gap htext ?_ hstop hgap o hlo hle hc
      rw [Text.byteLen_append]
      exact hstart
    -- only the `'\r'` of a line break of two characters ends before the line break does
    · have hone : ('\r' : Char).utf8Size = 1 ∧ ('\n' : Char).utf8Size = 1 := by decide
      rcases hbr with rfl | rfl
      · simp only [Text.byteLen_cons, Text.byteLen_nil] at hhi
        omega
      · simp only [Text.byteLen_cons, Text.byteLen_nil] at hhi
        have hr : Text.charBefore? text o = some '\r' := by
          refine Text.charBefore?_eq_some_iff.2
            ⟨front ++ before ++ m ++ gap, '\n' :: rest, by simp [htext], ?_⟩
          simp only [Text.byteLen_append, Text.byteLen_cons, Text.byteLen_nil]
          omega
        rw [hr] at hc
        cases hc

end

/-- The two forms of what is removed: the span and the blanks behind it, or the whole line. -/
theorem exists_removalSpan (hs : s.Fits text) : ∃ r, removalSpan text s = .ok r ∧
    ∃ a m gap tail, text.toList = a ++ (m ++ (gap ++ tail)) ∧ Text.byteLen a = s.start ∧
      s.start + Text.byteLen m = s.stop ∧ (∀ c ∈ gap, isGap c) ∧
      (r = ⟨s.start, s.stop + Text.byteLen gap⟩ ∨
        ∃ front before br rest, a = front ++ before ∧ (∀ c ∈ before, Text.isBlank c) ∧
          (front = [] ∨ front.getLast? = some '\n') ∧ tail = br ++ rest ∧
          (br = ['\n'] ∨ br = ['\r', '\n']) ∧
          r = ⟨Text.byteLen front, s.stop + Text.byteLen gap + Text.byteLen br⟩) := by
  obtain ⟨a, m, rest, htext, hstart, hstop⟩ := hs.exists_split
  obtain ⟨front, hfront, -, hline⟩ := Text.exists_append_afterLast '\n' a
  obtain ⟨gap, tail, rfl, hgap, htake⟩ : ∃ gap tail, rest = gap ++ tail ∧ (∀ c ∈ gap, isGap c) ∧
      rest.takeWhile isGap = gap :=
    ⟨rest.takeWhile isGap, rest.dropWhile isGap, List.takeWhile_append_dropWhile.symm,
      List.all_eq_true.1 List.all_takeWhile, rfl⟩
  have hlen : s.stop + Text.byteLen gap + Text.byteLen tail = Text.length text := by
    rw [Text.length_eq, htext]
    simp only [Text.byteLen_append]
    omega
  have hafter : afterGap text (min s.stop (Text.length text)) = s.stop + Text.byteLen gap := by
    have hmin : min s.stop (Text.length text) = Text.byteLen (a ++ m) := by
      rw [Text.byteLen_append]
      omega
    rw [hmin, afterGap_eq (by simpa using htext), htake, Text.byteLen_append]
    omega
  have hbefore : lineBefore text s.start = .ok (Text.afterLast '\n' a) := by
    rw [← hstart, lineBefore_eq htext]
  have hrest : Text.slice text (s.stop + Text.byteLen gap) (Text.length text) =
      .ok (String.ofList tail) := by
    refine Text.slice_eq_ok (a := a ++ m ++ gap) (b := []) (by simp [htext]) ?_ hlen
    simp only [Text.byteLen_append]
    omega
  unfold removalSpan
  simp only [hafter, hbefore, bind, Except.bind]
  by_cases hblank : (Text.afterLast '\n' a).all Text.isBlank = true
  · simp only [hblank, if_true, hrest, String.toList_ofList]
    rcases lineBreakLength_cases tail with hzero | ⟨br, after, htail, hbr, hlenbr⟩
    · simp only [hzero, Nat.lt_irrefl, if_false]
      exact ⟨_, rfl, a, m, gap, tail, htext, hstart, hstop, hgap, .inl rfl⟩
    · have hpos : 0 < Text.byteLen br := by
        rcases hbr with rfl | rfl <;> decide
      simp only [hlenbr, hpos, if_true]
      have hdiff : s.start - Text.byteLen (Text.afterLast '\n' a) = Text.byteLen front := by
        have := congrArg Text.byteLen hfront
        rw [Text.byteLen_append] at this
        omega
      rw [hdiff]
      exact ⟨_, rfl, a, m, gap, tail, htext, hstart, hstop, hgap, .inr ⟨front, _, br, after, hfront,
        List.all_eq_true.1 hblank, hline, htail, hbr, rfl⟩⟩
  · simp only [hblank]
    exact ⟨_, rfl, a, m, gap, tail, htext, hstart, hstop, hgap, .inl rfl⟩

theorem removalSpan_eq (hs : s.Fits text) : ∃ r, removalSpan text s = .ok r ∧ Removal text s r := by
  obtain ⟨r, hr, a, m, gap, tail, htext, hstart, hstop, hgap, rfl |
    ⟨front, before, br, rest, ha, hbefore, hline, htail, hbr, rfl⟩⟩ := exists_removalSpan hs
  · exact ⟨_, hr, removal_of_gap htext hstart hstop hgap⟩
  · exact ⟨_, hr, removal_of_line htext hstart hstop hgap ha hbefore hline htail hbr⟩

/-- A removal never ends between the two characters of a line break. -/
theorem charBefore?_stop_removalSpan (hs : s.Solid text) (hr : removalSpan text s = .ok r) :
    Text.charBefore? text r.stop ≠ some '\r' := by
  obtain ⟨r', hr', a, m, gap, tail, htext, hstart, hstop, hgap, hcases⟩ := exists_removalSpan hs.toFits
  obtain rfl := Except.ok.inj (hr.symm.trans hr')
  intro hc
  rcases hcases with rfl | ⟨front, before, br, rest, -, -, -, rfl, hbr, rfl⟩
  · rcases Nat.eq_zero_or_pos (Text.byteLen gap) with hzero | hpos
    · obtain ⟨c, hlast, hvisible⟩ := hs.exists_last
      rw [hzero, Nat.add_zero, hlast] at hc
      obtain rfl := Option.some.inj hc
      exact absurd hvisible (by decide)
    · have hcr := (filled_gap htext hstart hstop hgap).charBefore? hc (by simp only; omega) (Nat.le_refl _)
      exact absurd hcr (by decide)
  · have hnewline : Text.charBefore? text (s.stop + Text.byteLen gap + Text.byteLen br) = some '\n' := by
      rcases hbr with rfl | rfl
      · refine Text.charBefore?_eq_some_iff.2 ⟨a ++ m ++ gap, rest, by simp [htext], ?_⟩
        simp only [Text.byteLen_append]
        omega
      · refine Text.charBefore?_eq_some_iff.2 ⟨a ++ m ++ gap ++ ['\r'], rest, by simp [htext], ?_⟩
        simp only [Text.byteLen_append, Text.byteLen_cons, Text.byteLen_nil]
        omega
    rw [hnewline] at hc
    cases hc

/-- A removal reaches no other piece that neither starts nor ends with a blank. -/
theorem Removal.disjoint (hr : Removal text s r) (ht : t.Solid text) (hst : s.Disjoint t) :
    r.Disjoint t := by
  rcases hst with hle | hle
  · refine .inl (Nat.le_of_not_lt fun hlt => ?_)
    obtain ⟨c, hc, hno⟩ := ht.exists_first
    rw [hr.back.charAt? hc hle hlt] at hno
    cases hno
  · refine .inr (Nat.le_of_not_lt fun hlt => ?_)
    obtain ⟨c, hc, hno⟩ := ht.exists_last
    rw [hr.front.charBefore? hc hlt hle] at hno
    cases hno

theorem Removal.stop_le_start (hr : Removal text s r) (hr' : Removal text t r') (hs : s.Solid text)
    (ht : t.Solid text) (hst : s.stop ≤ t.start) : r.stop ≤ r'.start := by
  have hsne := hs.nonempty
  have htne := ht.nonempty
  have hrt : r.stop ≤ t.start := by
    have := hr.disjoint ht (.inl hst)
    have := hr.start_le
    unfold Span.Disjoint at *
    omega
  have hsr' : s.stop ≤ r'.start := by
    have := hr'.disjoint hs (.inr hst)
    have := hr'.le_stop
    unfold Span.Disjoint at *
    omega
  rcases hr'.line_start with heq | heq | hbreak
  · omega
  · omega
  -- the second removal starts a line, and the first reaches no further than the next line break
  · have hne : s.stop ≠ r'.start := by
      intro he
      obtain ⟨c, hc, hno⟩ := hs.exists_last
      rw [he, hbreak] at hc
      obtain rfl := Option.some.inj hc
      exact absurd hno (by decide)
    refine Nat.le_of_not_lt fun hlt => ?_
    exact hr.line_end r'.start (by omega) hlt hbreak

/-- Two removals do not overlap. -/
theorem Removal.disjoint_removal (hr : Removal text s r) (hr' : Removal text t r')
    (hs : s.Solid text) (ht : t.Solid text) (hst : s.Disjoint t) : r.Disjoint r' := by
  rcases hst with hle | hle
  · exact .inl (hr.stop_le_start hr' hs ht hle)
  · exact .inr (hr'.stop_le_start hr ht hs hle)

end Draft

/-! ### Edits side by side -/

namespace ByteRange

variable {text : String} {r s : ByteRange}

theorem apart_of_disjoint (h : r.toSpan.Disjoint s.toSpan) (hne : r.start < r.stop) : r.Apart s := by
  refine ⟨h, fun ⟨hr, _, _⟩ => ?_⟩
  have := isEmpty_iff.1 hr
  omega

theorem fits_of_cut (hstart : Text.isBoundary text r.start) (hstop : Text.isBoundary text r.stop) :
    r.Fits text :=
  ⟨(Text.isBoundary_iff.1 hstop).le, hstart, hstop⟩

end ByteRange

theorem Span.Fits.toRange {text : String} {s : Span} (h : s.Fits text)
    (hsmall : Text.length text < ByteRange.modulus) :
    ∃ r : ByteRange, s.toRange = .ok r ∧ r.toSpan = s ∧ r.Fits text := by
  have hlt := Nat.lt_of_le_of_lt h.stop_le hsmall
  refine ⟨⟨s.start, s.stop, Nat.le_of_lt h.nonempty⟩, Span.toRange_eq _ hlt, rfl, ?_⟩
  exact ByteRange.fits_of_cut h.start_cut h.stop_cut

theorem Draft.Removal.toRange {text : String} {s r : Span} (h : Draft.Removal text s r)
    (hs : s.start ≤ s.stop) (hsmall : Text.length text < ByteRange.modulus) :
    ∃ range : ByteRange, r.toRange = .ok range ∧ range.toSpan = r ∧ range.Fits text := by
  have hle := (Text.isBoundary_iff.1 h.stop_cut).le
  have hlt := Nat.lt_of_le_of_lt hle hsmall
  have hord : r.start ≤ r.stop := Nat.le_trans h.start_le (Nat.le_trans hs h.le_stop)
  exact ⟨⟨r.start, r.stop, hord⟩, Span.toRange_eq hord hlt, rfl,
    ByteRange.fits_of_cut h.start_cut h.stop_cut⟩

namespace Edit

variable {text : String}

theorem applicable_single {edit : Edit} (h : edit.range.Fits text) : Applicable text [edit] :=
  ⟨fun _ he => List.mem_singleton.1 he ▸ h, List.pairwise_singleton _ _⟩

theorem applicable_append {xs ys : List Edit} (hxs : Applicable text xs) (hys : Applicable text ys)
    (hapart : ∀ x ∈ xs, ∀ y ∈ ys, x.range.Apart y.range) : Applicable text (xs ++ ys) := by
  refine ⟨fun e he => ?_, List.pairwise_append.2 ⟨hxs.apart, hys.apart, hapart⟩⟩
  rcases List.mem_append.1 he with he | he
  · exact hxs.fits e he
  · exact hys.fits e he

theorem fits_insert {offset : Nat} {new : String} (h : Text.isBoundary text offset) :
    (Edit.insert offset new).range.Fits text :=
  ByteRange.fits_of_cut h h

/-- An inserted text stands between what was before and behind its place. -/
theorem applyAll_insert {a b : List Char} (eq : text.toList = a ++ b) (new : String) :
    applyAll text [.insert (Text.byteLen a) new] =
      .ok (String.ofList (a ++ (new.toList ++ b))) := by
  have cut : Text.isBoundary text (Text.byteLen a) := Text.isBoundary_iff.2 ⟨a, b, eq, rfl⟩
  have spliced : splice 0 [.insert (Text.byteLen a) new] (a ++ ([] ++ b)) =
      a ++ new.toList ++ splice (Text.byteLen a) [] b :=
    splice_cons (by simp [Edit.insert, ByteRange.point]) (by simp [Edit.insert, ByteRange.point])
  refine applyAll_eq_ok_iff.2 ⟨applicable_single (fits_insert cut), ?_⟩
  rw [List.mergeSort_singleton, eq, ← List.nil_append b, spliced, splice, List.append_assoc]
  rfl

end Edit

namespace Family

variable {text : String}

theorem exists_of_mem_left {α β : Type} {P : α → β → Prop} {xs : List α} {ys : List β}
    (h : List.Forall₂ P xs ys) {x : α} (hx : x ∈ xs) : ∃ y ∈ ys, P x y := by
  induction h with
  | nil => cases hx
  | cons hP _ ih =>
    rcases List.mem_cons.1 hx with rfl | hx
    · exact ⟨_, List.mem_cons_self, hP⟩
    · obtain ⟨y, hy, hP⟩ := ih hx
      exact ⟨y, List.mem_cons_of_mem _ hy, hP⟩

theorem exists_of_mem_right {α β : Type} {P : α → β → Prop} {xs : List α} {ys : List β}
    (h : List.Forall₂ P xs ys) {y : β} (hy : y ∈ ys) : ∃ x ∈ xs, P x y :=
  exists_of_mem_left h.flip hy

/-- The deletions that `deleteAll` adds, one for each annotation. -/
structure Deletes (text : String) (a : AnnotationUse) (edit : Edit) : Prop where
  removal : Draft.Removal text a.span edit.range.toSpan
  fits : edit.range.Fits text
  empty : edit.replacement = ""

theorem deleteAll_eq (hsmall : Text.length text < ByteRange.modulus) {annotations : List AnnotationUse}
    (hfits : ∀ a ∈ annotations, a.span.Fits text) (edits : List Edit) :
    ∃ deletions, deleteAll text edits annotations = .ok (edits ++ deletions) ∧
      List.Forall₂ (Deletes text) annotations deletions := by
  induction annotations generalizing edits with
  | nil => exact ⟨[], by rw [List.append_nil]; rfl, .nil⟩
  | cons a annotations ih =>
    obtain ⟨ha, hrest⟩ := List.forall_mem_cons.1 hfits
    obtain ⟨r, hr, hremoval⟩ := Draft.removalSpan_eq ha
    obtain ⟨range, hrange, rfl, hfits⟩ := hremoval.toRange (Nat.le_of_lt ha.nonempty) hsmall
    obtain ⟨deletions, hdeletions, hall⟩ := ih hrest (edits ++ [⟨range, ""⟩])
    refine ⟨⟨range, ""⟩ :: deletions, ?_, .cons ⟨hremoval, hfits, rfl⟩ hall⟩
    unfold deleteAll at hdeletions ⊢
    rw [List.foldlM_cons, hr]
    simp only [Draft.delete, Draft.replace, hrange, bind, Except.bind, pure, Except.pure] at hdeletions ⊢
    rw [hdeletions, List.append_assoc]
    rfl

theorem applicable_of_deletes {annotations : List AnnotationUse} {deletions : List Edit}
    (h : List.Forall₂ (Deletes text) annotations deletions)
    (hsolid : ∀ a ∈ annotations, a.span.Solid text)
    (hdisjoint : annotations.Pairwise fun a b => a.span.Disjoint b.span) :
    Edit.Applicable text deletions := by
  induction h with
  | nil => exact ⟨by simp, .nil⟩
  | @cons a edit annotations deletions hdel hall ih =>
    obtain ⟨ha, hrest⟩ := List.forall_mem_cons.1 hsolid
    obtain ⟨hfirst, hothers⟩ := List.pairwise_cons.1 hdisjoint
    refine Edit.applicable_append (Edit.applicable_single hdel.fits) (ih hrest hothers) ?_
    intro x hx y hy
    obtain rfl := List.mem_singleton.1 hx
    obtain ⟨b, hb, hdel'⟩ := exists_of_mem_right hall hy
    refine ByteRange.apart_of_disjoint ?_ ?_
    · exact hdel.removal.disjoint_removal hdel'.removal ha (hrest b hb) (hfirst b hb)
    · have := ha.nonempty
      have := hdel.removal.start_le
      have := hdel.removal.le_stop
      simp only [ByteRange.toSpan] at *
      omega

end Family

/-! ### Where imports go -/

namespace Imports

variable {unit : CompilationUnit}

/-- A place for a new import: after another import, or before all types. -/
structure Place (unit : CompilationUnit) (offset : Nat) : Prop where
  cut : Text.isBoundary unit.text offset
  free : (∃ i ∈ unit.imports, i.span.stop = offset) ∨ ∀ t ∈ unit.types, offset ≤ t.span.start

theorem mem_of_anchor? {i : ImportDecl} (h : anchor? unit = some i) : i ∈ unit.imports := by
  rw [anchor?] at h
  cases hlast : (unit.imports.filter (!·.isStatic)).getLast? with
  | none =>
    rw [hlast] at h
    exact List.mem_of_getLast? h
  | some j =>
    rw [hlast] at h
    obtain rfl := Option.some.inj h
    exact (List.mem_filter.1 (List.mem_of_getLast? hlast)).1

theorem firstType_le {t : TypeDecl} (ht : t ∈ unit.types) : firstType unit ≤ t.span.start := by
  have hmem : t.span.start ∈ unit.types.map (·.span.start) := List.mem_map_of_mem ht
  rw [firstType]
  cases hmin : (unit.types.map (·.span.start)).min? with
  | none => rw [List.min?_eq_none_iff.1 hmin] at hmem; cases hmem
  | some start => exact (List.min?_eq_some_iff.1 hmin).2 _ hmem

theorem place_firstType (h : unit.WellFormed) : Place unit (firstType unit) := by
  refine ⟨?_, .inr fun t ht => firstType_le ht⟩
  rw [firstType]
  cases hmin : (unit.types.map (·.span.start)).min? with
  | none => exact Text.isBoundary_iff.2 (Text.CutAt.zero _)
  | some start =>
    obtain ⟨t, ht, rfl⟩ := List.mem_map.1 (List.min?_eq_some_iff.1 hmin).1
    exact (h.types t ht).span_fits.start_cut

theorem splitBefore_eq_some {piece cs a b : List Char} (h : Text.splitBefore piece cs = some (a, b)) :
    cs = a ++ b := by
  induction cs generalizing a with
  | nil =>
    rw [Text.splitBefore] at h
    split at h
    · cases h
      rfl
    · cases h
  | cons c cs ih =>
    rw [Text.splitBefore] at h
    split at h
    · cases h
      rfl
    · obtain ⟨⟨a', b'⟩, hsplit, heq⟩ := Option.map_eq_some_iff.1 h
      obtain ⟨rfl, rfl⟩ := Prod.mk.inj heq
      rw [ih hsplit, List.cons_append]

/-- The place after the package declaration lies before `limit`, behind a `;`. -/
theorem packageEnd?_eq_some {limit offset : Nat} (h : packageEnd? unit limit = some offset) :
    ∃ a b, unit.text.toList = (a ++ [';']) ++ b ∧ Text.byteLen (a ++ [';']) = offset ∧
      offset ≤ limit := by
  simp only [packageEnd?, Option.bind_eq_bind, Option.bind_eq_some_iff] at h
  obtain ⟨-, -, head, hhead, ⟨before, rest⟩, hbefore, ⟨declaration, after⟩, hdecl, heq⟩ := h
  obtain ⟨a, b, htext, ha, hlimit⟩ := Text.slice?_eq_some_iff.1 hhead
  obtain rfl := Text.byteLen_eq_zero.1 ha
  have hrest : rest = declaration ++ ';' :: after := (Text.splitOnce_eq_some_iff.1 hdecl).1
  have hcs := splitBefore_eq_some hbefore
  have hone : (';' : Char).utf8Size = 1 := by decide
  obtain rfl : Text.byteLen before + Text.byteLen declaration + 1 = offset := Option.some.inj heq
  refine ⟨before ++ declaration, after ++ b, ?_, ?_, ?_⟩
  · rw [htext, hcs, hrest]
    simp
  · simp only [Text.byteLen_append, Text.byteLen_cons, Text.byteLen_nil, hone]
  · rw [← hlimit, Text.length_eq, hcs, hrest]
    simp only [Text.byteLen_append, Text.byteLen_cons, hone]
    omega

theorem importEdit?_place (h : unit.WellFormed) {fqn : String} {edit : Edit}
    (hedit : importEdit? unit fqn = some edit) :
    ∃ offset new, edit = .insert offset new ∧ Place unit offset := by
  have hmod : ∀ offset, Place unit offset → offset % ByteRange.modulus = offset := by
    intro offset hplace
    exact Nat.mod_eq_of_lt (Nat.lt_of_le_of_lt (Text.isBoundary_iff.1 hplace.cut).le h.small)
  rw [importEdit?] at hedit
  split at hedit
  · cases hedit
  · simp only at hedit
    split at hedit
    case _ i hanchor =>
      have hi := mem_of_anchor? hanchor
      have hplace : Place unit i.span.stop := ⟨(h.imports i hi).1.stop_cut, .inl ⟨i, hi, rfl⟩⟩
      rw [hmod _ hplace] at hedit
      exact ⟨_, _, (Option.some.inj hedit).symm, hplace⟩
    case _ =>
      split at hedit
      case _ offset hend =>
        obtain ⟨a, b, htext, hlen, hle⟩ := packageEnd?_eq_some hend
        have hplace : Place unit offset :=
          ⟨Text.isBoundary_iff.2 ⟨_, b, htext, hlen⟩,
            .inr fun t ht => Nat.le_trans hle (firstType_le ht)⟩
        rw [hmod _ hplace] at hedit
        exact ⟨_, _, (Option.some.inj hedit).symm, hplace⟩
      case _ =>
        rw [hmod _ (place_firstType h)] at hedit
        exact ⟨_, _, (Option.some.inj hedit).symm, place_firstType h⟩

/-- The edit beside a reference, if there is one. -/
def Places (unit : CompilationUnit) (imported : Option Edit) : Prop :=
  ∀ edit, imported = some edit → ∃ offset new, edit = .insert offset new ∧ Place unit offset

theorem typeReference_places (h : unit.WellFormed) (fqn : String) :
    Places unit (typeReference unit fqn).2 := by
  intro edit hedit
  rw [typeReference] at hedit
  split at hedit
  · cases hedit
  · split at hedit
    · cases hedit
    · exact importEdit?_place h hedit

/-- An import goes in beside a range that starts in a type and touches no import. -/
theorem Place.apart {offset : Nat} (h : unit.WellFormed) (hplace : Place unit offset) {t : TypeDecl}
    (ht : t ∈ unit.types) {r : ByteRange} (hstart : t.span.start ≤ r.start)
    (himports : ∀ i ∈ unit.imports, r.toSpan.Disjoint i.span) (hne : r.start < r.stop) (new : String) :
    (Edit.insert offset new).range.Apart r := by
  refine (ByteRange.apart_of_disjoint ?_ hne).symm
  rcases hplace.free with ⟨i, hi, rfl⟩ | hbefore
  · have hdis := himports i hi
    have := (h.imports i hi).1.nonempty
    unfold Span.Disjoint at *
    simp only [ByteRange.toSpan, Edit.insert, ByteRange.point] at *
    omega
  · exact .inr (Nat.le_trans (hbefore t ht) hstart)

/-- A text goes in beside a new import; at the same place, behind it. -/
theorem insert_applicable {imported : Option Edit} (himported : Places unit imported)
    {offset : Nat} (hcut : Text.isBoundary unit.text offset) (h : unit.WellFormed) (new : String) :
    Draft.insert (Draft.start imported) offset new ≠ [] ∧
      Edit.Applicable unit.text (Draft.insert (Draft.start imported) offset new) := by
  have hmod : offset % ByteRange.modulus = offset :=
    Nat.mod_eq_of_lt (Nat.lt_of_le_of_lt (Text.isBoundary_iff.1 hcut).le h.small)
  rw [Draft.insert, hmod]
  cases imported with
  | none => exact ⟨by simp [Draft.start, Draft.insertAt], Edit.applicable_single (Edit.fits_insert hcut)⟩
  | some edit =>
    obtain ⟨place, text, rfl, hplace⟩ := himported edit rfl
    rw [Draft.start, Option.toList_some, Draft.insertAt]
    by_cases heq : place = offset
    · subst heq
      simp only [Edit.insert, ByteRange.isEmpty, ByteRange.point, beq_self_eq_true, Bool.and_self,
        if_true]
      exact ⟨by simp, Edit.applicable_single (Edit.fits_insert hplace.cut)⟩
    · have hne : ((Edit.insert place text).range.isEmpty &&
          (Edit.insert place text).range.start == offset) = false := by
        simp [Edit.insert, ByteRange.point, heq]
      simp only [hne]
      refine ⟨by simp, Edit.applicable_append (Edit.applicable_single (Edit.fits_insert hplace.cut))
        (Edit.applicable_single (Edit.fits_insert hcut)) ?_⟩
      intro x hx y hy
      rw [List.mem_singleton.1 hx, List.mem_singleton.1 hy]
      refine ⟨?_, fun hempty => heq hempty.2.2⟩
      simp only [Edit.insert, ByteRange.point]
      omega

end Imports

end JakartaCheck
