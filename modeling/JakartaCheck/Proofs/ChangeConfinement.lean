import JakartaCheck.Proofs.AnnotationRemoval
import JakartaCheck.Proofs.DraftedChanges

/-!
# Fixes stay in the type

A change (`Change`) reaches out of the type that owns the declaration in two ways only: a removal takes
white space next to the type as well, and an import goes where it does not cut through a type
(`Confined`). So whatever a built-in fix proposes, what can be seen outside of the type stays.
-/

namespace JakartaCheck

variable {unit : CompilationUnit} {t : TypeDecl} {e : Edit}

/-- The part of a filled piece between two places in it is filled. -/
theorem Text.Filled.narrow {text : String} {p : Char → Bool} {start stop a b : Nat}
    (h : Text.Filled text p start stop) (ha : Text.CutAt text.toList a)
    (hb : Text.CutAt text.toList b) (hstart : start ≤ a) (hle : a ≤ b) (hstop : b ≤ stop) :
    Text.Filled text p a b := by
  obtain ⟨front, g, back, htext, rfl, rfl, hg⟩ := h
  obtain ⟨a', rest, hrest, rfl⟩ := ha
  obtain ⟨b', rest', hrest', rfl⟩ := hb
  obtain ⟨m, rfl, hm⟩ := exists_append_of_byteLen_le (htext.symm.trans hrest) hstart
  obtain ⟨w, rfl, rfl⟩ := exists_append_of_byteLen_le (hrest.symm.trans hrest') hle
  rw [← List.append_assoc m] at hm
  simp only [byteLen_append] at hstop
  obtain ⟨k, rfl, -⟩ := exists_append_of_byteLen_le hm.symm (by rw [byteLen_append]; omega)
  exact ⟨front ++ m, w, rest', hrest, rfl, (byteLen_append ..).symm, fun c hc => hg c (by simp [hc])⟩

/-- The range lies in the span, widened over white space next to it. -/
def Span.Widens (text : String) (s r : Span) : Prop :=
  ∃ wide : Span, wide.contains r ∧ Text.Filled text Text.isBlank wide.start s.start ∧
    Text.Filled text Text.isBlank s.stop wide.stop

theorem Span.widens_of_contains {text : String} {s r : Span} (hs : s.Fits text) (h : s.contains r) :
    s.Widens text r :=
  ⟨s, h, .refl (Text.isBoundary_iff.1 hs.start_cut), .refl (Text.isBoundary_iff.1 hs.stop_cut)⟩

/-- What is removed with a piece of a span lies in the span, or in the white space next to it. -/
theorem Draft.Removal.widens {text : String} {s r u : Span} (h : Draft.Removal text s r)
    (hu : u.Fits text) (hin : u.contains s) : u.Widens text r := by
  have hstart := Text.isBoundary_iff.1 hu.start_cut
  have hstop := Text.isBoundary_iff.1 hu.stop_cut
  have hfirst := h.start_le
  have hlast := h.le_stop
  rw [Span.contains_iff] at hin
  refine ⟨⟨min r.start u.start, max u.stop r.stop⟩, Span.contains_iff.2 ⟨?_, ?_⟩, ?_, ?_⟩
  · exact Nat.min_le_left ..
  · exact Nat.le_max_right ..
  · rcases Nat.le_total r.start u.start with hle | hle
    · rw [Nat.min_eq_left hle]
      exact h.front.narrow (Text.isBoundary_iff.1 h.start_cut) hstart (Nat.le_refl _) hle hin.1
    · rw [Nat.min_eq_right hle]
      exact .refl hstart
  · rcases Nat.le_total u.stop r.stop with hle | hle
    · rw [Nat.max_eq_right hle]
      exact h.back.narrow hstop (Text.isBoundary_iff.1 h.stop_cut) hin.2 hle (Nat.le_refl _)
    · rw [Nat.max_eq_left hle]
      exact .refl hstop

/-- What an edit may do to a unit around the type `t`. -/
structure Confined (unit : CompilationUnit) (t : TypeDecl) (e : Edit) : Prop where
  /-- A range that is not empty lies in the type, widened over white space. -/
  range : e.range.start < e.range.stop → t.span.Widens unit.text e.range.toSpan
  /-- A text is put in inside the type, or where an import goes, which is inside of no type. -/
  insertion : e.range.isEmpty → t.span.contains e.range.toSpan ∨
    (∃ fqn imported, Imports.importEdit? unit fqn = some imported ∧ e.range = imported.range) ∧
      ∀ u ∈ unit.types, ¬ (u.span.start < e.range.start ∧ e.range.start < u.span.stop)
  /-- What is replaced and can be seen belongs to the type. -/
  visible : ∀ offset c, Text.charAt? unit.text offset = some c → Text.isBlank c = false →
    e.range.toSpan.Covers offset → t.span.Covers offset

theorem importEdit?_outside (h : unit.Solid) {fqn : String} {imported : Edit}
    (himported : Imports.importEdit? unit fqn = some imported) :
    imported.range.start = imported.range.stop ∧ ∀ u ∈ unit.types,
      ¬ (u.span.start < imported.range.start ∧ imported.range.start < u.span.stop) := by
  have hmod := fun offset : Nat => Nat.mod_le offset ByteRange.modulus
  rcases Imports.importEdit?_cases himported with ⟨i, new, hanchor, rfl, -⟩ |
    ⟨offset, new, -, hpackage, rfl, -⟩ | ⟨new, -, rfl, -⟩
  · refine ⟨rfl, fun u hu => ?_⟩
    obtain ⟨hsolid, happart⟩ := h.imports i (Imports.mem_of_anchor? hanchor)
    have hlt := Nat.lt_of_le_of_lt hsolid.toFits.stop_le h.small
    have hne := hsolid.nonempty
    have hdisjoint := happart u hu
    unfold Span.Disjoint at hdisjoint
    simp only [Edit.insert, ByteRange.point, Nat.mod_eq_of_lt hlt]
    omega
  · refine ⟨rfl, fun u hu => ?_⟩
    obtain ⟨-, -, -, -, hle⟩ := Imports.packageEnd?_eq_some hpackage
    have hfirst := Imports.firstType_le hu
    have := hmod offset
    simp only [Edit.insert, ByteRange.point]
    omega
  · refine ⟨rfl, fun u hu => ?_⟩
    have hfirst := Imports.firstType_le hu
    have := hmod (Imports.firstType unit)
    simp only [Edit.insert, ByteRange.point]
    omega

/-- An edit that only puts a text in replaces nothing. -/
theorem Confined.of_point {t : TypeDecl} (hpoint : e.range.start = e.range.stop)
    (hplace : t.span.contains e.range.toSpan ∨
      (∃ fqn imported, Imports.importEdit? unit fqn = some imported ∧ e.range = imported.range) ∧
        ∀ u ∈ unit.types, ¬ (u.span.start < e.range.start ∧ e.range.start < u.span.stop)) :
    Confined unit t e where
  range hlt := absurd hpoint (Nat.ne_of_lt hlt)
  insertion _ := hplace
  visible offset _ _ _ hcov := by
    simp only [Span.Covers, ByteRange.toSpan] at hcov
    omega

theorem Change.confined (h : unit.Solid) (ht : t ∈ unit.types) (hchange : Change unit t e) :
    Confined unit t e := by
  have hfits := (h.spans t ht t.span (span_mem_spans t)).1.toFits
  cases hchange with
  | @remove s range hs hrange =>
    obtain ⟨hsolid, hin⟩ := h.spans t ht s hs
    obtain ⟨r, hr, hremoval⟩ := Draft.removalSpan_eq hsolid.toFits
    obtain rfl := Except.ok.inj (hrange.symm.trans hr)
    have hcontains := Span.contains_iff.1 hin
    exact {
      range := fun _ => hremoval.widens hfits hin
      insertion := fun hempty => by
        have := ByteRange.isEmpty_iff.1 hempty
        have := hsolid.nonempty
        have := hremoval.start_le
        have := hremoval.le_stop
        simp only [ByteRange.toSpan] at *
        omega
      visible := fun offset c hc hblank hcov => by
        obtain ⟨hlo, hhi⟩ := (hremoval.covers_iff hc hblank).1 hcov
        exact ⟨Nat.le_trans hcontains.1 hlo, Nat.lt_of_lt_of_le hhi hcontains.2⟩ }
  | @replace range new hs hnew =>
    have hin := (h.spans t ht _ hs).2
    have hcontains := Span.contains_iff.1 hin
    exact {
      range := fun _ => Span.widens_of_contains hfits hin
      insertion := fun _ => .inl hin
      visible := fun offset c _ _ hcov =>
        ⟨Nat.le_trans hcontains.1 hcov.1, Nat.lt_of_lt_of_le hcov.2 hcontains.2⟩ }
  | @insert offset new hin hseam hnew => exact .of_point rfl (.inl (Span.contains_iff.2 hin))
  | @importing fqn imported new himported hnew =>
    obtain ⟨hpoint, houtside⟩ := importEdit?_outside h himported
    exact .of_point hpoint (.inr ⟨⟨fqn, imported, himported, rfl⟩, houtside⟩)

/-- Each edit that a built-in fix proposes stays in the type that owns the declaration, apart from
white space next to it and from imports. -/
theorem FixRegistry.builtinFixes_confined (h : unit.Solid) {fix : Fix}
    (hfix : fix ∈ FixRegistry.builtinFixes) (d : Diagnostic) {proposals : List Proposal}
    (hok : fix.propose d unit = .ok proposals) :
    ∀ p ∈ proposals, ∀ e ∈ p.edits,
      ∃ found, unit.declarationAt? d.span = some found ∧ Confined unit found.owner e := by
  intro p hp e he
  obtain ⟨found, hfound, hchange⟩ := FixRegistry.builtinFixes_drafted h hfix hok p hp e he
  have ht := (CompilationUnit.around_of_declarationAt? hfound).1.of.owner_mem
  exact ⟨found, hfound, hchange.confined h ht⟩

/-- The line of an annotation goes, with the blank in front of it that is not part of the class. -/
theorem FixRegistry.builtinFixes_confined_line :
    ∃ unit, CompilationUnit.ofText? "file:///A.java" " @A\nclass X \x7b\x7d" = some unit ∧
      ∃ fix ∈ FixRegistry.builtinFixes, ∃ proposals,
        fix.propose ((Diagnostic.error "" "" "" ⟨10, 11⟩).withNames ["A"]) unit = .ok proposals ∧
        ∃ p ∈ proposals, ∃ e ∈ p.edits, e.range.toSpan = ⟨0, 4⟩ ∧
          ∃ found, unit.declarationAt? ⟨10, 11⟩ = some found ∧ found.owner.span = ⟨1, 14⟩ ∧
            Confined unit found.owner e := by
  have facts : (CompilationUnit.ofText? "file:///A.java" " @A\nclass X \x7b\x7d").map (fun unit =>
      decide unit.Solid &&
        (unit.declarationAt? ⟨10, 11⟩).any (fun found => decide (found.owner.span = ⟨1, 14⟩)) &&
        FixRegistry.builtinFixes.any fun fix =>
          (fix.propose ((Diagnostic.error "" "" "" ⟨10, 11⟩).withNames ["A"]) unit).toOption.any
            (·.any (·.edits.any fun e => decide (e.range.toSpan = ⟨0, 4⟩)))) = some true := by
    decide +kernel
  obtain ⟨unit, lowered, facts⟩ := Option.map_eq_some_iff.1 facts
  simp only [Bool.and_eq_true, Option.any_eq_true, List.any_eq_true, decide_eq_true_eq] at facts
  obtain ⟨⟨solid, found, hfound, owner⟩, fix, hfix, proposals, answer, p, hp, e, he, range⟩ := facts
  have hok := eq_ok_of_toOption answer
  obtain ⟨found', hfound', confined⟩ := builtinFixes_confined solid hfix _ hok p hp e he
  obtain rfl : found = found' := Option.some.inj (hfound.symm.trans hfound')
  exact ⟨unit, lowered, fix, hfix, proposals, hok, p, hp, e, he, range, found, hfound, owner,
    confined⟩

end JakartaCheck
