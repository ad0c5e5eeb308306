import JakartaCheck.Java.Reading
import JakartaCheck.Proofs.FixRegistration
import JakartaCheck.Proofs.InnermostDeclarations

/-!
# Removing annotations

Edits that only delete cut their ranges out of the text (`Edit.applyAll_deletions`). A deletion that
stands for an annotation takes blanks besides, and no other character (`Family.covers_deletions`).
So what is left after the removal of annotations is, up to white space, the text without them.
-/

namespace JakartaCheck

/-- The character that starts at the offset belongs to the span. -/
def Span.Covers (s : Span) (offset : Nat) : Prop := s.start ≤ offset ∧ offset < s.stop

instance (s : Span) (offset : Nat) : Decidable (s.Covers offset) :=
  inferInstanceAs (Decidable (_ ∧ _))

/-- A removal covers the same visible characters as the span. -/
theorem Draft.Removal.covers_iff {text : String} {s r : Span} (h : Draft.Removal text s r) {o : Nat}
    {c : Char} (hc : Text.charAt? text o = some c) (hblank : Text.isBlank c = false) :
    r.Covers o ↔ s.Covers o := by
  constructor
  · rintro ⟨hlo, hhi⟩
    refine ⟨Nat.le_of_not_lt fun hlt => ?_, Nat.lt_of_not_le fun hle => ?_⟩
    · rw [h.front.charAt? hc hlo hlt] at hblank
      cases hblank
    · rw [h.back.charAt? hc hle hhi] at hblank
      cases hblank
  · rintro ⟨hlo, hhi⟩
    exact ⟨Nat.le_trans h.start_le hlo, Nat.lt_of_lt_of_le hhi h.le_stop⟩

namespace Text

/-- What is left of a text that starts at offset `n` if the spans are cut out. -/
def cutOut (spans : List Span) (n : Nat) : List Char → List Char
  | [] => []
  | c :: cs =>
    if ∃ s ∈ spans, s.Covers n then cutOut spans (n + c.utf8Size) cs
    else c :: cutOut spans (n + c.utf8Size) cs

variable {spans spans' : List Span} {s : Span} {n : Nat} {cs : List Char}

theorem cutOut_append (spans : List Span) (n : Nat) (a b : List Char) :
    cutOut spans n (a ++ b) = cutOut spans n a ++ cutOut spans (n + byteLen a) b := by
  induction a generalizing n with
  | nil => rfl
  | cons c a ih =>
    rw [List.cons_append, cutOut, cutOut, ih, byteLen_cons, Nat.add_assoc]
    split <;> rfl

/-- Nothing is cut out of a part that the spans do not cover. -/
theorem cutOut_eq_self (h : ∀ o, n ≤ o → o < n + byteLen cs → ∀ s ∈ spans, ¬ s.Covers o) :
    cutOut spans n cs = cs := by
  induction cs generalizing n with
  | nil => rfl
  | cons c cs ih =>
    have hpos := c.utf8Size_pos
    have hfirst : ¬ ∃ s ∈ spans, s.Covers n := fun ⟨s, hs, hcov⟩ =>
      h n (Nat.le_refl _) (by rw [byteLen_cons]; omega) s hs hcov
    rw [cutOut, if_neg hfirst, ih fun o hlo hhi => h o (by omega) (by rw [byteLen_cons]; omega)]

theorem cutOut_eq_nil (hs : s ∈ spans) (hstart : s.start ≤ n) (hstop : n + byteLen cs ≤ s.stop) :
    cutOut spans n cs = [] := by
  induction cs generalizing n with
  | nil => rfl
  | cons c cs ih =>
    have hpos := c.utf8Size_pos
    rw [byteLen_cons] at hstop
    have hfirst : ∃ s ∈ spans, s.Covers n := ⟨s, hs, hstart, by omega⟩
    rw [cutOut, if_pos hfirst, ih (by omega) (by omega)]

/-- A span that ends before a part cuts nothing out of it. -/
theorem cutOut_cons_of_le (h : s.stop ≤ n) : cutOut (s :: spans) n cs = cutOut spans n cs := by
  induction cs generalizing n with
  | nil => rfl
  | cons c cs ih =>
    have hno : ¬ s.Covers n := fun hcov => Nat.not_lt.2 h hcov.2
    have hsame : (∃ t ∈ s :: spans, t.Covers n) ↔ ∃ t ∈ spans, t.Covers n := by simp [hno]
    simp only [cutOut, hsame, ih (Nat.le_trans h (Nat.le_add_right _ _))]

theorem cutOut_perm (h : spans.Perm spans') : cutOut spans n cs = cutOut spans' n cs := by
  induction cs generalizing n with
  | nil => rfl
  | cons c cs ih => simp only [cutOut, h.mem_iff, ih]

/-- Up to blanks it only matters which visible characters the spans cover. -/
theorem dropBlanks_cutOut_congr {text : String}
    (h : ∀ o c, charAt? text o = some c → isBlank c = false →
      ((∃ s ∈ spans, s.Covers o) ↔ ∃ s ∈ spans', s.Covers o)) :
    dropBlanks (cutOut spans 0 text.toList) = dropBlanks (cutOut spans' 0 text.toList) := by
  suffices hparts : ∀ front cs, text.toList = front ++ cs →
      dropBlanks (cutOut spans (byteLen front) cs) = dropBlanks (cutOut spans' (byteLen front) cs) from
    hparts [] _ rfl
  intro front cs htext
  induction cs generalizing front with
  | nil => rfl
  | cons c cs ih =>
    have hrest := ih (front ++ [c]) (by simpa using htext)
    rw [byteLen_append, byteLen_cons, byteLen_nil, Nat.add_zero] at hrest
    cases hblank : isBlank c with
    | true =>
      have hskip : ∀ rest, dropBlanks (c :: rest) = dropBlanks rest := fun rest => by
        simp [dropBlanks, hblank]
      simp only [cutOut, apply_ite dropBlanks, hskip, ite_self, hrest]
    | false =>
      have hkeep : ∀ rest, dropBlanks (c :: rest) = c :: dropBlanks rest := fun rest => by
        simp [dropBlanks, hblank]
      have hsame := h (byteLen front) c (charAt?_eq_some_iff.2 ⟨front, cs, htext, rfl⟩) hblank
      simp only [cutOut, apply_ite dropBlanks, hkeep, hsame, hrest]

end Text

/-! ### Edits that only delete -/

namespace Edit

variable {text : String} {edits : List Edit}

/-- No edit of a layout starts before it. -/
theorem Laid.le_start {n : Nat} {cs : List Char} (h : Laid n cs edits) :
    ∀ edit ∈ edits, n ≤ edit.range.start := by
  induction h with
  | nil => nofun
  | @cons n kept gone rest edit edits hstart hstop _ ih =>
    refine List.forall_mem_cons.2 ⟨by omega, fun e he => ?_⟩
    have := ih e he
    omega

theorem Laid.splice_deletions {n : Nat} {cs : List Char} (h : Laid n cs edits)
    (hempty : ∀ edit ∈ edits, edit.replacement = "") :
    splice n edits cs = Text.cutOut (edits.map (·.range.toSpan)) n cs := by
  induction h with
  | nil n cs =>
    rw [splice]
    exact (Text.cutOut_eq_self (by simp)).symm
  | @cons n kept gone rest edit edits hstart hstop htail ih =>
    obtain ⟨hedit, hedits⟩ := List.forall_mem_cons.1 hempty
    have hkept : Text.cutOut ((edit :: edits).map (·.range.toSpan)) n kept = kept := by
      refine Text.cutOut_eq_self fun o _ hlt s hs hcov => ?_
      obtain ⟨e, he, rfl⟩ := List.mem_map.1 hs
      have hfirst : edit.range.start ≤ e.range.start := by
        rcases List.mem_cons.1 he with rfl | he
        · exact Nat.le_refl _
        · exact Nat.le_trans edit.range.start_le_stop (htail.le_start e he)
      have hcov : e.range.start ≤ o := hcov.1
      omega
    have hgone : Text.cutOut ((edit :: edits).map (·.range.toSpan)) (n + Text.byteLen kept) gone = [] :=
      Text.cutOut_eq_nil (List.mem_map_of_mem List.mem_cons_self) (Nat.le_of_eq hstart)
        (by rw [← hstart]; exact Nat.le_of_eq hstop.symm)
    have hrest : Text.cutOut ((edit :: edits).map (·.range.toSpan)) edit.range.stop rest =
        Text.cutOut (edits.map (·.range.toSpan)) edit.range.stop rest :=
      Text.cutOut_cons_of_le (Nat.le_refl _)
    rw [splice_cons hstart hstop, ih hedits, hedit, Text.cutOut_append, Text.cutOut_append, hkept,
      hgone, ← hstart, ← hstop, hrest]
    simp

/-- Deletions that can be applied cut their ranges out of the text. -/
theorem applyAll_deletions (h : Applicable text edits)
    (hempty : ∀ edit ∈ edits, edit.replacement = "") : applyAll text edits =
      .ok (String.ofList (Text.cutOut (edits.map (·.range.toSpan)) 0 text.toList)) := by
  have hperm := List.mergeSort_perm edits le
  have hlaid := (h.perm hperm.symm).laid (pairwise_sorted edits)
  refine applyAll_eq_ok_iff.2 ⟨h, ?_⟩
  rw [hlaid.splice_deletions fun edit he => hempty edit (hperm.mem_iff.1 he),
    Text.cutOut_perm (hperm.map _)]

end Edit

/-! ### The proposals to remove annotations -/

namespace Located

def parameters : Located → List Parameter
  | .method _ m => m.params
  | _ => []

/-- The annotations of a name that stand on the declaration or, if it is a method, on one of its
parameters. -/
def carried (name : String) (d : Located) : List AnnotationUse :=
  (d.modifiers.annotations ++ d.parameters.flatMap (·.modifiers.annotations)).filter
    (·.simpleName == name)

end Located

namespace Family

variable {unit : CompilationUnit} {d : Diagnostic} {found : Located} {text name : String}
  {annotations : List AnnotationUse} {deletions : List Edit}

theorem carried_eq (name : String) (found : Located) :
    found.carried name = (removable found).filter (·.simpleName == name) := by
  cases found <;> simp [Located.carried, Located.parameters, Located.modifiers, removable]

/-- The deletions cover the same visible characters as the annotations. -/
theorem covers_deletions (h : List.Forall₂ (Deletes text) annotations deletions) {o : Nat} {c : Char}
    (hc : Text.charAt? text o = some c) (hblank : Text.isBlank c = false) :
    (∃ s ∈ deletions.map (·.range.toSpan), s.Covers o) ↔
      ∃ s ∈ annotations.map (·.span), s.Covers o := by
  constructor
  · rintro ⟨s, hs, hcov⟩
    obtain ⟨edit, hedit, rfl⟩ := List.mem_map.1 hs
    obtain ⟨a, ha, hdel⟩ := exists_of_mem_right h hedit
    exact ⟨a.span, List.mem_map_of_mem ha, (hdel.removal.covers_iff hc hblank).1 hcov⟩
  · rintro ⟨s, hs, hcov⟩
    obtain ⟨a, ha, rfl⟩ := List.mem_map.1 hs
    obtain ⟨edit, hedit, hdel⟩ := exists_of_mem_left h ha
    exact ⟨_, List.mem_map_of_mem hedit, (hdel.removal.covers_iff hc hblank).2 hcov⟩

theorem removeLabel_inj {a b : String} : s!"Remove @{a}" = s!"Remove @{b}" ↔ a = b := by
  simp [toString, ← String.toList_inj]

/-- The proposal deletes pieces that do not overlap, so normalizing never drops it. What it leaves is
the text without the annotations, up to white space. -/
structure CutsOut (text : String) (annotations : List AnnotationUse) (p : Proposal) : Prop where
  deletes : ∀ edit ∈ p.edits, edit.replacement = ""
  disjoint : p.edits.Pairwise fun e f => e.range.toSpan.Disjoint f.range.toSpan
  kept : (FixRegistry.normalize? text p).isSome
  left : ∃ out, Edit.applyAll text p.edits = .ok out ∧ Text.dropBlanks out.toList =
    Text.dropBlanks (Text.cutOut (annotations.map (·.span)) 0 text.toList)

theorem Answers.cutsOut {candidates : List AnnotationUse} {p : Proposal}
    (h : Answers text candidates name (some p)) (hsolid : ∀ a ∈ candidates, a.span.Solid text)
    (hdisjoint : candidates.Pairwise fun a b => a.span.Disjoint b.span) :
    CutsOut text (candidates.filter (·.simpleName == name)) p := by
  obtain ⟨-, hne, hall⟩ := h.deletes
  have happ := h.applicable hsolid hdisjoint
  have hempty : ∀ edit ∈ p.edits, edit.replacement = "" := fun edit hedit =>
    let ⟨_, _, hdel⟩ := exists_of_mem_right hall hedit
    hdel.empty
  refine ⟨hempty, happ.apart.imp And.left, FixRegistry.isSome_normalize?_iff.2 ⟨hne, happ⟩,
    _, Edit.applyAll_deletions happ hempty, ?_⟩
  rw [String.toList_ofList]
  exact Text.dropBlanks_cutOut_congr fun o c hc hblank => covers_deletions hall hc hblank

/-- A proposal is the answer to one of the names. -/
theorem exists_answers_of_fits (hsmall : Text.length unit.text < ByteRange.modulus)
    (hfits : ∀ found : Located, found.Of unit → ∀ a ∈ removable found, a.span.Fits unit.text)
    {proposals : List Proposal} (hok : proposeRemoveAnnotations d unit = .ok proposals) {p : Proposal}
    (hp : p ∈ proposals) :
    ∃ found, unit.declarationAt? d.span = some found ∧ found.Of unit ∧
      ∃ name ∈ d.names, Answers unit.text (removable found) name (some p) := by
  have hnames : d.names ≠ [] := by
    intro hnone
    simp [proposeRemoveAnnotations, hnone, decline, bind, Except.bind] at hok
  cases hfound : unit.declarationAt? d.span with
  | none =>
    have hsome : d.names.isEmpty = false := by simpa using hnames
    simp [proposeRemoveAnnotations, hsome, locate, hfound, decline, bind, Except.bind] at hok
  | some found =>
    have hof := (CompilationUnit.around_of_declarationAt? hfound).1.of
    obtain ⟨answers, hall, heq⟩ :=
      proposeRemoveAnnotations_eq_of_fits hsmall (hfits found hof) hnames hfound
    rw [heq] at hok
    split at hok
    · cases hok
    · obtain rfl := Except.ok.inj hok
      obtain ⟨name, hname, hanswer⟩ := exists_of_mem_right (y := some p) hall (by simpa using hp)
      exact ⟨found, rfl, hof, name, hname, hanswer⟩

theorem exists_answers_of_proposed (h : unit.AnnotationsApart) {proposals : List Proposal}
    (hok : proposeRemoveAnnotations d unit = .ok proposals) {p : Proposal} (hp : p ∈ proposals) :
    ∃ found, unit.declarationAt? d.span = some found ∧ found.Of unit ∧
      ∃ name ∈ d.names, Answers unit.text (removable found) name (some p) :=
  exists_answers_of_fits h.small (fun _ hof a ha => (removable_solid h hof a ha).toFits) hok hp

/-- There is a proposal to remove a name exactly if the declaration carries annotations of that name.
It cuts them out of the text, and nothing else that can be seen. -/
theorem proposeRemoveAnnotations_cuts_out (h : unit.AnnotationsApart) (hname : name ∈ d.names) :
    ((∃ proposals, proposeRemoveAnnotations d unit = .ok proposals ∧
        ∃ p ∈ proposals, p.label = s!"Remove @{name}") ↔
      ∃ found, unit.declarationAt? d.span = some found ∧ found.carried name ≠ []) ∧
    ∀ proposals, proposeRemoveAnnotations d unit = .ok proposals →
      ∀ p ∈ proposals, p.label = s!"Remove @{name}" →
        ∃ found, unit.declarationAt? d.span = some found ∧
          CutsOut unit.text (found.carried name) p := by
  have hanswered : ∀ proposals, proposeRemoveAnnotations d unit = .ok proposals →
      ∀ p ∈ proposals, p.label = s!"Remove @{name}" →
        ∃ found, unit.declarationAt? d.span = some found ∧ found.Of unit ∧
          Answers unit.text (removable found) name (some p) := by
    intro proposals hok p hp hlabel
    obtain ⟨found, hfound, hof, name', -, hanswers⟩ := exists_answers_of_proposed h hok hp
    obtain rfl := removeLabel_inj.1 (hlabel.symm.trans hanswers.deletes.1)
    exact ⟨found, hfound, hof, hanswers⟩
  refine ⟨⟨?_, ?_⟩, fun proposals hok p hp hlabel => ?_⟩
  · rintro ⟨proposals, hok, p, hp, hlabel⟩
    obtain ⟨found, hfound, -, hanswers⟩ := hanswered proposals hok p hp hlabel
    exact ⟨found, hfound, carried_eq name found ▸ hanswers.isSome_iff.1 rfl⟩
  · rintro ⟨found, hfound, hcarried⟩
    have hof := (CompilationUnit.around_of_declarationAt? hfound).1.of
    obtain ⟨answers, hall, heq⟩ :=
      proposeRemoveAnnotations_eq h (List.ne_nil_of_mem hname) hfound hof
    obtain ⟨answer, hanswer, hanswers⟩ := exists_of_mem_left hall hname
    rw [carried_eq] at hcarried
    obtain ⟨p, rfl⟩ := Option.isSome_iff_exists.1 (hanswers.isSome_iff.2 hcarried)
    have hp : p ∈ answers.filterMap id := by simpa using hanswer
    exact ⟨_, by rw [heq, if_neg (List.ne_nil_of_mem hp)], p, hp, hanswers.deletes.1⟩
  · obtain ⟨found, hfound, hof, hanswers⟩ := hanswered proposals hok p hp hlabel
    refine ⟨found, hfound, ?_⟩
    rw [carried_eq]
    exact hanswers.cutsOut (removable_solid h hof) (removable_disjoint h hof)

/-- An annotation on a line of its own, and the same on a parameter. -/
theorem proposeRemoveAnnotations_cuts_out_parameter :
    ∃ unit, CompilationUnit.ofText? "file:///A.java"
        "class A \x7b\r\n @X\r\n void f(@X int p) \x7b\x7d \x7d" = some unit ∧
      ∃ proposals, proposeRemoveAnnotations
          ((Diagnostic.error "" "" "" ⟨22, 23⟩).withNames ["X"]) unit = .ok proposals ∧
        ∃ p ∈ proposals, p.label = "Remove @X" ∧ ∃ out, Edit.applyAll unit.text p.edits = .ok out ∧
          String.ofList (Text.dropBlanks out.toList) = "classA\x7bvoidf(intp)\x7b\x7d\x7d" := by
  have facts : (CompilationUnit.ofText? "file:///A.java"
      "class A \x7b\r\n @X\r\n void f(@X int p) \x7b\x7d \x7d").map (fun unit =>
        decide unit.AnnotationsApart && (unit.declarationAt? ⟨22, 23⟩).any fun found =>
          decide (found.carried "X" ≠ [] ∧
            Text.dropBlanks (Text.cutOut ((found.carried "X").map (·.span)) 0 unit.text.toList) =
              "classA\x7bvoidf(intp)\x7b\x7d\x7d".toList)) = some true := by
    decide +kernel
  obtain ⟨unit, lowered, facts⟩ := Option.map_eq_some_iff.1 facts
  simp only [Bool.and_eq_true, Option.any_eq_true, decide_eq_true_eq] at facts
  obtain ⟨apart, found, hfound, carried, visible⟩ := facts
  have named : "X" ∈ ((Diagnostic.error "" "" "" ⟨22, 23⟩).withNames ["X"]).names := by decide
  have removed := proposeRemoveAnnotations_cuts_out apart named
  obtain ⟨proposals, hok, p, hp, label⟩ := removed.1.2 ⟨found, hfound, carried⟩
  obtain ⟨found', hfound', cuts⟩ := removed.2 proposals hok p hp label
  obtain rfl : found = found' := Option.some.inj (hfound.symm.trans hfound')
  obtain ⟨out, applied, left⟩ := cuts.left
  exact ⟨unit, lowered, proposals, hok, p, hp, label, out, applied, by rw [left, visible]; rfl⟩

end Family

end JakartaCheck
