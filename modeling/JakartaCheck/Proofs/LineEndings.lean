import JakartaCheck.Proofs.DraftedChanges
import JakartaCheck.Proofs.EditorExchange

/-!
# Fixes keep the line endings

A text whose lines all end in `\r\n` (`Text.CrLfOnly`) keeps them when a fix is applied, and one
without `\r` gets none. Both are properties that pieces of the text have and that what a fix writes
has, and that are kept when pieces are put together (`LineStyle`). It is only used that no edit ends
between the two characters of `\r\n` (`Change.stop_outside`).
-/

namespace JakartaCheck

open LineIndex (InsideCrLf)

/-- Every `\n` comes behind a `\r`. -/
def Text.CrLfOnly (cs : List Char) : Prop := ∀ a b, cs = a ++ '\n' :: b → a.getLast? = some '\r'

theorem Text.crLfOnly_iff {cs : List Char} : Text.CrLfOnly cs ↔
    ∀ k < cs.length, cs[k]? = some '\n' → (cs.take k).getLast? = some '\r' := by
  constructor
  · intro h k _ hk
    obtain ⟨hlt, heq⟩ := List.getElem?_eq_some_iff.1 hk
    exact h (cs.take k) (cs.drop (k + 1)) (by rw [← heq, List.getElem_cons_drop, List.take_append_drop])
  · rintro h a b rfl
    have hlast := h a.length (by simp) (by simp)
    simpa using hlast

instance (cs : List Char) : Decidable (Text.CrLfOnly cs) := decidable_of_iff _ Text.crLfOnly_iff.symm

/-- A property of all pieces of a text but those that start inside `\r\n`, which what a fix writes
has as well. -/
structure LineStyle (text : String) (P : List Char → Prop) : Prop where
  plain : ∀ cs, (∀ c ∈ cs, c ≠ '\n' ∧ c ≠ '\r') → P cs
  append : ∀ a b, P a → P b → P (a ++ b)
  piece : ∀ a m b, text.toList = a ++ (m ++ b) → ¬ InsideCrLf text.toList (Text.byteLen a) → P m
  lineEnding : P (Draft.lineEnding text).toList

/-! ### The two styles -/

namespace Text.CrLfOnly

variable {a b : List Char}

theorem append (ha : CrLfOnly a) (hb : CrLfOnly b) : CrLfOnly (a ++ b) := by
  intro x y heq
  rcases List.append_eq_append_iff.1 heq with ⟨m, rfl, hm⟩ | ⟨m, rfl, hm⟩
  · rw [List.getLast?_append, hb m y hm, Option.some_or]
  · cases m with
    | nil => exact absurd (hb [] y hm.symm) (by simp)
    | cons c m =>
      obtain ⟨rfl, -⟩ := List.cons.inj hm
      exact ha x m rfl

theorem lineStyle {text : String} (h : CrLfOnly text.toList)
    (hmark : occursIn ['\r', '\n'] text.toList) : LineStyle text CrLfOnly where
  plain cs hcs a b heq := absurd rfl (hcs '\n' (by simp [heq])).1
  append _ _ := append
  piece a m b htext hout x y hm := by
    subst hm
    have hlast := h (a ++ x) (y ++ b) (by simp [htext])
    rcases x.eq_nil_or_concat with rfl | ⟨x, c, rfl⟩
    -- the piece starts with the `\n`, so its `\r` stands in front of the piece
    · rw [List.append_nil] at hlast
      obtain ⟨front, rfl⟩ := List.getLast?_eq_some_iff.1 hlast
      refine absurd ⟨front, y ++ b, by simpa using htext, ?_⟩ hout
      have hone : ('\r' : Char).utf8Size = 1 := by decide
      rw [byteLen_append, byteLen_cons, byteLen_nil, hone]
    · simpa using hlast
  lineEnding := by
    rw [Draft.lineEnding, if_pos hmark]
    intro a b heq
    match a with
    | [] => cases heq
    | ['\r'] => rfl
    | _ :: _ :: _ => simp at heq

end Text.CrLfOnly

theorem lineStyle_of_no_return {text : String} (h : '\r' ∉ text.toList) :
    LineStyle text fun cs => '\r' ∉ cs where
  plain cs hcs hmem := absurd rfl (hcs '\r' hmem).2
  append a b ha hb hmem := (List.mem_append.1 hmem).elim ha hb
  piece a m b htext _ hmem := h (by simp [htext, hmem])
  lineEnding := by
    have hno : ¬ Text.occursIn ['\r', '\n'] text.toList := fun hmark =>
      h ((Text.occursIn_iff.1 hmark).subset List.mem_cons_self)
    rw [Draft.lineEnding, if_neg hno]
    decide

/-! ### Edits that keep a style -/

section

variable {text : String} {P : List Char → Prop} {edits : List Edit}

theorem LineStyle.splice (style : LineStyle text P) {n : Nat} {cs : List Char}
    (laid : Edit.Laid n cs edits) (front : List Char) (htext : text.toList = front ++ cs)
    (hn : Text.byteLen front = n) (hout : ¬ InsideCrLf text.toList n)
    (hedits : ∀ e ∈ edits, P e.replacement.toList ∧ ¬ InsideCrLf text.toList e.range.stop) :
    P (Edit.splice n edits cs) := by
  induction laid generalizing front with
  | nil n cs => exact style.piece front cs [] (by simpa using htext) (hn ▸ hout)
  | @cons n kept gone rest edit edits hstart hstop _ ih =>
    obtain ⟨⟨hnew, hcut⟩, hrest⟩ := List.forall_mem_cons.1 hedits
    have hlen : Text.byteLen (front ++ kept ++ gone) = edit.range.stop := by
      simp only [Text.byteLen_append]
      omega
    rw [Edit.splice_cons hstart hstop]
    refine style.append _ _ (style.append _ _ ?_ hnew)
      (ih (front ++ kept ++ gone) (by simpa using htext) hlen hcut hrest)
    exact style.piece front kept (gone ++ rest) htext (hn ▸ hout)

theorem LineStyle.applyAll (style : LineStyle text P)
    (hedits : ∀ e ∈ edits, P e.replacement.toList ∧ ¬ InsideCrLf text.toList e.range.stop)
    {out : String} (hout : Edit.applyAll text edits = .ok out) : P out.toList := by
  obtain ⟨happ, rfl⟩ := Edit.applyAll_eq_ok_iff.1 hout
  have hperm := List.mergeSort_perm edits Edit.le
  have hlaid := (happ.perm hperm.symm).laid (Edit.pairwise_sorted edits)
  have hzero : ¬ InsideCrLf text.toList 0 := fun ⟨_, _, _, hlen⟩ => by omega
  rw [String.toList_ofList]
  exact style.splice hlaid [] rfl rfl hzero fun e he => hedits e (hperm.mem_iff.1 he)

end

/-! ### Changes -/

variable {unit : CompilationUnit} {t : TypeDecl} {d : Diagnostic}

theorem Text.Seam.outside {text : String} {offset : Nat} (h : Text.Seam text offset) :
    ¬ InsideCrLf text.toList offset := by
  intro hinside
  obtain ⟨hbefore, hat⟩ := Text.insideCrLf_iff.1 hinside
  rw [Text.Seam, hbefore, hat] at h
  exact absurd h (by decide)

/-- A new import goes in behind another one, behind a `;`, or in front of a type. -/
theorem importEdit?_seam (h : unit.Solid) (ht : t ∈ unit.types) {fqn : String} {imported : Edit}
    (himported : Imports.importEdit? unit fqn = some imported) :
    Text.Seam unit.text imported.range.stop := by
  have hmod : ∀ offset, Text.Seam unit.text offset → Text.isBoundary unit.text offset →
      Text.Seam unit.text (offset % ByteRange.modulus) := fun offset hseam hcut => by
    rwa [Nat.mod_eq_of_lt (Nat.lt_of_le_of_lt (Text.isBoundary_iff.1 hcut).le h.small)]
  rcases Imports.importEdit?_cases himported with ⟨i, new, hanchor, rfl, -⟩ |
    ⟨offset, new, -, hpackage, rfl, -⟩ | ⟨new, -, rfl, -⟩
  · have hsolid := (h.imports i (Imports.mem_of_anchor? hanchor)).1
    exact hmod _ (.inl hsolid.last) hsolid.stop_cut
  · obtain ⟨a, b, htext, hlen, -⟩ := Imports.packageEnd?_eq_some hpackage
    have hbefore : Text.charBefore? unit.text offset = some ';' :=
      Text.charBefore?_eq_some_iff.2 ⟨a, b, htext, hlen⟩
    refine hmod _ (.inl ?_) (Text.isBoundary_iff.2 ⟨_, b, htext, hlen⟩)
    rw [hbefore]
    decide
  · obtain ⟨u, hu, hfirst⟩ : ∃ u ∈ unit.types, u.span.start = Imports.firstType unit := by
      rw [Imports.firstType]
      cases hmin : (unit.types.map (·.span.start)).min? with
      | none =>
        have hempty := List.map_eq_nil_iff.1 (List.min?_eq_none_iff.1 hmin)
        rw [hempty] at ht
        cases ht
      | some start =>
        obtain ⟨u, hu, rfl⟩ := List.mem_map.1 (List.min?_eq_some_iff.1 hmin).1
        exact ⟨u, hu, rfl⟩
    have hsolid := (h.spans u hu u.span (span_mem_spans u)).1
    rw [← hfirst]
    exact hmod _ (.inr hsolid.first) hsolid.start_cut

theorem Change.stop_outside (h : unit.Solid) (ht : t ∈ unit.types) {e : Edit}
    (hchange : Change unit t e) : ¬ InsideCrLf unit.text.toList e.range.stop := by
  cases hchange with
  | @remove s range hs hrange =>
    intro hinside
    have hsolid := (h.spans t ht s hs).1
    exact Draft.charBefore?_stop_removalSpan hsolid hrange (Text.insideCrLf_iff.1 hinside).1
  | @replace range new hs hnew =>
    have hseam : Text.Seam unit.text range.stop := .inl (h.spans t ht _ hs).1.last
    exact hseam.outside
  | @insert offset new hin hseam hnew => exact hseam.outside
  | @importing fqn imported new himported hnew => exact (importEdit?_seam h ht himported).outside

/-- Names are words, and the text of an argument's value is what stands in the source. -/
@[mk_iff] structure CompilationUnit.Spelled (unit : CompilationUnit) : Prop where
  names : ∀ t ∈ unit.types, ∀ name ∈ t.names, ∀ c ∈ name.toList, Java.continuesWord c
  values : ∀ t ∈ unit.types, ∀ a ∈ t.annotations, ∀ arg ∈ a.args,
    Text.slice? unit.text arg.valueSpan.start arg.valueSpan.stop = some arg.valueText

instance (unit : CompilationUnit) : Decidable unit.Spelled :=
  letI (name : String) : Decidable (∀ c ∈ name.toList, Java.continuesWord c) :=
    List.decidableBAll _ name.toList
  decidable_of_iff _ (CompilationUnit.spelled_iff unit).symm

theorem Written.styled {P : List Char → Prop} (style : LineStyle unit.text P) (h : unit.Solid)
    (hspelled : unit.Spelled) (ht : t ∈ unit.types) {new : String} (hnew : Written unit t new) :
    P new.toList := by
  induction hnew with
  | plain hplain => exact style.plain _ hplain
  | lineEnding => exact style.lineEnding
  | name hname =>
    refine style.plain _ fun c hc => ?_
    have hword := hspelled.names t ht _ hname c hc
    refine ⟨?_, ?_⟩ <;> rintro rfl <;>
      rw [Java.not_continuesWord_of_isBlank (by decide)] at hword <;> cases hword
  | @value a arg ha harg =>
    have hvalue := hspelled.values t ht a ha arg harg
    have hs := annotation_spans_subset ha arg.valueSpan (argument_mem_spans harg).2
    obtain ⟨a, b, htext, hlen, -⟩ := Text.slice?_eq_some_iff.1 hvalue
    have hseam : Text.Seam unit.text arg.valueSpan.start := .inr (h.spans t ht _ hs).1.first
    exact style.piece a _ b (by simpa using htext) (hlen ▸ hseam.outside)
  | append _ _ iha ihb =>
    rw [String.toList_append]
    exact style.append _ _ iha ihb

theorem Change.styled {P : List Char → Prop} (style : LineStyle unit.text P) (h : unit.Solid)
    (hspelled : unit.Spelled) (ht : t ∈ unit.types) {e : Edit} (hchange : Change unit t e) :
    P e.replacement.toList := by
  cases hchange with
  | remove => exact style.plain _ (by simp)
  | replace _ hnew => exact hnew.styled style h hspelled ht
  | insert _ _ hnew => exact hnew.styled style h hspelled ht
  | importing _ hnew => exact hnew.styled style h hspelled ht

namespace FixRegistry

theorem exists_proposed {r : FixRegistry} {p : Proposal} (hp : p ∈ r.proposalsFor d unit) :
    ∃ fix ∈ r.entries, ∃ proposals, fix.propose d unit = .ok proposals ∧
      ∃ raw ∈ proposals, normalize? unit.text raw = some p := by
  rw [proposalsFor] at hp
  split at hp
  · cases hp
  · rename_i fix hfix
    split at hp
    · rename_i proposals hok
      obtain ⟨raw, hraw, hnormal⟩ := List.mem_filterMap.1 hp
      exact ⟨fix, (Registry.mem_of_entryFor? hfix).1, proposals, hok, raw, hraw, hnormal⟩
    · cases hp

/-- The proposals of the built-in fixes can be applied. A text whose lines all end in `\r\n` is left
with such lines only, and a text without `\r` without `\r`. -/
theorem builtin_keeps_line_endings (h : unit.Solid) (hspelled : unit.Spelled) {p : Proposal}
    (hp : p ∈ builtin.proposalsFor d unit) : ∃ out, Edit.applyAll unit.text p.edits = .ok out ∧
      (Text.CrLfOnly unit.text.toList → Text.occursIn ['\r', '\n'] unit.text.toList →
        Text.CrLfOnly out.toList) ∧
      ('\r' ∉ unit.text.toList → '\r' ∉ out.toList) := by
  obtain ⟨fix, hfix, proposals, hok, raw, hraw, hnormal⟩ := exists_proposed hp
  obtain ⟨out, hout, hrawout⟩ := (fitted_of_normalize? hnormal).same
  have hdrafted := builtinFixes_drafted h hfix hok raw hraw
  have hstyled : ∀ P, LineStyle unit.text P → P out.toList := fun P style => by
    refine style.applyAll (fun e he => ?_) hrawout
    obtain ⟨found, hfound, hchange⟩ := hdrafted e he
    have ht := (CompilationUnit.around_of_declarationAt? hfound).1.of.owner_mem
    exact ⟨hchange.styled style h hspelled ht, hchange.stop_outside h ht⟩
  exact ⟨out, hout, fun hcrlf hmark => hstyled _ (hcrlf.lineStyle hmark),
    fun hno => hstyled _ (lineStyle_of_no_return hno)⟩

/-- A constructor of three lines goes into a class of three lines. -/
theorem builtin_keeps_line_endings_constructor :
    ∃ unit, CompilationUnit.ofText? "file:///A.java" "class A \x7b\r\n  A(int x) \x7b\x7d\r\n\x7d\r\n" =
        some unit ∧
      ∃ p ∈ builtin.proposalsFor (.error "" Code.missingEmptyConstructor "" ⟨6, 7⟩) unit,
        p.label = "Add a public no-arg constructor to 'A'" ∧
        Text.CrLfOnly unit.text.toList ∧ ∃ out, Edit.applyAll unit.text p.edits = .ok out ∧
          Text.CrLfOnly out.toList := by
  have facts : (CompilationUnit.ofText? "file:///A.java"
      "class A \x7b\r\n  A(int x) \x7b\x7d\r\n\x7d\r\n").map (fun unit =>
        decide unit.Solid && decide unit.Spelled && decide (Text.CrLfOnly unit.text.toList) &&
        Text.occursIn ['\r', '\n'] unit.text.toList &&
        (builtin.proposalsFor (.error "" Code.missingEmptyConstructor "" ⟨6, 7⟩) unit).any
          (·.label == "Add a public no-arg constructor to 'A'")) = some true := by
    decide +kernel
  obtain ⟨unit, lowered, facts⟩ := Option.map_eq_some_iff.1 facts
  simp only [Bool.and_eq_true, List.any_eq_true, decide_eq_true_eq, beq_iff_eq] at facts
  obtain ⟨⟨⟨⟨solid, spelled⟩, crlf⟩, mark⟩, p, proposed, label⟩ := facts
  obtain ⟨out, applied, kept, -⟩ := builtin_keeps_line_endings solid spelled proposed
  exact ⟨unit, lowered, p, proposed, label, crlf, out, applied, kept crlf mark⟩

end FixRegistry

end JakartaCheck
