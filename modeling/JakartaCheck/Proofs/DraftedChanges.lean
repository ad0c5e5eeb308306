import JakartaCheck.Fixes.Catalog
import JakartaCheck.Proofs.FamilyAlternatives
import JakartaCheck.Proofs.ImportEdits
import JakartaCheck.Proofs.InnermostDeclarations
import JakartaCheck.Proofs.UnitEncoding

/-!
# What fixes change

A unit is solid (`CompilationUnit.Solid`) if its spans start and end with something that can be seen
and those of a type lie in the type. In such a unit every edit that a fix drafts is one of four
changes (`Change`) to the type that owns the declaration: a piece of it goes or is replaced, a text is
put in at an edge inside of it, or an import is added. What is written has no line breaks, or comes
from the unit (`Written`).
-/

namespace JakartaCheck

/-! ### Spans and names of a type -/

/-- The names that a type and its members declare. -/
def TypeDecl.names (t : TypeDecl) : List String :=
  t.name :: (t.fields.flatMap (·.declarators.map (·.name)) ++
    t.methods.flatMap fun m => m.name :: m.params.map (·.name))

/-- The spans of a unit start and end with something that can be seen, and those of a type lie in the
type. The text is short enough for the offsets of edits, which have 32 bits. -/
@[mk_iff] structure CompilationUnit.Solid (unit : CompilationUnit) : Prop where
  small : Text.length unit.text < ByteRange.modulus
  imports : ∀ i ∈ unit.imports, i.span.Solid unit.text ∧ ∀ t ∈ unit.types, i.span.Disjoint t.span
  spans : ∀ t ∈ unit.types, ∀ s ∈ t.spans, s.Solid unit.text ∧ t.span.contains s
  bodies : ∀ t ∈ unit.types, Text.charAt? unit.text t.bodySpan.start = some '\x7b'
  arguments : ∀ t ∈ unit.types, ∀ a ∈ t.annotations, ∀ s ∈ a.argsSpan.toList,
    Text.charAt? unit.text s.start = some '('

instance (unit : CompilationUnit) : Decidable unit.Solid :=
  decidable_of_iff _ (CompilationUnit.solid_iff unit).symm

variable {unit : CompilationUnit} {t : TypeDecl} {d : Diagnostic} {found : Located}

/-! ### Spans of the parts -/

theorem argument_mem_spans {a : AnnotationUse} {arg : Argument} (harg : arg ∈ a.args) :
    arg.span ∈ a.spans ∧ arg.valueSpan ∈ a.spans := by
  have hspans : ∀ s ∈ arg.spans, s ∈ a.spans := fun s hs => by
    have : ∃ arg ∈ a.args, s ∈ arg.spans := ⟨arg, harg, hs⟩
    simp [AnnotationUse.spans, this]
  exact ⟨hspans _ (by simp [Argument.spans]), hspans _ (by simp [Argument.spans])⟩

theorem keyword_mem_spans {m : Modifiers} {k : Keyword} (hk : k ∈ m.keywords) : k.span ∈ m.spans := by
  have : ∃ l ∈ m.keywords, k.span ∈ l.spans := ⟨k, hk, List.mem_cons_self⟩
  simp [Modifiers.spans, this]

theorem span_mem_spans (t : TypeDecl) : t.span ∈ t.spans := by simp [TypeDecl.spans]

theorem supertype_mem_spans {r : TypeRef} (hr : r ∈ t.supertypes) : r.span ∈ t.spans := by
  rcases List.mem_append.1 hr with hr | hr
  · have hsuper : t.superclass = some r := Option.mem_toList.1 hr
    simp [TypeDecl.spans, hsuper, TypeRef.spans]
  · have : ∃ u ∈ t.interfaces, r.span ∈ u.spans := ⟨r, hr, List.mem_cons_self⟩
    simp [TypeDecl.spans, this]

theorem annotation_spans_subset {a : AnnotationUse} (ha : a ∈ t.annotations) :
    ∀ s ∈ a.spans, s ∈ t.spans := by
  intro s hs
  have hmodifiers : ∀ m : Modifiers, a ∈ m.annotations → s ∈ m.spans := fun m ham =>
    List.mem_append_right _ (List.mem_flatMap.2 ⟨a, ham, hs⟩)
  rcases List.mem_append.1 ha with ha | ha
  · simp [TypeDecl.spans, hmodifiers _ ha]
  · rcases List.mem_append.1 ha with ha | ha
    · obtain ⟨f, hf, ha⟩ := List.mem_flatMap.1 ha
      have : ∃ f ∈ t.fields, s ∈ f.spans := ⟨f, hf, by simp [FieldDecl.spans, hmodifiers _ ha]⟩
      simp [TypeDecl.spans, this]
    · obtain ⟨m, hm, ha⟩ := List.mem_flatMap.1 ha
      have hmem : s ∈ m.spans := by
        rcases List.mem_append.1 ha with ha | ha
        · simp [MethodDecl.spans, hmodifiers _ ha]
        · obtain ⟨p, hp, ha⟩ := List.mem_flatMap.1 ha
          have : ∃ p ∈ m.params, s ∈ p.spans := ⟨p, hp, by simp [Parameter.spans, hmodifiers _ ha]⟩
          simp [MethodDecl.spans, this]
      have : ∃ m ∈ t.methods, s ∈ m.spans := ⟨m, hm, hmem⟩
      simp [TypeDecl.spans, this]

theorem field_spans_subset {f : FieldDecl} (hf : f ∈ t.fields) : ∀ s ∈ f.spans, s ∈ t.spans := by
  intro s hs
  have : ∃ f ∈ t.fields, s ∈ f.spans := ⟨f, hf, hs⟩
  simp [TypeDecl.spans, this]

theorem method_spans_subset {m : MethodDecl} (hm : m ∈ t.methods) : ∀ s ∈ m.spans, s ∈ t.spans := by
  intro s hs
  have : ∃ m ∈ t.methods, s ∈ m.spans := ⟨m, hm, hs⟩
  simp [TypeDecl.spans, this]

namespace Located.Of

theorem span_mem (h : found.Of unit) : found.span ∈ found.owner.spans := by
  cases found with
  | type t => exact span_mem_spans t
  | field t f => exact field_spans_subset h.2 _ List.mem_cons_self
  | method t m => exact method_spans_subset h.2 _ List.mem_cons_self
  | parameter t m p =>
    refine method_spans_subset h.2.1 _ ?_
    have : ∃ q ∈ m.params, p.span ∈ q.spans := ⟨p, h.2.2, List.mem_cons_self⟩
    simp [Located.span, MethodDecl.spans, this]

theorem modifiers_mem (h : found.Of unit) : ∀ s ∈ found.modifiers.spans, s ∈ found.owner.spans := by
  intro s hs
  cases found with
  | type t =>
    have : s ∈ t.modifiers.spans := hs
    simp [Located.owner, TypeDecl.spans, this]
  | field t f =>
    have : s ∈ f.modifiers.spans := hs
    exact field_spans_subset h.2 _ (by simp [FieldDecl.spans, this])
  | method t m =>
    have : s ∈ m.modifiers.spans := hs
    exact method_spans_subset h.2 _ (by simp [MethodDecl.spans, this])
  | parameter t m p =>
    have hmodifiers : s ∈ p.modifiers.spans := hs
    have : ∃ q ∈ m.params, s ∈ q.spans := ⟨p, h.2.2, by simp [Parameter.spans, hmodifiers]⟩
    exact method_spans_subset h.2.1 _ (by simp [MethodDecl.spans, this])

/-- A field without variables has no name. -/
theorem name_mem (h : found.Of unit) : found.name ∈ found.owner.names ∨ found.name = "" := by
  cases found with
  | type t => exact .inl List.mem_cons_self
  | field t f =>
    show (f.declarators.head?.map (·.name)).getD "" ∈ t.names ∨ _ = ""
    cases hhead : f.declarators.head? with
    | none =>
      right
      simp [Located.name, hhead]
    | some v =>
      left
      have : ∃ f ∈ t.fields, ∃ w ∈ f.declarators, w.name = v.name :=
        ⟨f, h.2, v, List.mem_of_mem_head? hhead, rfl⟩
      simp [TypeDecl.names, this]
  | method t m =>
    left
    have : ∃ n ∈ t.methods, m.name = n.name ∨ ∃ p ∈ n.params, p.name = m.name := ⟨m, h.2, .inl rfl⟩
    simp [Located.name, Located.owner, TypeDecl.names, this]
  | parameter t m p =>
    left
    have : ∃ n ∈ t.methods, p.name = n.name ∨ ∃ q ∈ n.params, q.name = p.name :=
      ⟨m, h.2.1, .inr ⟨p, h.2.2, rfl⟩⟩
    simp [Located.name, Located.owner, TypeDecl.names, this]

end Located.Of

/-! ### Texts that are written -/

/-- The text has no line breaks. -/
def Plain (text : String) : Prop := ∀ c ∈ text.toList, c ≠ '\n' ∧ c ≠ '\r'

instance (text : String) : Decidable (Plain text) := List.decidableBAll _ text.toList

theorem plain_ofList {cs : List Char} (h : ∀ c ∈ cs, c ≠ '\n' ∧ c ≠ '\r') :
    Plain (String.ofList cs) := by
  unfold Plain
  rwa [String.toList_ofList]

theorem Plain.append {a b : String} (ha : Plain a) (hb : Plain b) : Plain (a ++ b) := by
  intro c hc
  rw [String.toList_append] at hc
  rcases List.mem_append.1 hc with hc | hc
  · exact ha c hc
  · exact hb c hc

theorem plain_intercalate {separator : String} (hseparator : Plain separator) {parts : List String}
    (hparts : ∀ part ∈ parts, Plain part) : Plain (String.intercalate separator parts) := by
  unfold Plain
  rw [String.toList_intercalate, List.intercalate]
  induction parts with
  | nil => simp
  | cons part parts ih =>
    obtain ⟨hpart, hrest⟩ := List.forall_mem_cons.1 hparts
    cases parts with
    | nil => simpa [Plain] using hpart
    | cons next parts =>
      rw [List.map_cons, List.map_cons, List.intersperse_cons_cons, List.flatten_cons, List.flatten_cons]
      intro c hc
      rcases List.mem_append.1 hc with hc | hc
      · exact hpart c hc
      · rcases List.mem_append.1 hc with hc | hc
        · exact hseparator c hc
        · exact ih hrest c hc

theorem plain_lastName {name : String} (h : Plain name) : Plain (TypeText.lastName name) := by
  refine plain_ofList fun c hc => h c ?_
  obtain ⟨front, heq, -⟩ := Text.exists_append_afterLast '.' name.toList
  rw [heq]
  exact List.mem_append_right _ hc

/-- Blanks at the beginning of a line are no line breaks. -/
theorem plain_of_isGap {cs : List Char} (h : ∀ c ∈ cs, Draft.isGap c) : Plain (String.ofList cs) := by
  refine plain_ofList fun c hc => ?_
  have hgap := h c hc
  refine ⟨?_, ?_⟩ <;> rintro rfl <;> exact absurd hgap (by decide)

/-- A text that a fix writes: it has no line breaks, or it comes from the unit. -/
inductive Written (unit : CompilationUnit) (t : TypeDecl) : String → Prop where
  | plain {new : String} (h : Plain new) : Written unit t new
  | lineEnding : Written unit t (Draft.lineEnding unit.text)
  | name {name : String} (h : name ∈ t.names) : Written unit t name
  | value {a : AnnotationUse} {arg : Argument} (ha : a ∈ t.annotations) (harg : arg ∈ a.args) :
      Written unit t arg.valueText
  | append {a b : String} (ha : Written unit t a) (hb : Written unit t b) : Written unit t (a ++ b)

/-! ### Changes -/

namespace Text

/-- Something that can be seen ends or starts at the offset. -/
def Seam (text : String) (offset : Nat) : Prop :=
  (charBefore? text offset).any (!isBlank ·) ∨ (charAt? text offset).any (!isBlank ·)

/-- Behind an opening bracket. -/
theorem seam_behind {text : String} {offset : Nat} {c : Char} (h : charAt? text offset = some c)
    (hblank : isBlank c = false) (hone : c.utf8Size = 1) : Seam text (offset + 1) := by
  obtain ⟨a, b, htext, rfl⟩ := charAt?_eq_some_iff.1 h
  have hbefore : charBefore? text (byteLen a + 1) = some c :=
    charBefore?_eq_some_iff.2 ⟨a, b, by simpa using htext, by simp [hone]⟩
  left
  rw [hbefore]
  simp [hblank]

end Text

/-- An edit of a fix for a declaration that `t` owns. -/
inductive Change (unit : CompilationUnit) (t : TypeDecl) : Edit → Prop where
  /-- Takes a piece of the type out, with the blanks around it. -/
  | remove {s : Span} {range : ByteRange} (hs : s ∈ t.spans)
      (hrange : Draft.removalSpan unit.text s = .ok range.toSpan) : Change unit t ⟨range, ""⟩
  /-- Replaces a piece of the type. -/
  | replace {range : ByteRange} {new : String} (hs : range.toSpan ∈ t.spans)
      (hnew : Written unit t new) : Change unit t ⟨range, new⟩
  /-- Puts a text in at an edge inside of the type. -/
  | insert {offset : Nat} {new : String} (hin : t.span.start ≤ offset ∧ offset ≤ t.span.stop)
      (hseam : Text.Seam unit.text offset) (hnew : Written unit t new) :
      Change unit t (.insert offset new)
  /-- Adds an import, and maybe a text of the type behind it. -/
  | importing {fqn : String} {imported : Edit} {new : String}
      (himported : Imports.importEdit? unit fqn = some imported) (hnew : Written unit t new) :
      Change unit t ⟨imported.range, new⟩

/-- Each edit of each proposal is a change to the owner of the declaration that is found. -/
def Drafted (unit : CompilationUnit) (d : Diagnostic) (proposals : List Proposal) : Prop :=
  ∀ p ∈ proposals, ∀ e ∈ p.edits,
    ∃ found, unit.declarationAt? d.span = some found ∧ Change unit found.owner e

namespace CompilationUnit.Solid

theorem start_edge (h : unit.Solid) (ht : t ∈ unit.types) {s : Span} (hs : s ∈ t.spans) :
    (t.span.start ≤ s.start ∧ s.start ≤ t.span.stop) ∧ Text.Seam unit.text s.start := by
  obtain ⟨hsolid, hin⟩ := h.spans t ht s hs
  rw [Span.contains_iff] at hin
  have := hsolid.nonempty
  exact ⟨⟨hin.1, by omega⟩, .inr hsolid.first⟩

theorem stop_edge (h : unit.Solid) (ht : t ∈ unit.types) {s : Span} (hs : s ∈ t.spans) :
    (t.span.start ≤ s.stop ∧ s.stop ≤ t.span.stop) ∧ Text.Seam unit.text s.stop := by
  obtain ⟨hsolid, hin⟩ := h.spans t ht s hs
  rw [Span.contains_iff] at hin
  have := hsolid.nonempty
  exact ⟨⟨by omega, hin.2⟩, .inl hsolid.last⟩

/-- Behind the bracket that opens a body or a list of arguments. -/
theorem bracket_edge (h : unit.Solid) (ht : t ∈ unit.types) {s : Span} (hs : s ∈ t.spans) {c : Char}
    (hc : Text.charAt? unit.text s.start = some c) (hblank : Text.isBlank c = false)
    (hone : c.utf8Size = 1) :
    (t.span.start ≤ s.start + 1 ∧ s.start + 1 ≤ t.span.stop) ∧
      Text.Seam unit.text (s.start + 1) := by
  obtain ⟨hsolid, hin⟩ := h.spans t ht s hs
  rw [Span.contains_iff] at hin
  have := hsolid.nonempty
  exact ⟨⟨by omega, by omega⟩, Text.seam_behind hc hblank hone⟩

theorem offset_lt (h : unit.Solid) (ht : t ∈ unit.types) {offset : Nat}
    (hin : t.span.start ≤ offset ∧ offset ≤ t.span.stop) : offset < ByteRange.modulus := by
  have hfits := (h.spans t ht t.span (span_mem_spans t)).1.toFits.stop_le
  have := h.small
  omega

end CompilationUnit.Solid

/-! ### Answers taken apart -/

theorem bind_eq_ok {ε α β : Type} {x : Except ε α} {f : α → Except ε β} {b : β} :
    x >>= f = .ok b ↔ ∃ a, x = .ok a ∧ f a = .ok b := by
  cases x <;> simp [bind, Except.bind]

theorem toFix_eq_ok {α : Type} {x : Outcome α} {a : α} : x.toFix = .ok a ↔ x = .ok a := by
  cases x <;> simp [Outcome.toFix, Except.mapError]

/-- A test that is passed before an answer is given. -/
theorem unless_eq_ok {α β : Type} {c : Prop} [Decidable c] {reason : FixError} {f : α → FixResult β}
    {x : FixResult β} {b : β} :
    (if c then decline reason >>= f else x) = .ok b ↔ ¬ c ∧ x = .ok b := by
  by_cases hc : c <;> simp [hc, decline, bind, Except.bind]

theorem Draft.replace_eq_ok {edits edits' : List Edit} {span : Span} {new : String}
    (h : Draft.replace edits span new = .ok edits') :
    ∃ range, span.toRange = .ok range ∧ edits' = edits ++ [⟨range, new⟩] := by
  obtain ⟨range, hrange, h⟩ := bind_eq_ok.1 h
  exact ⟨range, hrange, (Except.ok.inj h).symm⟩

/-! ### Drafting changes -/

namespace CompilationUnit.Solid

variable {edits edits' : List Edit} {new : String}

/-- The range of a span that ends in the text is the span. -/
theorem toSpan_of_toRange (h : unit.Solid) {s : Span} {range : ByteRange}
    (hle : s.start ≤ s.stop) (hin : s.stop ≤ Text.length unit.text) (hrange : s.toRange = .ok range) :
    range.toSpan = s := by
  rw [Span.toRange_eq hle (Nat.lt_of_le_of_lt hin h.small)] at hrange
  rw [← Except.ok.inj hrange]
  rfl

theorem changes_replace (h : unit.Solid) (ht : t ∈ unit.types) {s : Span} (hs : s ∈ t.spans)
    (hnew : Written unit t new) (hedits : ∀ e ∈ edits, Change unit t e)
    (hok : Draft.replace edits s new = .ok edits') : ∀ e ∈ edits', Change unit t e := by
  obtain ⟨range, hrange, rfl⟩ := Draft.replace_eq_ok hok
  have hsolid := (h.spans t ht s hs).1
  have hspan := h.toSpan_of_toRange (Nat.le_of_lt hsolid.nonempty) hsolid.toFits.stop_le hrange
  intro e he
  rcases List.mem_append.1 he with he | he
  · exact hedits e he
  · obtain rfl := List.mem_singleton.1 he
    exact .replace (hspan ▸ hs) hnew

theorem changes_remove (h : unit.Solid) (ht : t ∈ unit.types) {s r : Span} (hs : s ∈ t.spans)
    (hr : Draft.removalSpan unit.text s = .ok r) (hedits : ∀ e ∈ edits, Change unit t e)
    (hok : Draft.delete edits r = .ok edits') : ∀ e ∈ edits', Change unit t e := by
  obtain ⟨range, hrange, rfl⟩ := Draft.replace_eq_ok hok
  have hsolid := (h.spans t ht s hs).1
  obtain ⟨r', hr', hremoval⟩ := Draft.removalSpan_eq hsolid.toFits
  obtain rfl := Except.ok.inj (hr.symm.trans hr')
  have hle : r.start ≤ r.stop :=
    Nat.le_trans hremoval.start_le (Nat.le_trans (Nat.le_of_lt hsolid.nonempty) hremoval.le_stop)
  have hspan := h.toSpan_of_toRange hle (Text.isBoundary_iff.1 hremoval.stop_cut).le hrange
  intro e he
  rcases List.mem_append.1 he with he | he
  · exact hedits e he
  · obtain rfl := List.mem_singleton.1 he
    exact .remove hs (hspan ▸ hr)

theorem changes_deleteAll (h : unit.Solid) (ht : t ∈ unit.types) {annotations : List AnnotationUse}
    (hmem : ∀ a ∈ annotations, a ∈ t.annotations) (hedits : ∀ e ∈ edits, Change unit t e)
    (hok : Family.deleteAll unit.text edits annotations = .ok edits') :
    ∀ e ∈ edits', Change unit t e := by
  induction annotations generalizing edits with
  | nil =>
    obtain rfl := Except.ok.inj hok
    exact hedits
  | cons a annotations ih =>
    obtain ⟨ha, hrest⟩ := List.forall_mem_cons.1 hmem
    rw [Family.deleteAll, List.foldlM_cons, bind_eq_ok] at hok
    obtain ⟨drafted, hok, hrestok⟩ := hok
    obtain ⟨r, hr, hok⟩ := bind_eq_ok.1 hok
    have hs := annotation_spans_subset ha a.span List.mem_cons_self
    exact ih hrest (h.changes_remove ht hs hr hedits hok) hrestok

/-- An insertion beside a new import; at the same place, behind it. -/
theorem changes_insert (h : unit.Solid) (ht : t ∈ unit.types) {imported : Option Edit}
    (himported : ∀ e ∈ imported, (∃ fqn, Imports.importEdit? unit fqn = some e) ∧
      Written unit t e.replacement) {offset : Nat}
    (hedge : (t.span.start ≤ offset ∧ offset ≤ t.span.stop) ∧ Text.Seam unit.text offset)
    (hnew : Written unit t new) :
    ∀ e ∈ Draft.insert (Draft.start imported) offset new, Change unit t e := by
  rw [Draft.insert, Nat.mod_eq_of_lt (h.offset_lt ht hedge.1)]
  cases imported with
  | none =>
    intro e he
    rw [List.mem_singleton.1 he]
    exact .insert hedge.1 hedge.2 hnew
  | some edit =>
    obtain ⟨⟨fqn, hfqn⟩, hwritten⟩ := himported edit rfl
    rw [Draft.start, Option.toList_some, Draft.insertAt]
    split
    · intro e he
      rw [List.mem_singleton.1 he]
      exact .importing hfqn (.append hwritten hnew)
    · intro e he
      rcases List.mem_cons.1 he with rfl | he
      · exact .importing hfqn hwritten
      · rw [List.mem_singleton.1 he]
        exact .insert hedge.1 hedge.2 hnew

theorem changes_insert_alone (h : unit.Solid) (ht : t ∈ unit.types) {offset : Nat}
    (hedge : (t.span.start ≤ offset ∧ offset ≤ t.span.stop) ∧ Text.Seam unit.text offset)
    (hnew : Written unit t new) : ∀ e ∈ Draft.insert [] offset new, Change unit t e := by
  have hnone : ∀ e ∈ (none : Option Edit), (∃ fqn, Imports.importEdit? unit fqn = some e) ∧
      Written unit t e.replacement := fun _ he => nomatch he
  exact h.changes_insert ht hnone hedge hnew

end CompilationUnit.Solid

/-! ### Imports -/

namespace Imports

theorem written_importEdit? {fqn : String} (hplain : Plain fqn) {edit : Edit}
    (hedit : importEdit? unit fqn = some edit) : Written unit t edit.replacement := by
  have hword : Written unit t "import " := .plain (by decide)
  have himport : ∀ front, Written unit t front → Written unit t (front ++ fqn ++ ";") :=
    fun front hfront => .append (.append hfront (.plain hplain)) (.plain (by decide))
  rw [importEdit?] at hedit
  split at hedit
  · cases hedit
  · dsimp only at hedit
    split at hedit
    · obtain rfl := Option.some.inj hedit
      exact himport _ (.append .lineEnding hword)
    · split at hedit
      · obtain rfl := Option.some.inj hedit
        exact himport _ (.append (.append .lineEnding .lineEnding) hword)
      · obtain rfl := Option.some.inj hedit
        exact .append (.append (himport _ hword) .lineEnding) .lineEnding

theorem typeReference_written (unit : CompilationUnit) (t : TypeDecl) {fqn : String}
    (hplain : Plain fqn) :
    Written unit t (typeReference unit fqn).1 ∧ ∀ e ∈ (typeReference unit fqn).2,
      (∃ fqn, importEdit? unit fqn = some e) ∧ Written unit t e.replacement := by
  have hnone : ∀ e ∈ (none : Option Edit),
      (∃ fqn, importEdit? unit fqn = some e) ∧ Written unit t e.replacement := by
    intro e he
    cases he
  rw [typeReference]
  split
  · exact ⟨.plain (plain_lastName hplain), hnone⟩
  · split
    · exact ⟨.plain hplain, hnone⟩
    · exact ⟨.plain (plain_lastName hplain), fun e he => ⟨⟨fqn, he⟩, written_importEdit? hplain he⟩⟩

end Imports

/-! ### Annotations -/

namespace Family

variable {proposals : List Proposal}

theorem locate_eq_ok : locate d unit = .ok found ↔ unit.declarationAt? d.span = some found := by
  rw [locate]
  cases unit.declarationAt? d.span <;> simp [decline]

theorem locateClass_eq_ok (h : locateClass d unit = .ok t) :
    ∃ found, unit.declarationAt? d.span = some found ∧ found.owner = t := by
  obtain ⟨found, hfound, h⟩ := bind_eq_ok.1 h
  refine ⟨found, locate_eq_ok.1 hfound, ?_⟩
  dsimp only at h
  split at h
  · exact Except.ok.inj h
  · cases h

theorem drafted_single (hfound : unit.declarationAt? d.span = some found) {label : String}
    {edits : List Edit} (hedits : ∀ e ∈ edits, Change unit found.owner e) :
    Drafted unit d [⟨label, edits⟩] := by
  intro p hp e he
  rw [List.mem_singleton.1 hp] at he
  exact ⟨found, hfound, hedits e he⟩

/-- What an annotation is put on belongs to the owner of the declaration. -/
theorem annotationPlace_eq_ok (hof : found.Of unit) {target : AnnotationTarget} {m : Modifiers}
    {start : Nat} {name : String} (h : annotationPlace target d found = .ok (m, start, name)) :
    (∀ s ∈ m.spans, s ∈ found.owner.spans) ∧ (∃ s ∈ found.owner.spans, s.start = start) ∧
      (name ∈ found.owner.names ∨ name = "") := by
  cases target with
  | declaration =>
    obtain ⟨rfl, rfl, rfl⟩ : found.modifiers = m ∧ found.span.start = start ∧ found.name = name := by
      simpa [annotationPlace] using h
    exact ⟨hof.modifiers_mem, ⟨_, hof.span_mem, rfl⟩, hof.name_mem⟩
  | singleConstructor =>
    rw [annotationPlace] at h
    split at h
    · rename_i c hc
      obtain ⟨rfl, rfl, rfl⟩ : c.modifiers = m ∧ c.span.start = start ∧ c.name = name := by
        simpa using h
      have hmem : c ∈ found.owner.constructors := by simp [hc]
      have hmethod := (List.mem_filter.1 hmem).1
      have hnamed : ∃ m ∈ found.owner.methods, c.name = m.name ∨ ∃ p ∈ m.params, p.name = c.name :=
        ⟨c, hmethod, .inl rfl⟩
      refine ⟨fun s hs => method_spans_subset hmethod s (by simp [MethodDecl.spans, hs]),
        ⟨_, method_spans_subset hmethod _ List.mem_cons_self, rfl⟩, .inl ?_⟩
      simp [TypeDecl.names, hnamed]
    · cases h

theorem proposeAnnotate_drafted (h : unit.Solid) {fqn : String} {value : AnnotationValue}
    {target : AnnotationTarget} (hplain : Plain fqn) (hvalue : ∀ text, value = .literal text → Plain text)
    (hok : proposeAnnotate fqn value target d unit = .ok proposals) : Drafted unit d proposals := by
  simp only [proposeAnnotate, bind_eq_ok, locate_eq_ok, unless_eq_ok] at hok
  obtain ⟨found, hfound, ⟨m, start, name⟩, hplace, -, hok⟩ := hok
  obtain rfl := Except.ok.inj hok
  have hof := (CompilationUnit.around_of_declarationAt? hfound).1.of
  have ht := hof.owner_mem
  obtain ⟨hmodifiers, ⟨s, hs, rfl⟩, hname⟩ := annotationPlace_eq_ok hof hplace
  obtain ⟨hwritten, himported⟩ := Imports.typeReference_written unit found.owner hplain
  have hname : Written unit found.owner name := by
    rcases hname with hname | rfl
    · exact .name hname
    · exact .plain (by decide)
  have hplace : ∃ r ∈ found.owner.spans, (m.span.map (·.start)).getD s.start = r.start := by
    cases hspan : m.span with
    | none => exact ⟨s, hs, rfl⟩
    | some r => exact ⟨r, hmodifiers r (by simp [Modifiers.spans, hspan]), rfl⟩
  obtain ⟨r, hr, hoffset⟩ := hplace
  have hat : Written unit found.owner "@" := .plain (by decide)
  have hgap : Written unit found.owner " " := .plain (by decide)
  have hnothing : Written unit found.owner "" := .plain (by decide)
  refine drafted_single hfound (h.changes_insert ht himported ?_ ?_)
  · rw [hoffset]
    exact h.start_edge ht hr
  · refine .append (.append (.append hat hwritten) ?_) hgap
    cases value with
    | marker => exact hnothing
    | literal text =>
      exact .append (.append (.plain (by decide)) (.plain (hvalue text rfl))) (.plain (by decide))
    | declarationName => exact .append (.append (.plain (by decide)) hname) (.plain (by decide))

theorem removeNamed?_changes (h : unit.Solid) (ht : t ∈ unit.types)
    {candidates : List AnnotationUse} (hmem : ∀ a ∈ candidates, a ∈ t.annotations) {name : String}
    {p : Proposal} (hok : removeNamed? unit.text candidates name = .ok (some p)) :
    ∀ e ∈ p.edits, Change unit t e := by
  obtain ⟨edits, hedits, hok⟩ := bind_eq_ok.1 hok
  have hnone : ∀ e ∈ ([] : List Edit), Change unit t e := List.forall_mem_nil _
  have hchanges := h.changes_deleteAll ht (fun a ha => hmem a (List.mem_filter.1 ha).1) hnone hedits
  cases hempty : edits.isEmpty with
  | true => simp [hempty, pure, Except.pure] at hok
  | false =>
    obtain rfl : _ = p := by simpa [hempty, pure, Except.pure] using hok
    exact hchanges

theorem proposeRemoveAnnotations_drafted (h : unit.Solid)
    (hok : proposeRemoveAnnotations d unit = .ok proposals) : Drafted unit d proposals := by
  simp only [proposeRemoveAnnotations, unless_eq_ok, bind_eq_ok, locate_eq_ok, toFix_eq_ok] at hok
  obtain ⟨-, found, hfound, answers, hanswers, -, hok⟩ := hok
  obtain rfl := Except.ok.inj hok
  have hof := (CompilationUnit.around_of_declarationAt? hfound).1.of
  intro p hp e he
  have hmem : some p ∈ answers := by simpa using hp
  obtain ⟨name, -, hname⟩ := exists_of_mapM_eq_ok hanswers hmem
  exact ⟨found, hfound,
    removeNamed?_changes h hof.owner_mem (removable_sublist_owner hof).subset hname e he⟩

theorem proposeReplaceScope_drafted (h : unit.Solid) {scope : String} {scopes : List String}
    (hplain : Plain scope) (hok : proposeReplaceScope scope scopes d unit = .ok proposals) :
    Drafted unit d proposals := by
  simp only [proposeReplaceScope, bind_eq_ok, locate_eq_ok] at hok
  obtain ⟨found, hfound, hok⟩ := hok
  have ht := (CompilationUnit.around_of_declarationAt? hfound).1.of.owner_mem
  split at hok
  · cases hok
  · rename_i first rest hscopes
    obtain ⟨replaced, hreplaced, edits, hedits, hok⟩ := by
      simpa only [bind_eq_ok, toFix_eq_ok] using hok
    obtain rfl := Except.ok.inj hok
    have hmem : ∀ a ∈ first :: rest, a ∈ found.owner.annotations := fun a ha =>
      List.mem_append_left _ (List.mem_filter.1 (hscopes ▸ ha)).1
    obtain ⟨hfirst, hrest⟩ := List.forall_mem_cons.1 hmem
    obtain ⟨hwritten, himported⟩ := Imports.typeReference_written unit found.owner hplain
    have hstart : ∀ e ∈ Draft.start (Imports.typeReference unit scope).2,
        Change unit found.owner e := fun e he => by
      obtain ⟨⟨fqn, hfqn⟩, hnew⟩ := himported e (Option.mem_toList.1 he)
      exact .importing hfqn hnew
    have hreplace := h.changes_replace ht (annotation_spans_subset hfirst _ List.mem_cons_self)
      (.append (.plain (by decide)) hwritten) hstart hreplaced
    exact drafted_single hfound (h.changes_deleteAll ht hrest hreplace hedits)

theorem addArguments_changes (h : unit.Solid) (ht : t ∈ unit.types) {a : AnnotationUse}
    (ha : a ∈ t.annotations) {rendered : String} (hrendered : Plain rendered) {edits : List Edit}
    (hok : addArguments a rendered = .ok edits) : ∀ e ∈ edits, Change unit t e := by
  have hspans := annotation_spans_subset ha
  have hnone : ∀ e ∈ ([] : List Edit), Change unit t e := List.forall_mem_nil _
  have hnew : Written unit t rendered := .plain hrendered
  have hcomma : Written unit t ", " := .plain (by decide)
  rw [addArguments] at hok
  split at hok
  · obtain rfl := Except.ok.inj hok
    exact h.changes_insert_alone ht (h.stop_edge ht (hspans _ List.mem_cons_self))
      (.append (.append (.plain (by decide)) hnew) (.plain (by decide)))
  · rename_i s hs _
    obtain rfl := Except.ok.inj hok
    have hopen := h.arguments t ht a ha s (by simp [hs])
    exact h.changes_insert_alone ht (h.bracket_edge ht (hspans s (by simp [AnnotationUse.spans, hs]))
      hopen (by decide) (by decide)) hnew
  · rename_i first rest _ hargs
    have hargument : ∀ arg ∈ a.args, arg.span ∈ t.spans := fun arg harg =>
      hspans _ (argument_mem_spans harg).1
    have hfirst : first ∈ a.args := by simp [hargs]
    split at hok
    · exact h.changes_replace ht (hargument first hfirst) (.append (.append (.append
        (.plain (by decide)) (.value ha hfirst)) hcomma) hnew) hnone hok
    · obtain rfl := Except.ok.inj hok
      have hlast : rest.getLast?.getD first ∈ a.args := by
        rw [hargs]
        cases hlast : rest.getLast? with
        | none => exact List.mem_cons_self
        | some last => exact List.mem_cons_of_mem _ (List.mem_of_getLast? hlast)
      exact h.changes_insert_alone ht (h.stop_edge ht (hargument _ hlast)) (.append hcomma hnew)

theorem proposeAddAttributes_drafted (h : unit.Solid) {defaults : List (String × String)}
    (hplain : ∀ default ∈ defaults, Plain default.1 ∧ Plain default.2)
    (hok : proposeAddAttributes defaults d unit = .ok proposals) : Drafted unit d proposals := by
  simp only [proposeAddAttributes, bind_eq_ok, locate_eq_ok] at hok
  obtain ⟨found, hfound, hok⟩ := hok
  have hof := (CompilationUnit.around_of_declarationAt? hfound).1.of
  split at hok
  · cases hok
  · rename_i a ha
    have hmem := (removable_sublist_owner hof).subset (mem_removable (List.mem_of_find?_eq_some ha))
    obtain ⟨-, edits, hedits, hok⟩ := by
      simpa only [unless_eq_ok, bind_eq_ok, toFix_eq_ok] using hok
    obtain rfl := Except.ok.inj hok
    refine drafted_single hfound (addArguments_changes h hof.owner_mem hmem ?_ hedits)
    refine plain_intercalate (by decide) fun part hpart => ?_
    obtain ⟨default, hdefault, rfl⟩ := List.mem_map.1 hpart
    obtain ⟨hname, hvalue⟩ := hplain default (List.mem_filter.1 hdefault).1
    have hequals : Plain " = " := by decide
    exact (hname.append hequals).append hvalue

/-! ### Modifiers -/

/-- The keyword takes the place of another one, or goes in front of the first one or at the offset. -/
theorem setModifier_eq_ok {m : Modifiers} {offset : Nat} {keyword : String} {edits : List Edit}
    (h : setModifier m offset keyword = .ok edits) :
    (∃ k ∈ m.keywords, k.text ∈ accessKeywords ∧ Draft.replace [] k.span keyword = .ok edits) ∨
      edits = Draft.insert [] ((m.keywords.head?.map (·.span.start)).getD offset) (keyword ++ " ") := by
  rw [setModifier] at h
  split at h
  · cases h
  · dsimp only at h
    split at h
    · rename_i k hk
      refine .inl ⟨k, ?_, ?_, toFix_eq_ok.1 h⟩
      · split at hk
        · exact List.mem_of_find?_eq_some hk
        · cases hk
      · split at hk
        · simpa using List.find?_some hk
        · cases hk
    · exact .inr (Except.ok.inj h).symm

theorem setModifier_changes (h : unit.Solid) (ht : t ∈ unit.types) {m : Modifiers}
    (hm : ∀ s ∈ m.spans, s ∈ t.spans) {s : Span} (hs : s ∈ t.spans) {keyword : String}
    (hplain : Plain keyword) {edits : List Edit} (hok : setModifier m s.start keyword = .ok edits) :
    ∀ e ∈ edits, Change unit t e := by
  have hkeyword : ∀ k ∈ m.keywords, k.span ∈ t.spans := fun k hk => hm _ (keyword_mem_spans hk)
  have hnone : ∀ e ∈ ([] : List Edit), Change unit t e := List.forall_mem_nil _
  have hnew : Written unit t keyword := .plain hplain
  rcases setModifier_eq_ok hok with ⟨k, hk, -, hreplace⟩ | rfl
  · exact h.changes_replace ht (hkeyword k hk) hnew hnone hreplace
  · refine h.changes_insert_alone ht ?_ (.append hnew (.plain (by decide)))
    cases hhead : m.keywords.head? with
    | none => exact h.start_edge ht hs
    | some k => exact h.start_edge ht (hkeyword k (List.mem_of_mem_head? hhead))

/-- The offsets that the modifiers of a method or a field have to stand in front of. -/
theorem proposeAddModifier_eq_ok {keyword : String}
    (hok : proposeAddModifier keyword d unit = .ok proposals) :
    ∃ found, unit.declarationAt? d.span = some found ∧
      ∃ s edits label, proposals = [⟨label, edits⟩] ∧
        setModifier found.modifiers s.start keyword = .ok edits ∧
        ((∃ t m, found = .method t m ∧
            s = (m.typeParamsSpan <|> m.returnType.map (·.span)).getD m.nameSpan) ∨
          ∃ t f, found = .field t f ∧ s = f.type.span) := by
  simp only [proposeAddModifier, bind_eq_ok, locate_eq_ok] at hok
  obtain ⟨found, hfound, hok⟩ := hok
  refine ⟨found, hfound, ?_⟩
  cases found with
  | type t => cases hok
  | parameter t m p => cases hok
  | method t m =>
    obtain ⟨offset, hoffset, hok⟩ := bind_eq_ok.1 hok
    obtain rfl := Except.ok.inj hoffset
    obtain ⟨edits, hedits, hok⟩ := bind_eq_ok.1 hok
    exact ⟨_, edits, _, (Except.ok.inj hok).symm, hedits, .inl ⟨t, m, rfl, rfl⟩⟩
  | field t f =>
    obtain ⟨offset, hoffset, hok⟩ := bind_eq_ok.1 hok
    obtain rfl := Except.ok.inj hoffset
    obtain ⟨edits, hedits, hok⟩ := bind_eq_ok.1 hok
    exact ⟨_, edits, _, (Except.ok.inj hok).symm, hedits, .inr ⟨t, f, rfl, rfl⟩⟩

theorem proposeAddModifier_drafted (h : unit.Solid) {keyword : String} (hplain : Plain keyword)
    (hok : proposeAddModifier keyword d unit = .ok proposals) : Drafted unit d proposals := by
  obtain ⟨found, hfound, s, edits, label, rfl, hedits, hcases⟩ := proposeAddModifier_eq_ok hok
  have hof := (CompilationUnit.around_of_declarationAt? hfound).1.of
  refine drafted_single hfound
    (setModifier_changes h hof.owner_mem hof.modifiers_mem ?_ hplain hedits)
  rcases hcases with ⟨t, m, rfl, rfl⟩ | ⟨t, f, rfl, rfl⟩
  · refine method_spans_subset hof.2 _ ?_
    cases hparams : m.typeParamsSpan with
    | some s => simp [MethodDecl.spans, hparams]
    | none =>
      cases hreturn : m.returnType with
      | some r => simp [MethodDecl.spans, hreturn, TypeRef.spans]
      | none => simp [MethodDecl.spans]
  · exact field_spans_subset hof.2 _ (by simp [FieldDecl.spans, TypeRef.spans])

theorem proposeRemoveModifier_drafted (h : unit.Solid) {keyword : String}
    (hok : proposeRemoveModifier keyword d unit = .ok proposals) : Drafted unit d proposals := by
  simp only [proposeRemoveModifier, bind_eq_ok, locate_eq_ok] at hok
  obtain ⟨found, hfound, hok⟩ := hok
  have hof := (CompilationUnit.around_of_declarationAt? hfound).1.of
  split at hok
  · cases hok
  · rename_i k hk
    obtain ⟨r, hr, edits, hedits, hok⟩ := by simpa only [bind_eq_ok, toFix_eq_ok] using hok
    obtain rfl := Except.ok.inj hok
    have hs := hof.modifiers_mem k.span (keyword_mem_spans (List.mem_of_find?_eq_some hk))
    have hnone : ∀ e ∈ ([] : List Edit), Change unit found.owner e := List.forall_mem_nil _
    exact drafted_single hfound (h.changes_remove hof.owner_mem hs hr hnone hedits)

/-! ### Members and supertypes -/

theorem headerInsertOffset_edge (h : unit.Solid) (ht : t ∈ unit.types) :
    (t.span.start ≤ t.headerInsertOffset ∧ t.headerInsertOffset ≤ t.span.stop) ∧
      Text.Seam unit.text t.headerInsertOffset := by
  rw [TypeDecl.headerInsertOffset]
  split
  case _ s hs => exact h.stop_edge ht (by simp [TypeDecl.spans, hs])
  case _ => exact h.stop_edge ht (by simp [TypeDecl.spans])

theorem proposeAddSupertype_drafted (h : unit.Solid) {fqn : String} {kind : SupertypeKind}
    (hplain : Plain fqn) (hok : proposeAddSupertype fqn kind d unit = .ok proposals) :
    Drafted unit d proposals := by
  obtain ⟨t, hclass, hok⟩ := bind_eq_ok.1 hok
  obtain ⟨found, hfound, rfl⟩ := locateClass_eq_ok hclass
  have ht := (CompilationUnit.around_of_declarationAt? hfound).1.of.owner_mem
  obtain ⟨hwritten, himported⟩ := Imports.typeReference_written unit found.owner hplain
  have hclause : ∀ clause, Plain clause →
      Written unit found.owner (clause ++ (Imports.typeReference unit fqn).1) :=
    fun clause hplain => .append (.plain hplain) hwritten
  cases kind with
  | superclass =>
    dsimp only at hok
    split at hok
    · cases hok
    · obtain rfl := Except.ok.inj hok
      exact drafted_single hfound (h.changes_insert ht himported (headerInsertOffset_edge h ht)
        (hclause " extends " (by decide)))
  | interface =>
    obtain ⟨-, hok⟩ := unless_eq_ok.1 hok
    obtain rfl := Except.ok.inj hok
    refine drafted_single hfound (h.changes_insert ht himported ?_ (hclause _ ?_))
    · split
      case _ last hlast =>
        exact h.stop_edge ht (supertype_mem_spans (List.mem_append_right _ (List.mem_of_getLast? hlast)))
      case _ superclass _ hsuper =>
        exact h.stop_edge ht (supertype_mem_spans (List.mem_append_left _ (by simp [hsuper])))
      case _ => exact headerInsertOffset_edge h ht
    · have hcomma : Plain ", " := by decide
      have himplements : Plain " implements " := by decide
      split
      case _ => exact hcomma
      case _ => exact himplements
      case _ => exact himplements

theorem plain_lineIndent {text indent : String} {offset : Nat}
    (hok : Draft.lineIndent text offset = .ok indent) : Plain indent := by
  obtain ⟨before, -, hok⟩ := bind_eq_ok.1 hok
  obtain rfl := Except.ok.inj hok
  exact plain_of_isGap (List.all_eq_true.1 List.all_takeWhile)

theorem plain_memberIndent {text indent : String} (hok : memberIndent text t = .ok indent) :
    Plain indent := by
  rw [memberIndent] at hok
  split at hok
  · exact plain_lineIndent hok
  · obtain ⟨outer, houter, hok⟩ := bind_eq_ok.1 hok
    obtain rfl := Except.ok.inj hok
    exact (plain_lineIndent houter).append (by decide)

/-- There is a constructor without parameters and it gets the keyword, or one is written. -/
theorem proposeAddNoArgConstructor_eq_ok {visibility : String}
    (hok : proposeAddNoArgConstructor visibility d unit = .ok proposals) :
    ∃ found, unit.declarationAt? d.span = some found ∧ ∃ edits label, proposals = [⟨label, edits⟩] ∧
      ((∃ c, found.owner.constructors.find? (·.params.isEmpty) = some c ∧
          setModifier c.modifiers c.nameSpan.start visibility = .ok edits) ∨
        found.owner.constructors.find? (·.params.isEmpty) = none ∧
          ∃ indent, memberIndent unit.text found.owner = .ok indent ∧
          edits = Draft.insert [] (found.owner.bodySpan.start + 1)
            (let ending := Draft.lineEnding unit.text
            s!"{ending}{indent}{visibility} {found.owner.name}() \x7b{ending}{indent}\x7d{ending}")) := by
  obtain ⟨t, hclass, hok⟩ := bind_eq_ok.1 hok
  obtain ⟨found, hfound, rfl⟩ := locateClass_eq_ok hclass
  refine ⟨found, hfound, ?_⟩
  dsimp only at hok
  cases hc : found.owner.constructors.find? (·.params.isEmpty) with
  | some c =>
    rw [hc] at hok
    obtain ⟨edits, hedits, hok⟩ := bind_eq_ok.1 hok
    exact ⟨edits, _, (Except.ok.inj hok).symm, .inl ⟨c, rfl, hedits⟩⟩
  | none =>
    rw [hc] at hok
    obtain ⟨indent, hindent, hok⟩ := bind_eq_ok.1 hok
    exact ⟨_, _, (Except.ok.inj hok).symm, .inr ⟨rfl, indent, toFix_eq_ok.1 hindent, rfl⟩⟩

theorem proposeAddNoArgConstructor_drafted (h : unit.Solid) {visibility : String}
    (hplain : Plain visibility) (hok : proposeAddNoArgConstructor visibility d unit = .ok proposals) :
    Drafted unit d proposals := by
  obtain ⟨found, hfound, edits, label, rfl, ⟨c, hc, hedits⟩ | ⟨-, indent, hindent, rfl⟩⟩ :=
    proposeAddNoArgConstructor_eq_ok hok
  all_goals
    have ht := (CompilationUnit.around_of_declarationAt? hfound).1.of.owner_mem
    refine drafted_single hfound ?_
  · have hspans := method_spans_subset (List.mem_filter.1 (List.mem_of_find?_eq_some hc)).1
    exact setModifier_changes h ht (fun s hs => hspans s (by simp [MethodDecl.spans, hs]))
      (hspans _ (by simp [MethodDecl.spans])) hplain hedits
  · have hbody : found.owner.bodySpan ∈ found.owner.spans := by simp [TypeDecl.spans]
    have hindent : Written unit found.owner indent := .plain (plain_memberIndent hindent)
    have hname : Written unit found.owner found.owner.name := .name List.mem_cons_self
    have hending : Written unit found.owner (Draft.lineEnding unit.text) := .lineEnding
    refine h.changes_insert_alone ht (h.bracket_edge ht hbody (h.bodies _ ht) (by decide) (by decide)) ?_
    exact .append (.append (.append (.append (.append (.append (.append (.append (.append hending
      hindent) (.plain hplain)) (.plain (by decide))) hname) (.plain (by decide))) hending) hindent)
      (.plain (by decide))) hending

theorem proposeRemoveParameters_drafted (h : unit.Solid)
    (hok : proposeRemoveParameters d unit = .ok proposals) : Drafted unit d proposals := by
  simp only [proposeRemoveParameters, bind_eq_ok, locate_eq_ok] at hok
  obtain ⟨found, hfound, hok⟩ := hok
  have hof := (CompilationUnit.around_of_declarationAt? hfound).1.of
  have hnone : ∀ e ∈ ([] : List Edit), Change unit found.owner e := List.forall_mem_nil _
  have hmethod : ∀ m ∈ found.owner.methods, ∀ edits,
      Draft.replace [] m.paramsSpan "()" = .ok edits → ∀ e ∈ edits, Change unit found.owner e :=
    fun m hm edits hedits => h.changes_replace hof.owner_mem
      (method_spans_subset hm _ (by simp [MethodDecl.spans])) (.plain (by decide)) hnone hedits
  cases found with
  | type t => cases hok
  | field t f => cases hok
  | method t m =>
    obtain ⟨method, hm, hok⟩ := bind_eq_ok.1 hok
    obtain rfl := Except.ok.inj hm
    obtain ⟨-, edits, hedits, hok⟩ := by simpa only [unless_eq_ok, bind_eq_ok, toFix_eq_ok] using hok
    obtain rfl := Except.ok.inj hok
    exact drafted_single hfound (hmethod m hof.2 edits hedits)
  | parameter t m p =>
    obtain ⟨method, hm, hok⟩ := bind_eq_ok.1 hok
    obtain rfl := Except.ok.inj hm
    obtain ⟨-, edits, hedits, hok⟩ := by simpa only [unless_eq_ok, bind_eq_ok, toFix_eq_ok] using hok
    obtain rfl := Except.ok.inj hok
    exact drafted_single hfound (hmethod m hof.2.1 edits hedits)

theorem proposeChangeReturnType_drafted (h : unit.Solid) {type : String} (hplain : Plain type)
    (hok : proposeChangeReturnType type d unit = .ok proposals) : Drafted unit d proposals := by
  simp only [proposeChangeReturnType, bind_eq_ok, locate_eq_ok] at hok
  obtain ⟨found, hfound, hok⟩ := hok
  have hof := (CompilationUnit.around_of_declarationAt? hfound).1.of
  cases found with
  | type t => cases hok
  | field t f => cases hok
  | parameter t m p => cases hok
  | method t m =>
    dsimp only at hok
    split at hok
    · cases hok
    · rename_i current hreturn
      obtain ⟨-, edits, hedits, hok⟩ := by simpa only [unless_eq_ok, bind_eq_ok, toFix_eq_ok] using hok
      obtain rfl := Except.ok.inj hok
      have hs := method_spans_subset hof.2 current.span (by simp [MethodDecl.spans, hreturn, TypeRef.spans])
      have hnone : ∀ e ∈ ([] : List Edit), Change unit t e := List.forall_mem_nil _
      exact drafted_single hfound (h.changes_replace hof.owner_mem hs (.plain hplain) hnone hedits)

/-! ### All families -/

mutual

/-- Does the family, or all that it offers side by side, make one of the changes above? -/
def isKnown : Family → Bool
  | .foreign _ => false
  | .alternatives families => areKnown families
  | _ => true

def areKnown : List Family → Bool
  | [] => true
  | family :: families => isKnown family && areKnown families

end

mutual

/-- The texts that a family is given to write. -/
def texts : Family → List String
  | .annotate fqn (.literal text) _ => [fqn, text]
  | .annotate fqn _ _ => [fqn]
  | .removeAnnotations => []
  | .replaceScope scope _ => [scope]
  | .addAttributes defaults => defaults.flatMap fun (name, value) => [name, value]
  | .addModifier keyword => [keyword]
  | .removeModifier _ => []
  | .addSupertype fqn _ => [fqn]
  | .addNoArgConstructor visibility => [visibility]
  | .removeParameters => []
  | .changeReturnType type => [type]
  | .foreign _ => []
  | .alternatives families => textsOfEach families

def textsOfEach : List Family → List String
  | [] => []
  | family :: families => texts family ++ textsOfEach families

end

theorem combine_drafted {answers : List (FixResult (List Proposal))}
    (hall : ∀ answer ∈ answers, ∀ more, answer = .ok more → Drafted unit d more)
    (hok : combine answers = .ok proposals) : Drafted unit d proposals := by
  obtain rfl := combine_eq_ok hok
  intro p hp
  obtain ⟨answer, hanswer, hp⟩ := List.mem_flatMap.1 hp
  cases answer with
  | error failure => cases hp
  | ok more => exact hall _ hanswer more rfl p hp

mutual

/-- Whatever known family answers, its edits are changes to the owner of the declaration. -/
theorem propose_drafted (h : unit.Solid) : ∀ family : Family, family.isKnown →
    (∀ text ∈ texts family, Plain text) →
    ∀ proposals, propose d unit family = .ok proposals → Drafted unit d proposals
  | .annotate fqn value target, _, hplain, _, hok => by
    rw [propose] at hok
    have hfqn : fqn ∈ texts (.annotate fqn value target) := by cases value <;> exact List.mem_cons_self
    refine proposeAnnotate_drafted h (hplain fqn hfqn) (fun text heq => ?_) hok
    subst heq
    exact hplain text (List.mem_cons_of_mem _ List.mem_cons_self)
  | .removeAnnotations, _, _, _, hok => proposeRemoveAnnotations_drafted h hok
  | .replaceScope scope _, _, hplain, _, hok =>
    proposeReplaceScope_drafted h (hplain scope List.mem_cons_self) hok
  | .addAttributes defaults, _, hplain, _, hok =>
    proposeAddAttributes_drafted h (fun default hdefault =>
      ⟨hplain _ (List.mem_flatMap.2 ⟨default, hdefault, by simp⟩),
        hplain _ (List.mem_flatMap.2 ⟨default, hdefault, by simp⟩)⟩) hok
  | .addModifier keyword, _, hplain, _, hok =>
    proposeAddModifier_drafted h (hplain keyword List.mem_cons_self) hok
  | .removeModifier _, _, _, _, hok => proposeRemoveModifier_drafted h hok
  | .addSupertype fqn _, _, hplain, _, hok =>
    proposeAddSupertype_drafted h (hplain fqn List.mem_cons_self) hok
  | .addNoArgConstructor visibility, _, hplain, _, hok =>
    proposeAddNoArgConstructor_drafted h (hplain visibility List.mem_cons_self) hok
  | .removeParameters, _, _, _, hok => proposeRemoveParameters_drafted h hok
  | .changeReturnType type, _, hplain, _, hok =>
    proposeChangeReturnType_drafted h (hplain type List.mem_cons_self) hok
  | .foreign _, hknown, _, _, _ => nomatch hknown
  | .alternatives families, hknown, hplain, _, hok => by
    rw [propose] at hok
    rw [isKnown] at hknown
    exact combine_drafted (proposeEach_drafted h families hknown hplain) hok

theorem proposeEach_drafted (h : unit.Solid) : ∀ families : List Family, areKnown families →
    (∀ text ∈ textsOfEach families, Plain text) → ∀ answer ∈ proposeEach d unit families,
      ∀ proposals, answer = .ok proposals → Drafted unit d proposals
  | [], _, _, _, hanswer, _, _ => nomatch hanswer
  | family :: families, hknown, hplain, answer, hanswer, proposals, hok => by
    rw [proposeEach] at hanswer
    obtain ⟨hfamily, hfamilies⟩ := Bool.and_eq_true_iff.1 hknown
    rcases List.mem_cons.1 hanswer with rfl | hanswer
    · exact propose_drafted h family hfamily
        (fun text htext => hplain text (List.mem_append_left _ htext)) _ hok
    · exact proposeEach_drafted h families hfamilies
        (fun text htext => hplain text (List.mem_append_right _ htext)) answer hanswer proposals hok

end

end Family

/-- A built-in fix asks a known family that writes no line breaks of its own. -/
theorem FixRegistry.builtinFixes_family : ∀ fix ∈ FixRegistry.builtinFixes, ∃ family : Family,
    (fix.propose = fun d unit => family.propose d unit) ∧ family.isKnown ∧
      ∀ text ∈ family.texts, Plain text := by
  have hfix : ∀ (id : String) (codes : List String) (family : Family), family.isKnown →
      (∀ text ∈ family.texts, Plain text) → ∃ other : Family,
        ((Fix.ofFamily id codes family).propose = fun d unit => other.propose d unit) ∧
          other.isKnown ∧ ∀ text ∈ other.texts, Plain text :=
    fun _ _ family hknown hplain => ⟨family, rfl, hknown, hplain⟩
  unfold FixRegistry.builtinFixes
  simp only [List.forall_mem_cons]
  repeat' refine And.intro (hfix _ _ _ rfl (by decide +kernel)) ?_
  nofun

/-- The built-in fixes only change the type that owns the declaration, or import. -/
theorem FixRegistry.builtinFixes_drafted (h : unit.Solid) {fix : Fix}
    (hfix : fix ∈ FixRegistry.builtinFixes) {proposals : List Proposal}
    (hok : fix.propose d unit = .ok proposals) : Drafted unit d proposals := by
  obtain ⟨family, hpropose, hknown, hplain⟩ := FixRegistry.builtinFixes_family fix hfix
  rw [hpropose] at hok
  exact Family.propose_drafted h family hknown hplain proposals hok

end JakartaCheck
