import JakartaCheck.Java.Locating
import JakartaCheck.Proofs.Cutting
import JakartaCheck.Proofs.DottedNames
import Mathlib.Data.List.Pairwise
import Mathlib.Tactic.MkIffOfInductiveProp

/-!
# Units whose spans fit their text

`CompilationUnit.WellFormed` is what the spans of a source have in common, whatever stands in it:
they cut pieces out of the text, those of children lie inside those of their parents, and those of
siblings do not overlap. From this alone `declarationAt?` finds every declaration again from any
piece of its header. For members and parameters it is enough that the declarations lie apart or one
in the other (`CompilationUnit.Arranged`), whatever stands in the text. That the units which are read
from a text are so is shown later (`CompilationUnit.wellFormed_of_lower?`).
-/

namespace JakartaCheck

namespace Text

/-- The character that starts at an offset. -/
def charAt? (text : String) (offset : Nat) : Option Char :=
  (splitBytes? offset text.toList).bind (·.2.head?)

/-- The character that ends at an offset. -/
def charBefore? (text : String) (offset : Nat) : Option Char :=
  (splitBytes? offset text.toList).bind (·.1.getLast?)

theorem charAt?_eq_some_iff {text : String} {offset : Nat} {c : Char} :
    charAt? text offset = some c ↔ ∃ a b, text.toList = a ++ c :: b ∧ byteLen a = offset := by
  rw [charAt?, Option.bind_eq_some_iff]
  constructor
  · rintro ⟨⟨a, rest⟩, hsplit, hhead⟩
    obtain ⟨htext, hlen⟩ := splitBytes?_eq_some_iff.1 hsplit
    cases rest with
    | nil => cases hhead
    | cons d b =>
      obtain rfl : d = c := by simpa using hhead
      exact ⟨a, b, htext, hlen⟩
  · rintro ⟨a, b, htext, hlen⟩
    exact ⟨(a, c :: b), splitBytes?_eq_some_iff.2 ⟨htext, hlen⟩, rfl⟩

theorem charBefore?_eq_some_iff {text : String} {offset : Nat} {c : Char} :
    charBefore? text offset = some c ↔
      ∃ a b, text.toList = (a ++ [c]) ++ b ∧ byteLen (a ++ [c]) = offset := by
  rw [charBefore?, Option.bind_eq_some_iff]
  constructor
  · rintro ⟨⟨front, b⟩, hsplit, hlast⟩
    obtain ⟨htext, hlen⟩ := splitBytes?_eq_some_iff.1 hsplit
    obtain ⟨a, rfl⟩ := List.getLast?_eq_some_iff.1 hlast
    exact ⟨a, b, htext, hlen⟩
  · rintro ⟨a, b, htext, hlen⟩
    exact ⟨(a ++ [c], b), splitBytes?_eq_some_iff.2 ⟨htext, hlen⟩, by simp⟩

end Text

namespace Span

/-- The span cuts a piece out of the text that is not empty. -/
@[mk_iff] structure Fits (text : String) (s : Span) : Prop where
  nonempty : s.start < s.stop
  start_cut : Text.isBoundary text s.start
  stop_cut : Text.isBoundary text s.stop

/-- The piece neither starts nor ends with white space. -/
@[mk_iff] structure Solid (text : String) (s : Span) : Prop extends s.Fits text where
  first : (Text.charAt? text s.start).any (!Text.isBlank ·)
  last : (Text.charBefore? text s.stop).any (!Text.isBlank ·)

/-- No byte belongs to both spans. -/
def Disjoint (s t : Span) : Prop := s.stop ≤ t.start ∨ t.stop ≤ s.start

instance (text : String) (s : Span) : Decidable (s.Fits text) :=
  decidable_of_iff _ (fits_iff text s).symm

instance (text : String) (s : Span) : Decidable (s.Solid text) :=
  decidable_of_iff _ (solid_iff text s).symm

instance (s t : Span) : Decidable (s.Disjoint t) := inferInstanceAs (Decidable (_ ∨ _))

theorem ext {s t : Span} (hstart : s.start = t.start) (hstop : s.stop = t.stop) : s = t := by
  cases s; cases t; simp_all

theorem contains_iff {s t : Span} : s.contains t ↔ s.start ≤ t.start ∧ t.stop ≤ s.stop := by
  simp [contains]

theorem contains_self (s : Span) : s.contains s := contains_iff.2 ⟨Nat.le_refl _, Nat.le_refl _⟩

theorem contains_trans {s t u : Span} (hst : s.contains t) (htu : t.contains u) : s.contains u := by
  rw [contains_iff] at *
  omega

theorem Disjoint.symm {s t : Span} (h : s.Disjoint t) : t.Disjoint s := Or.symm h

theorem Disjoint.mono {s t s' t' : Span} (h : s.Disjoint t) (hs : s.contains s')
    (ht : t.contains t') : s'.Disjoint t' := by
  rw [contains_iff] at hs ht
  unfold Disjoint at *
  omega

theorem not_contains_of_disjoint {s t u : Span} (h : s.Disjoint t) (hs : s.contains u)
    (hu : u.start < u.stop) : t.contains u = false := by
  refine Bool.eq_false_iff.2 fun ht => ?_
  rw [contains_iff] at hs ht
  unfold Disjoint at h
  omega

end Span

/-! ### Well-formed declarations -/

/-- The span of an annotation holds its name, and its arguments stand in parentheses. An annotation
that is bound to a dotted name is called by the last part of it. -/
@[mk_iff] structure AnnotationUse.WellFormed (text : String) (a : AnnotationUse) : Prop where
  solid : a.span.Solid text
  name_fits : a.nameSpan.Fits text
  name_inside : a.span.contains a.nameSpan
  args_open : ∀ s ∈ a.argsSpan.toList, Text.charAt? text s.start = some '('
  args_fit : ∀ arg ∈ a.args, arg.span.Fits text
  bound : ∀ q ∈ a.qualifiedName.toList, Java.isDottedName q → a.simpleName = TypeText.lastName q

/-- Modifiers stand at a `place` of their declaration, the annotations among them in source order. -/
@[mk_iff] structure Modifiers.WellFormed (text : String) (place : Span → Bool) (m : Modifiers) :
    Prop where
  span_fits : ∀ s ∈ m.span.toList, s.Fits text
  keywords : ∀ k ∈ m.keywords, k.span.Solid text
  annotations : ∀ a ∈ m.annotations, a.WellFormed text ∧ place a.span
  ordered : m.annotations.Pairwise fun a b => a.span.stop ≤ b.span.start

@[mk_iff] structure Parameter.WellFormed (text : String) (p : Parameter) : Prop where
  span_fits : p.span.Fits text
  name_fits : p.nameSpan.Fits text
  name_inside : p.span.contains p.nameSpan
  modifiers : p.modifiers.WellFormed text p.span.contains

@[mk_iff] structure FieldDecl.WellFormed (text : String) (f : FieldDecl) : Prop where
  span_fits : f.span.Fits text
  type_fits : f.type.span.Fits text
  names : ∀ d ∈ f.declarators, d.nameSpan.Fits text ∧ f.span.contains d.nameSpan
  modifiers : f.modifiers.WellFormed text f.span.contains

/-- Inside the span of a method but outside its parameters. -/
def MethodDecl.isHeader (m : MethodDecl) (s : Span) : Bool :=
  m.span.contains s && decide (s.Disjoint m.paramsSpan)

@[mk_iff] structure MethodDecl.WellFormed (text : String) (m : MethodDecl) : Prop where
  span_fits : m.span.Fits text
  name_fits : m.nameSpan.Fits text
  name_inside : m.isHeader m.nameSpan
  type_params_fit : ∀ s ∈ m.typeParamsSpan.toList, s.Fits text
  return_fits : ∀ r ∈ m.returnType.toList, r.span.Fits text
  returns : m.isConstructor = false → m.returnType.isSome
  params_fit : m.paramsSpan.Fits text
  params_inside : m.span.contains m.paramsSpan
  params : ∀ p ∈ m.params, p.WellFormed text ∧ m.paramsSpan.contains p.span
  params_disjoint : m.params.Pairwise fun p q => p.span.Disjoint q.span
  modifiers : m.modifiers.WellFormed text m.isHeader

/-- Inside the span of a type but outside its body. -/
def TypeDecl.isHeader (t : TypeDecl) (s : Span) : Bool :=
  t.span.contains s && decide (s.Disjoint t.bodySpan)

/-- The spans of all members of a type. -/
def TypeDecl.memberSpans (t : TypeDecl) : List Span := t.fields.map (·.span) ++ t.methods.map (·.span)

@[mk_iff] structure TypeDecl.WellFormed (text : String) (t : TypeDecl) : Prop where
  span_fits : t.span.Fits text
  name_fits : t.nameSpan.Fits text
  name_inside : t.isHeader t.nameSpan
  body_fits : t.bodySpan.Fits text
  body_inside : t.span.contains t.bodySpan
  body_open : Text.charAt? text t.bodySpan.start = some '\x7b'
  type_params_fit : ∀ s ∈ t.typeParamsSpan.toList, s.Fits text
  supertypes_fit : ∀ r ∈ t.supertypes, r.span.Fits text
  modifiers : t.modifiers.WellFormed text t.isHeader
  fields : ∀ f ∈ t.fields, f.WellFormed text
  methods : ∀ m ∈ t.methods, m.WellFormed text
  members_inside : ∀ s ∈ t.memberSpans, t.bodySpan.contains s
  members_disjoint : t.memberSpans.Pairwise Span.Disjoint

/-- The types lie apart, or one in the body of the other. -/
def TypeDecl.Nested (t u : TypeDecl) : Prop :=
  t.span.Disjoint u.span ∨ t.bodySpan.contains u.span ∨ u.bodySpan.contains t.span

/-- The spans of a unit fit its text and each other. -/
@[mk_iff] structure CompilationUnit.WellFormed (unit : CompilationUnit) : Prop where
  small : Text.length unit.text < ByteRange.modulus
  imports : ∀ i ∈ unit.imports, i.span.Solid unit.text ∧ ∀ t ∈ unit.types, i.span.Disjoint t.span
  types : ∀ t ∈ unit.types, t.WellFormed unit.text
  nested : unit.types.Pairwise TypeDecl.Nested
  members : ∀ t ∈ unit.types, ∀ u ∈ unit.types, t.bodySpan.contains u.span →
    ∀ s ∈ t.memberSpans, s.Disjoint u.span

/-- The declarations of a unit lie apart or one in the other: the nested types, fields and methods
of a type in its body, which is not all of the type, and the parameters of a method in the method. -/
@[mk_iff] structure CompilationUnit.Arranged (unit : CompilationUnit) : Prop where
  bodies : ∀ t ∈ unit.types, t.span.contains t.bodySpan ∧ t.bodySpan ≠ t.span
  nested : unit.types.Pairwise TypeDecl.Nested
  members_inside : ∀ t ∈ unit.types, ∀ s ∈ t.memberSpans, t.bodySpan.contains s
  members_disjoint : ∀ t ∈ unit.types, t.memberSpans.Pairwise Span.Disjoint
  members_apart : ∀ t ∈ unit.types, ∀ u ∈ unit.types, t.bodySpan.contains u.span →
    ∀ s ∈ t.memberSpans, s.Disjoint u.span
  params_inside : ∀ t ∈ unit.types, ∀ m ∈ t.methods, ∀ p ∈ m.params, m.span.contains p.span
  params_disjoint : ∀ t ∈ unit.types, ∀ m ∈ t.methods,
    m.params.Pairwise fun p q => p.span.Disjoint q.span

section Decidability

variable (text : String) (place : Span → Bool)

instance (a : AnnotationUse) : Decidable (a.WellFormed text) :=
  decidable_of_iff _ (AnnotationUse.wellFormed_iff text a).symm

instance (m : Modifiers) : Decidable (m.WellFormed text place) :=
  decidable_of_iff _ (Modifiers.wellFormed_iff text place m).symm

instance (p : Parameter) : Decidable (p.WellFormed text) :=
  decidable_of_iff _ (Parameter.wellFormed_iff text p).symm

instance (f : FieldDecl) : Decidable (f.WellFormed text) :=
  decidable_of_iff _ (FieldDecl.wellFormed_iff text f).symm

instance (m : MethodDecl) : Decidable (m.WellFormed text) :=
  decidable_of_iff _ (MethodDecl.wellFormed_iff text m).symm

instance (t : TypeDecl) : Decidable (t.WellFormed text) :=
  decidable_of_iff _ (TypeDecl.wellFormed_iff text t).symm

instance (t u : TypeDecl) : Decidable (t.Nested u) := inferInstanceAs (Decidable (_ ∨ _ ∨ _))

instance (unit : CompilationUnit) : Decidable unit.WellFormed :=
  decidable_of_iff _ (CompilationUnit.wellFormed_iff unit).symm

instance (unit : CompilationUnit) : Decidable unit.Arranged :=
  decidable_of_iff _ (CompilationUnit.arranged_iff unit).symm

end Decidability

/-! ### Finding declarations again -/

theorem find?_contains_eq {α : Type} {items : List α} {span : α → Span} {x : α} {s : Span}
    (hdisjoint : items.Pairwise fun x y => (span x).Disjoint (span y)) (hx : x ∈ items)
    (hs : (span x).contains s) (hne : s.start < s.stop) :
    items.find? (fun y => (span y).contains s) = some x := by
  induction items with
  | nil => cases hx
  | cons y items ih =>
    obtain ⟨hy, hrest⟩ := List.pairwise_cons.1 hdisjoint
    rcases List.mem_cons.1 hx with rfl | hx
    · exact List.find?_cons_of_pos hs
    · have hno := Span.not_contains_of_disjoint (hy x hx).symm hs hne
      rw [List.find?_cons_of_neg (by simp [hno])]
      exact ih hrest hx

namespace TypeDecl

variable {text : String} {t u : TypeDecl} {s : Span}

theorem isHeader_iff : t.isHeader s ↔ t.span.contains s ∧ s.Disjoint t.bodySpan := by
  simp [isHeader]

/-- The body of a well-formed type leaves out its name. -/
theorem WellFormed.body_ne (h : t.WellFormed text) : t.bodySpan ≠ t.span := by
  intro same
  obtain ⟨hname, hout⟩ := isHeader_iff.1 h.name_inside
  have hne := h.name_fits.nonempty
  rw [Span.contains_iff, ← same] at hname
  unfold Span.Disjoint at hout
  omega

end TypeDecl

namespace CompilationUnit

variable {unit : CompilationUnit} {t u : TypeDecl} {s : Span}

theorem mem_of_shortest? {types : List TypeDecl} (h : shortest? types = some t) : t ∈ types := by
  induction types generalizing t with
  | nil => cases h
  | cons a types ih =>
    rw [shortest?] at h
    cases hnext : shortest? types with
    | none =>
      rw [hnext] at h
      obtain rfl := Option.some.inj h
      exact List.mem_cons_self
    | some u =>
      simp only [hnext] at h
      split at h
      · obtain rfl := Option.some.inj h
        exact List.mem_cons_of_mem _ (ih hnext)
      · obtain rfl := Option.some.inj h
        exact List.mem_cons_self

theorem shortest?_eq_some {types : List TypeDecl} (ht : t ∈ types)
    (hmin : ∀ u ∈ types, u = t ∨ t.span.len < u.span.len) : shortest? types = some t := by
  induction types with
  | nil => cases ht
  | cons a types ih =>
    obtain ⟨ha, hrest⟩ := List.forall_mem_cons.1 hmin
    rw [shortest?]
    by_cases hmem : t ∈ types
    · rw [ih hmem hrest]
      rcases ha with rfl | hlt
      · simp
      · simp only [hlt, if_true]
    · obtain rfl : t = a := (List.mem_cons.1 ht).resolve_right hmem
      cases hnext : shortest? types with
      | none => rfl
      | some u =>
        have hu := mem_of_shortest? hnext
        have hlt : t.span.len < u.span.len :=
          (hrest u hu).resolve_left fun he => hmem (he ▸ hu)
        simp only [Nat.not_lt.2 (Nat.le_of_lt hlt), if_false]

theorem arranged_of_types {text : String} (types : ∀ t ∈ unit.types, t.WellFormed text)
    (nested : unit.types.Pairwise TypeDecl.Nested)
    (members : ∀ t ∈ unit.types, ∀ u ∈ unit.types, t.bodySpan.contains u.span →
      ∀ s ∈ t.memberSpans, s.Disjoint u.span) : unit.Arranged where
  bodies t ht := ⟨(types t ht).body_inside, (types t ht).body_ne⟩
  nested := nested
  members_inside t ht := (types t ht).members_inside
  members_disjoint t ht := (types t ht).members_disjoint
  members_apart := members
  params_inside t ht m hm p hp :=
    Span.contains_trans ((types t ht).methods m hm).params_inside
      (((types t ht).methods m hm).params p hp).2
  params_disjoint t ht m hm := ((types t ht).methods m hm).params_disjoint

theorem WellFormed.arranged (h : unit.WellFormed) : unit.Arranged :=
  arranged_of_types h.types h.nested h.members

theorem Arranged.nested_or_eq (h : unit.Arranged) (ht : t ∈ unit.types) (hu : u ∈ unit.types) :
    t = u ∨ t.Nested u := by
  refine or_iff_not_imp_left.2 fun hne => ?_
  have : Std.Symm TypeDecl.Nested := ⟨fun _ _ hab => by
    rcases hab with hab | hab | hab
    · exact .inl hab.symm
    · exact .inr (.inr hab)
    · exact .inr (.inl hab)⟩
  exact h.nested.forall ht hu hne

/-- A type that holds something is shorter than a type around it. -/
theorem Arranged.len_lt (h : unit.Arranged) (ht : t ∈ unit.types) (hin : t.bodySpan.contains u.span)
    (hs : u.span.contains s) (hne : s.start < s.stop) : u.span.len < t.span.len := by
  obtain ⟨hbody, hother⟩ := h.bodies t ht
  have hends : ¬ (t.bodySpan.start = t.span.start ∧ t.bodySpan.stop = t.span.stop) :=
    fun ⟨hstart, hstop⟩ => hother (Span.ext hstart hstop)
  rw [Span.contains_iff] at *
  unfold Span.len
  omega

/-- A piece that lies in a type and in none of the types nested in it belongs to that type. -/
theorem Arranged.ownerAt?_eq (h : unit.Arranged) (ht : t ∈ unit.types) (hs : t.span.contains s)
    (hne : s.start < s.stop)
    (hinner : ∀ u ∈ unit.types, t.bodySpan.contains u.span → u.span.contains s = false) :
    unit.ownerAt? s = some t := by
  refine shortest?_eq_some (List.mem_filter.2 ⟨ht, hs⟩) fun u hu => ?_
  obtain ⟨hu, hus⟩ := List.mem_filter.1 hu
  rcases h.nested_or_eq ht hu with rfl | hdis | hin | hout
  · exact .inl rfl
  · rw [Span.not_contains_of_disjoint hdis hs hne] at hus
    cases hus
  · rw [hinner u hu hin] at hus
    cases hus
  · exact .inr (h.len_lt hu hout hs hne)

variable {f : FieldDecl} {m : MethodDecl} {p : Parameter}

theorem field_mem_memberSpans (hf : f ∈ t.fields) : f.span ∈ t.memberSpans :=
  List.mem_append_left _ (List.mem_map_of_mem hf)

theorem method_mem_memberSpans (hm : m ∈ t.methods) : m.span ∈ t.memberSpans :=
  List.mem_append_right _ (List.mem_map_of_mem hm)

/-- A piece of the header of a type points at the type. -/
theorem WellFormed.declarationAt?_type (h : unit.WellFormed) (ht : t ∈ unit.types)
    (hs : t.isHeader s) (hne : s.start < s.stop) : unit.declarationAt? s = some (.type t) := by
  obtain ⟨hin, hout⟩ := TypeDecl.isHeader_iff.1 hs
  have hbody : ∀ u : Span, t.bodySpan.contains u → u.contains s = false := by
    intro u hu
    refine Bool.eq_false_iff.2 fun hus => ?_
    have := Span.not_contains_of_disjoint hout (Span.contains_self _) hne
    rw [Span.contains_trans hu hus] at this
    cases this
  have howner := h.arranged.ownerAt?_eq ht hin hne fun u _ hu => hbody _ hu
  have hmembers := (h.types t ht).members_inside
  have hfields : t.fields.find? (·.span.contains s) = none :=
    List.find?_eq_none.2 fun f hf => by simp [hbody _ (hmembers _ (field_mem_memberSpans hf))]
  have hmethods : t.methods.find? (·.span.contains s) = none :=
    List.find?_eq_none.2 fun m hm => by simp [hbody _ (hmembers _ (method_mem_memberSpans hm))]
  simp [declarationAt?, howner, hfields, hmethods]

theorem Arranged.ownerAt?_member (h : unit.Arranged) (ht : t ∈ unit.types) {whole : Span}
    (hwhole : whole ∈ t.memberSpans) (hs : whole.contains s) (hne : s.start < s.stop) :
    unit.ownerAt? s = some t := by
  have hin := Span.contains_trans (h.bodies t ht).1 (h.members_inside t ht whole hwhole)
  refine h.ownerAt?_eq ht (Span.contains_trans hin hs) hne fun u hu huin => ?_
  exact Span.not_contains_of_disjoint (h.members_apart t ht u hu huin whole hwhole) hs hne

/-- A piece of a field points at the field. -/
theorem Arranged.declarationAt?_field (h : unit.Arranged) (ht : t ∈ unit.types)
    (hf : f ∈ t.fields) (hs : f.span.contains s) (hne : s.start < s.stop) :
    unit.declarationAt? s = some (.field t f) := by
  have howner := h.ownerAt?_member ht (field_mem_memberSpans hf) hs hne
  have hdisjoint := (List.pairwise_append.1 (h.members_disjoint t ht)).1
  have hfind : t.fields.find? (·.span.contains s) = some f :=
    find?_contains_eq (List.pairwise_map.1 hdisjoint) hf hs hne
  simp [declarationAt?, howner, hfind]

theorem Arranged.declarationAt?_member_method (h : unit.Arranged) (ht : t ∈ unit.types)
    (hm : m ∈ t.methods) (hs : m.span.contains s) (hne : s.start < s.stop) :
    unit.declarationAt? s = some (match m.params.find? (·.span.contains s) with
      | some p => .parameter t m p
      | none => .method t m) := by
  have howner := h.ownerAt?_member ht (method_mem_memberSpans hm) hs hne
  obtain ⟨-, hmethods, hcross⟩ := List.pairwise_append.1 (h.members_disjoint t ht)
  have hfields : t.fields.find? (·.span.contains s) = none := by
    refine List.find?_eq_none.2 fun f hf => ?_
    have hdis := hcross f.span (List.mem_map_of_mem hf) m.span (List.mem_map_of_mem hm)
    simp [Span.not_contains_of_disjoint hdis.symm hs hne]
  have hfind : t.methods.find? (·.span.contains s) = some m :=
    find?_contains_eq (List.pairwise_map.1 hmethods) hm hs hne
  simp only [declarationAt?, howner, hfields, hfind, Option.bind_eq_bind, Option.bind_some]
  cases m.params.find? (·.span.contains s) with
  | none => rfl
  | some p => rfl

theorem isHeader_iff_method : m.isHeader s ↔ m.span.contains s ∧ s.Disjoint m.paramsSpan := by
  simp [MethodDecl.isHeader]

/-- A piece of the header of a method, outside its parameters, points at the method. -/
theorem WellFormed.declarationAt?_method (h : unit.WellFormed) (ht : t ∈ unit.types)
    (hm : m ∈ t.methods) (hs : m.isHeader s) (hne : s.start < s.stop) :
    unit.declarationAt? s = some (.method t m) := by
  obtain ⟨hin, hout⟩ := isHeader_iff_method.1 hs
  have hparams : m.params.find? (·.span.contains s) = none := by
    refine List.find?_eq_none.2 fun p hp => ?_
    have hinside := (((h.types t ht).methods m hm).params p hp).2
    have hno := Span.not_contains_of_disjoint hout (Span.contains_self _) hne
    intro hps
    rw [Span.contains_trans hinside hps] at hno
    cases hno
  rw [h.arranged.declarationAt?_member_method ht hm hin hne, hparams]

/-- A piece of a parameter points at the parameter. -/
theorem Arranged.declarationAt?_parameter (h : unit.Arranged) (ht : t ∈ unit.types)
    (hm : m ∈ t.methods) (hp : p ∈ m.params) (hs : p.span.contains s) (hne : s.start < s.stop) :
    unit.declarationAt? s = some (.parameter t m p) := by
  have hin := h.params_inside t ht m hm p hp
  have hfind : m.params.find? (·.span.contains s) = some p :=
    find?_contains_eq (h.params_disjoint t ht m hm) hp hs hne
  rw [h.declarationAt?_member_method ht hm (Span.contains_trans hin hs) hne, hfind]

end CompilationUnit

end JakartaCheck
