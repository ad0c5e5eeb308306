import JakartaCheck.Proofs.SourceLayout

/-!
# Annotations that lie apart

The annotations of a unit (`CompilationUnit.annotations`) are cut out of its text, start and end with
something that can be seen, and do not overlap: `CompilationUnit.AnnotationsApart`. This asks nothing
of the declarations, and is so in every well-formed unit (`WellFormed.annotationsApart`).
-/

namespace JakartaCheck

/-- The annotations of a method and of its parameters. -/
def MethodDecl.annotations (m : MethodDecl) : List AnnotationUse :=
  m.modifiers.annotations ++ m.params.flatMap (·.modifiers.annotations)

def TypeDecl.memberAnnotations (t : TypeDecl) : List AnnotationUse :=
  t.fields.flatMap (·.modifiers.annotations) ++ t.methods.flatMap (·.annotations)

/-- The annotations of a type and of its members; nested types are types of their own. -/
def TypeDecl.annotations (t : TypeDecl) : List AnnotationUse :=
  t.modifiers.annotations ++ t.memberAnnotations

def CompilationUnit.annotations (unit : CompilationUnit) : List AnnotationUse :=
  unit.types.flatMap (·.annotations)

/-- The annotations of a unit are pieces of its text that lie apart. The text is short enough for the
offsets of edits, which have 32 bits. -/
@[mk_iff] structure CompilationUnit.AnnotationsApart (unit : CompilationUnit) : Prop where
  small : Text.length unit.text < ByteRange.modulus
  solid : ∀ a ∈ unit.annotations, a.span.Solid unit.text
  disjoint : unit.annotations.Pairwise fun a b => a.span.Disjoint b.span

instance (unit : CompilationUnit) : Decidable unit.AnnotationsApart :=
  decidable_of_iff _ (CompilationUnit.annotationsApart_iff unit).symm

theorem sublist_flatMap {α β : Type} {xs : List α} {x : α} (hx : x ∈ xs) (f : α → List β) :
    (f x).Sublist (xs.flatMap f) := by
  rw [List.flatMap_def]
  exact List.sublist_flatten_of_mem (List.mem_map_of_mem hx)

variable {text : String}

namespace Modifiers.WellFormed

variable {place : Span → Bool} {m : Modifiers}

theorem solid (h : m.WellFormed text place) {a : AnnotationUse} (ha : a ∈ m.annotations) :
    a.span.Solid text :=
  (h.annotations a ha).1.solid

theorem disjoint (h : m.WellFormed text place) :
    m.annotations.Pairwise fun a b => a.span.Disjoint b.span :=
  h.ordered.imp .inl

end Modifiers.WellFormed

namespace MethodDecl.WellFormed

variable {m : MethodDecl} {a : AnnotationUse}

theorem annotation_solid (h : m.WellFormed text) (ha : a ∈ m.annotations) : a.span.Solid text := by
  rcases List.mem_append.1 ha with ha | ha
  · exact h.modifiers.solid ha
  · obtain ⟨p, hp, hap⟩ := List.mem_flatMap.1 ha
    exact (h.params p hp).1.modifiers.solid hap

theorem annotation_inside (h : m.WellFormed text) (ha : a ∈ m.annotations) :
    m.span.contains a.span := by
  rcases List.mem_append.1 ha with ha | ha
  · exact (CompilationUnit.isHeader_iff_method.1 (h.modifiers.annotations a ha).2).1
  · obtain ⟨p, hp, hap⟩ := List.mem_flatMap.1 ha
    obtain ⟨hparam, hin⟩ := h.params p hp
    exact Span.contains_trans h.params_inside
      (Span.contains_trans hin (hparam.modifiers.annotations a hap).2)

/-- The annotations of a method and of its parameters do not overlap. -/
theorem annotations_disjoint (h : m.WellFormed text) :
    m.annotations.Pairwise fun a b => a.span.Disjoint b.span := by
  have hinside : ∀ p ∈ m.params, ∀ a ∈ p.modifiers.annotations, p.span.contains a.span :=
    fun p hp a ha => ((h.params p hp).1.modifiers.annotations a ha).2
  refine List.pairwise_append.2 ⟨h.modifiers.disjoint, List.pairwise_flatMap.2 ⟨?_, ?_⟩, ?_⟩
  · exact fun p hp => (h.params p hp).1.modifiers.disjoint
  · refine h.params_disjoint.imp_of_mem fun {p q} hp hq hdis a ha b hb => ?_
    exact hdis.mono (hinside p hp a ha) (hinside q hq b hb)
  · intro a ha b hb
    obtain ⟨p, hp, hbp⟩ := List.mem_flatMap.1 hb
    have hheader := (CompilationUnit.isHeader_iff_method.1 (h.modifiers.annotations a ha).2).2
    refine hheader.mono (Span.contains_self _) ?_
    exact Span.contains_trans (h.params p hp).2 (hinside p hp b hbp)

end MethodDecl.WellFormed

namespace TypeDecl.WellFormed

variable {t : TypeDecl} {a : AnnotationUse}

theorem annotation_solid (h : t.WellFormed text) (ha : a ∈ t.annotations) : a.span.Solid text := by
  rcases List.mem_append.1 ha with ha | ha
  · exact h.modifiers.solid ha
  · rcases List.mem_append.1 ha with ha | ha
    · obtain ⟨f, hf, hfa⟩ := List.mem_flatMap.1 ha
      exact (h.fields f hf).modifiers.solid hfa
    · obtain ⟨m, hm, hma⟩ := List.mem_flatMap.1 ha
      exact (h.methods m hm).annotation_solid hma

theorem field_annotation_inside (h : t.WellFormed text) {f : FieldDecl} (hf : f ∈ t.fields)
    (ha : a ∈ f.modifiers.annotations) : f.span.contains a.span :=
  ((h.fields f hf).modifiers.annotations a ha).2

theorem exists_annotated_member (h : t.WellFormed text) (ha : a ∈ t.memberAnnotations) :
    ∃ s ∈ t.memberSpans, s.contains a.span := by
  rcases List.mem_append.1 ha with ha | ha
  · obtain ⟨f, hf, hfa⟩ := List.mem_flatMap.1 ha
    exact ⟨_, CompilationUnit.field_mem_memberSpans hf, h.field_annotation_inside hf hfa⟩
  · obtain ⟨m, hm, hma⟩ := List.mem_flatMap.1 ha
    exact ⟨_, CompilationUnit.method_mem_memberSpans hm, (h.methods m hm).annotation_inside hma⟩

/-- An annotation stands in front of the body, or at a member. -/
theorem annotation_place (h : t.WellFormed text) (ha : a ∈ t.annotations) :
    t.isHeader a.span ∨ ∃ s ∈ t.memberSpans, s.contains a.span := by
  rcases List.mem_append.1 ha with ha | ha
  · exact .inl (h.modifiers.annotations a ha).2
  · exact .inr (h.exists_annotated_member ha)

theorem annotation_inside (h : t.WellFormed text) (ha : a ∈ t.annotations) :
    t.span.contains a.span := by
  rcases h.annotation_place ha with hheader | ⟨s, hs, hin⟩
  · exact (TypeDecl.isHeader_iff.1 hheader).1
  · exact Span.contains_trans h.body_inside (Span.contains_trans (h.members_inside s hs) hin)

theorem annotations_disjoint (h : t.WellFormed text) :
    t.annotations.Pairwise fun a b => a.span.Disjoint b.span := by
  obtain ⟨hfields, hmethods, hcross⟩ := List.pairwise_append.1 h.members_disjoint
  rw [List.pairwise_map] at hfields hmethods
  refine List.pairwise_append.2 ⟨h.modifiers.disjoint, List.pairwise_append.2 ⟨?_, ?_, ?_⟩, ?_⟩
  · refine List.pairwise_flatMap.2 ⟨fun f hf => (h.fields f hf).modifiers.disjoint, ?_⟩
    refine hfields.imp_of_mem fun {f g} hf hg hdis a ha b hb => ?_
    exact hdis.mono (h.field_annotation_inside hf ha) (h.field_annotation_inside hg hb)
  · refine List.pairwise_flatMap.2 ⟨fun m hm => (h.methods m hm).annotations_disjoint, ?_⟩
    refine hmethods.imp_of_mem fun {m n} hm hn hdis a ha b hb => ?_
    exact hdis.mono ((h.methods m hm).annotation_inside ha) ((h.methods n hn).annotation_inside hb)
  · intro a ha b hb
    obtain ⟨f, hf, hfa⟩ := List.mem_flatMap.1 ha
    obtain ⟨m, hm, hmb⟩ := List.mem_flatMap.1 hb
    have hdis := hcross f.span (List.mem_map_of_mem hf) m.span (List.mem_map_of_mem hm)
    exact hdis.mono (h.field_annotation_inside hf hfa) ((h.methods m hm).annotation_inside hmb)
  -- members lie in the body, and the annotations of the type itself do not
  · intro a ha b hb
    have hout := (TypeDecl.isHeader_iff.1 (h.modifiers.annotations a ha).2).2
    obtain ⟨s, hs, hbs⟩ := h.exists_annotated_member hb
    exact hout.mono (Span.contains_self _) (Span.contains_trans (h.members_inside s hs) hbs)

end TypeDecl.WellFormed

namespace CompilationUnit.WellFormed

variable {unit : CompilationUnit} {t u : TypeDecl} {a b : AnnotationUse}

/-- The annotations of a type overlap none of a type in its body. -/
theorem annotations_disjoint_of_inside (h : unit.WellFormed) (ht : t ∈ unit.types)
    (hu : u ∈ unit.types) (hin : t.bodySpan.contains u.span) (ha : a ∈ t.annotations)
    (hb : b ∈ u.annotations) : a.span.Disjoint b.span := by
  have hbu := (h.types u hu).annotation_inside hb
  rcases (h.types t ht).annotation_place ha with hheader | ⟨s, hs, has⟩
  · exact (TypeDecl.isHeader_iff.1 hheader).2.mono (Span.contains_self _)
      (Span.contains_trans hin hbu)
  · exact (h.members t ht u hu hin s hs).mono has hbu

theorem annotationsApart (h : unit.WellFormed) : unit.AnnotationsApart where
  small := h.small
  solid a ha := by
    obtain ⟨t, ht, hta⟩ := List.mem_flatMap.1 ha
    exact (h.types t ht).annotation_solid hta
  disjoint := by
    refine List.pairwise_flatMap.2 ⟨fun t ht => (h.types t ht).annotations_disjoint, ?_⟩
    refine h.nested.imp_of_mem fun {t u} ht hu hnested a ha b hb => ?_
    rcases hnested with hdis | hin | hout
    · exact hdis.mono ((h.types t ht).annotation_inside ha) ((h.types u hu).annotation_inside hb)
    · exact h.annotations_disjoint_of_inside ht hu hin ha hb
    · exact (h.annotations_disjoint_of_inside hu ht hout hb ha).symm

end CompilationUnit.WellFormed

end JakartaCheck
