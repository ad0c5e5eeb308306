import JakartaCheck.Proofs.AnnotationRemoval
import JakartaCheck.Proofs.DeclarationSeams
import JakartaCheck.Proofs.ImportEdits
import JakartaCheck.Proofs.TypeNesting

/-!
# Neighbours of removed annotations

Removing an annotation also removes the blanks behind it, so what stands in front of it may become
one word with what stands behind it. That happens only where the annotation touches a modifier on
its left, a keyword or another annotation (`Modifiers.Touches`): no word ends where a declaration
starts, and modifiers that do not touch are parted by white space or a comment
(`Java.Parser.KeepsSeams`).
-/

namespace JakartaCheck

open Java

/-- Words end and start at the two ends of the range, so that they are one if it is deleted. -/
def ByteRange.Fuses (text : String) (r : ByteRange) : Prop :=
  (Text.charBefore? text r.start).any continuesWord ∧ (Text.charAt? text r.stop).any continuesWord

instance (text : String) (r : ByteRange) : Decidable (r.Fuses text) :=
  inferInstanceAs (Decidable (_ ∧ _))

namespace Modifiers

/-- A keyword or an annotation without arguments ends where the annotation starts. -/
def Touches (m : Modifiers) (a : AnnotationUse) : Prop :=
  (∃ k ∈ m.keywords, k.span.stop = a.span.start) ∨
    ∃ b ∈ m.annotations, b.argsSpan = Option.none ∧ b.span.stop = a.span.start

/-- No word ends where an annotation starts, unless it touches another modifier. -/
def Apart (text : String) (m : Modifiers) : Prop :=
  ∀ a ∈ m.annotations, a.span.Fits text ∧ (Loose text a.span.start ∨ m.Touches a)

end Modifiers

/-- The modifiers of a declaration and, if it is a method, of its parameters. -/
def Located.modifierLists (found : Located) : List Modifiers :=
  found.modifiers :: found.parameters.map (·.modifiers)

theorem Family.exists_of_mem_removable {found : Located} {a : AnnotationUse}
    (h : a ∈ removable found) : ∃ m ∈ found.modifierLists, a ∈ m.annotations := by
  cases found with
  | method t m =>
    rcases List.mem_append.1 h with h | h
    · exact ⟨m.modifiers, List.mem_cons_self, h⟩
    · obtain ⟨p, hp, ha⟩ := List.mem_flatMap.1 h
      exact ⟨p.modifiers, List.mem_cons_of_mem _ (List.mem_map_of_mem hp), ha⟩
  | type t => exact ⟨_, List.mem_cons_self, h⟩
  | field t f => exact ⟨_, List.mem_cons_self, h⟩
  | parameter t m p => exact ⟨_, List.mem_cons_self, h⟩

namespace Java

variable {text : String} {n m c d : Node}

/-! ### Modifiers -/

/-- What is known of a node of a source, with the place of a declaration. -/
structure Node.SetOff (text : String) (n : Node) : Prop where
  seamed : n.Everywhere (Node.Seamed text)
  shaped : n.Everywhere (Node.Shaped text)
  start : n.kind.isOneOf declarationForms → Loose text n.span.start

theorem isAnnotationNode_iff : isAnnotationNode n = n.kind.isOneOf annotationForms := by
  obtain ⟨kind, field, span, children⟩ := n
  cases kind with
  | token s => rfl
  | form f => cases f <;> rfl

theorem readAnnotationUse?_spans {a : AnnotationUse} (read : readAnnotationUse? text n = some a) :
    a.span = n.span ∧ a.argsSpan = (n.child? .arguments).map Node.span := by
  simp only [readAnnotationUse?, Option.bind_eq_bind, Option.bind_eq_some_iff] at read
  obtain ⟨name, -, eq⟩ := read
  obtain rfl := Option.some.inj eq
  exact ⟨rfl, rfl⟩

theorem mem_annotations {a : AnnotationUse} :
    a ∈ (readModifiers text (some m)).annotations ↔
      ∃ c ∈ m.children, c.kind.isOneOf annotationForms = true ∧
        readAnnotationUse? text c = some a := by
  simp only [readModifiers, List.mem_filterMap, List.mem_filter, isAnnotationNode_iff, and_assoc]

theorem hasForm_of_isAnnotation (h : n.kind.isOneOf annotationForms = true) :
    n.hasForm .annotationUse = true ∨ n.kind = .form .markerAnnotationUse := by
  rw [← isAnnotationNode_iff, isAnnotationNode, Bool.or_eq_true] at h
  exact h.symm.imp_right beq_iff_eq.1

theorem child?_arguments_of_marker (seamed : c.Seamed text)
    (shaped : c.Everywhere (Node.Shaped text)) (kind : c.kind = .form .markerAnnotationUse) :
    c.child? .arguments = none := by
  by_contra other
  obtain ⟨arguments, found⟩ := Option.ne_none_iff_exists'.1 other
  have mem := List.mem_of_find?_eq_some found
  exact seamed.lacks _ kind (.field .arguments) (by decide) arguments mem
    (Node.bears_of_field (shaped.child mem).here.bare (field_of_child? found))

/-- A marker is read as an annotation without arguments. -/
theorem exists_mem_annotations (seamed : c.Seamed text) (shaped : c.Everywhere (Node.Shaped text))
    (hc : c ∈ m.children) (inner : c.children ≠ []) (kind : c.kind = .form .markerAnnotationUse) :
    ∃ b ∈ (readModifiers text (some m)).annotations, b.argsSpan = none ∧ b.span = c.span := by
  have use : c.kind.isOneOf annotationForms = true := by
    rw [kind]
    decide
  obtain ⟨name, hname⟩ := Option.isSome_iff_exists.1 (seamed.named use inner)
  obtain ⟨b, read⟩ : ∃ b, readAnnotationUse? text c = some b := by
    simp only [readAnnotationUse?, hname, Option.bind_eq_bind, Option.bind_some]
    exact ⟨_, rfl⟩
  obtain ⟨span, args⟩ := readAnnotationUse?_spans read
  refine ⟨b, mem_annotations.2 ⟨c, hc, use, read⟩, ?_, span⟩
  rw [args, child?_arguments_of_marker seamed shaped kind]
  rfl

/-- What an annotation touches on its left is read as a modifier, or ends in a parenthesis. -/
theorem Node.SetOff.touches (h : m.SetOff text) (modifiers : m.hasForm .modifiers = true)
    (hd : d ∈ Node.solid m.children) {a : AnnotationUse} (stop : d.span.stop = a.span.start) :
    Loose text a.span.start ∨ (readModifiers text (some m)).Touches a := by
  have mem := (Node.mem_solid.1 hd).1
  rcases h.seamed.here.modifiers modifiers d hd with bare | ⟨inner, use⟩
  · have unnamed : d.isNamed = false := by
      unfold Node.isNamed
      cases kind : d.kind with
      | token s => rfl
      | form f => simp [kind, Kind.isBare] at bare
    have keyword : d ∈ m.children.filter (!·.isNamed) := List.mem_filter.2 ⟨mem, by simp [unnamed]⟩
    exact .inr (.inl ⟨_, List.mem_map_of_mem keyword, stop⟩)
  · have seamed := h.seamed.child mem
    rcases hasForm_of_isAnnotation use with arguments | marker
    · exact .inl (stop ▸ seamed.here.closed arguments inner)
    · obtain ⟨b, hb, args, span⟩ :=
        exists_mem_annotations seamed.here (h.shaped.child mem) mem inner marker
      exact .inr (.inr ⟨b, hb, args, by rw [span, stop]⟩)

/-- The first modifier starts where no word ends. The others adjoin what stands in front of them. -/
theorem Node.SetOff.apart (h : m.SetOff text) (modifiers : m.hasForm .modifiers = true)
    (start : Loose text m.span.start) : (readModifiers text (some m)).Apart text := by
  intro a ha
  obtain ⟨c, hc, use, read⟩ := mem_annotations.1 ha
  have span := (readAnnotationUse?_spans read).1
  refine ⟨span ▸ h.shaped.here.fits c hc, ?_⟩
  have solid : c ∈ Node.solid m.children :=
    Node.mem_solid.2 ⟨hc, Node.isComment_of_isOneOf use (by decide)⟩
  obtain ⟨chain, first⟩ := h.seamed.here.row modifiers
  obtain ⟨front, back, split⟩ := List.append_of_mem solid
  rcases front.eq_nil_or_concat with rfl | ⟨front, d, rfl⟩
  · rw [span, first c (by rw [split]; rfl)]
    exact .inl start
  · have hd : d ∈ Node.solid m.children := by simp [split]
    rw [split, List.concat_eq_append, List.append_assoc] at chain
    have adjoins := (List.isChain_cons_cons.1 (List.isChain_append.1 chain).2.1).1
    rcases adjoins with here | loose
    · exact h.touches modifiers hd (here.trans (congrArg Span.start span).symm)
    · exact .inl (span ▸ loose)

theorem lacking_of_mem {form : Form} (h : form ∈ declarationForms) :
    lacking form = .field .modifiers :: branchingForms.map .form :=
  if_pos (List.contains_iff_mem.2 h)

theorem Node.Seamed.not_bears (h : n.Seamed text)
    (declares : n.kind.isOneOf declarationForms = true) {mark : Mark}
    (hmark : mark ∈ Mark.field .modifiers :: branchingForms.map .form) (hc : c ∈ n.children) :
    ¬ c.bears mark := by
  obtain ⟨form, hform, kind⟩ := Kind.isOneOf_iff.1 declares
  exact h.lacks form kind mark (lacking_of_mem hform ▸ hmark) c hc

/-- The modifiers of a declaration are found by their form. -/
theorem modifiersNode?_form (seamed : n.Seamed text) (shaped : n.Everywhere (Node.Shaped text))
    (declares : n.kind.isOneOf declarationForms = true) (found : modifiersNode? n = some m) :
    m ∈ n.children ∧ m.hasForm .modifiers = true := by
  obtain ⟨mem, marked⟩ := modifiersNode?_cases found
  refine ⟨mem, marked.resolve_left fun field => ?_⟩
  exact seamed.not_bears declares List.mem_cons_self mem
    (Node.bears_of_field (shaped.child mem).here.bare field)

/-- The modifiers of a declaration start with it. -/
theorem Node.SetOff.modifiers_apart (h : n.SetOff text)
    (declares : n.kind.isOneOf declarationForms = true) :
    (readModifiers text (modifiersNode? n)).Apart text := by
  cases found : modifiersNode? n with
  | none => exact nofun
  | some m =>
    obtain ⟨hm, modifiers⟩ := modifiersNode?_form h.seamed.here h.shaped declares found
    have inner : m.SetOff text := ⟨h.seamed.child hm, h.shaped.child hm, fun other => by
      rw [beq_iff_eq.1 modifiers] at other
      exact absurd other (by decide)⟩
    refine inner.apart modifiers ?_
    rw [h.seamed.here.front declares m hm modifiers]
    exact h.start declares

/-! ### Members -/

theorem not_branching_of_declares (h : n.kind.isOneOf declarationForms = true) :
    n.kind.isOneOf branchingForms = false := by
  have apart : ∀ form ∈ declarationForms, (Kind.form form).isOneOf branchingForms = false := by
    decide
  obtain ⟨form, hform, kind⟩ := Kind.isOneOf_iff.1 h
  exact kind ▸ apart form hform

/-- A declaration has no branches among its parts. -/
theorem Node.SetOff.not_branching (h : n.SetOff text)
    (declares : n.kind.isOneOf declarationForms = true) (hc : c ∈ n.children) :
    c.kind.isOneOf branchingForms = false := by
  refine Bool.eq_false_iff.2 fun branching => ?_
  obtain ⟨form, hform, kind⟩ := Kind.isOneOf_iff.1 branching
  have mark : Mark.form form ∈ .field .modifiers :: branchingForms.map .form :=
    List.mem_cons_of_mem _ (List.mem_map_of_mem hform)
  have plain : ∀ form ∈ branchingForms, form ≠ .lineComment ∧ form ≠ .blockComment := by decide
  exact h.seamed.here.not_bears declares mark hc
    (Node.bears_of_form (plain form hform) (beq_iff_eq.2 kind))

theorem Node.SetOff.child (h : n.SetOff text) (plain : n.kind.isOneOf branchingForms = false)
    (hc : c ∈ n.children) : c.SetOff text :=
  ⟨h.seamed.child hc, h.shaped.child hc, h.seamed.here.apart plain c hc⟩

mutual

/-- A member is a part of the body, or of what follows the constants of an enumeration. -/
theorem exists_parent_of_mem_members : ∀ n : Node, m ∈ members n →
    ∃ parent ∈ n.preorder, m ∈ parent.children ∧
      (parent = n ∨ parent.hasForm .enumBodyDeclarations = true)
  | .mk kind field span children, h => by
    rw [members] at h
    rcases exists_parent_of_mem_membersAmong children h with mem | ⟨parent, mem, hm, form⟩
    · exact ⟨_, Node.mem_preorder_self _, mem, .inl rfl⟩
    · rw [Node.preorder_mk]
      exact ⟨parent, List.mem_cons_of_mem _ mem, hm, .inr form⟩

theorem exists_parent_of_mem_membersAmong : ∀ ns : List Node, m ∈ membersAmong ns →
    m ∈ ns ∨ ∃ parent ∈ ns.flatMap Node.preorder, m ∈ parent.children ∧
      parent.hasForm .enumBodyDeclarations = true
  | [], h => by cases h
  | n :: ns, h => by
    rw [membersAmong] at h
    rw [List.flatMap_cons]
    have rest : m ∈ membersAmong ns → m ∈ n :: ns ∨
        ∃ parent ∈ n.preorder ++ ns.flatMap Node.preorder, m ∈ parent.children ∧
          parent.hasForm .enumBodyDeclarations = true := fun h =>
      (exists_parent_of_mem_membersAmong ns h).imp (List.mem_cons_of_mem _)
        fun ⟨parent, mem, hm, form⟩ => ⟨parent, List.mem_append_right _ mem, hm, form⟩
    split at h
    · rename_i form
      rcases List.mem_append.1 h with h | h
      · obtain ⟨parent, mem, hm, rfl | inner⟩ := exists_parent_of_mem_members n h
        · exact .inr ⟨parent, List.mem_append_left _ mem, hm, form⟩
        · exact .inr ⟨parent, List.mem_append_left _ mem, hm, inner⟩
      · exact rest h
    · rcases List.mem_cons.1 h with rfl | h
      · exact .inl List.mem_cons_self
      · exact rest h

end

theorem Node.SetOff.member (h : n.SetOff text) (plain : n.kind.isOneOf branchingForms = false)
    (hm : m ∈ members n) : m.SetOff text := by
  obtain ⟨parent, mem, inside, rfl | form⟩ := exists_parent_of_mem_members n hm
  · exact h.child plain inside
  · have kind : parent.kind = .form .enumBodyDeclarations := beq_iff_eq.1 form
    have inner : parent.SetOff text := ⟨h.seamed.inner mem, h.shaped.inner mem, fun declares => by
      rw [kind] at declares
      exact absurd declares (by decide)⟩
    refine inner.child ?_ inside
    rw [kind]
    decide

theorem isOneOf_of_typeKind? (h : (typeKind? n).isSome) :
    n.kind.isOneOf declarationForms = true := by
  obtain ⟨kind, hkind⟩ := Option.isSome_iff_exists.1 h
  obtain ⟨form, hform, eq⟩ := Imports.typeForm_of_typeKind? hkind
  exact Kind.isOneOf_iff.2 ⟨form, List.mem_append_left _ hform, eq⟩

theorem Node.SetOff.ofBody (h : n.SetOff text) (declares : n.kind.isOneOf declarationForms = true)
    {body : Node} (hbody : n.child? .body = some body) (hm : m ∈ members body) : m.SetOff text := by
  have mem := List.mem_of_find?_eq_some hbody
  exact (h.child (not_branching_of_declares declares) mem).member (h.not_branching declares mem) hm

theorem Node.Declares.setOff (h : n.Declares m) (hn : n.SetOff text) : m.SetOff text := by
  induction h with
  | here => exact hn
  | member type hbody hc _ ih => exact ih (hn.ofBody (isOneOf_of_typeKind? type) hbody hc)

/-! ### Declarations -/

theorem isOneOf_of_isField (form : isFieldNode n = true) :
    n.kind.isOneOf declarationForms = true := by
  rcases Bool.or_eq_true_iff.1 form with form | form <;> exact beq_iff_eq.1 form ▸ by decide

theorem isOneOf_of_isMethod
    (form : n.hasForm .methodDeclaration = true ∨ n.hasForm .constructorDeclaration = true) :
    n.kind.isOneOf declarationForms = true := by
  rcases form with form | form <;> exact beq_iff_eq.1 form ▸ by decide

theorem readParameter?_modifiers {p : Parameter} (read : readParameter? text n = some p) :
    n.kind.isOneOf declarationForms = true ∧
      p.modifiers = readModifiers text (modifiersNode? n) := by
  have declares : ∀ form ∈ [Form.formalParameter, .spreadParameter], n.hasForm form = true →
      n.kind.isOneOf declarationForms = true := by
    have sub : ∀ form ∈ [Form.formalParameter, .spreadParameter], form ∈ declarationForms := by
      decide
    exact fun form hform kind => Kind.isOneOf_iff.2 ⟨form, sub form hform, beq_iff_eq.1 kind⟩
  unfold readParameter? at read
  split at read
  · rename_i form
    simp only [Option.bind_eq_bind, Option.bind_eq_some_iff] at read
    obtain ⟨type, -, name, -, eq⟩ := read
    obtain rfl := Option.some.inj eq
    exact ⟨declares _ (by simp) form, rfl⟩
  · split at read
    · rename_i form
      simp only [Option.bind_eq_bind, Option.bind_eq_some_iff] at read
      obtain ⟨type, -, declarator, -, name, -, eq⟩ := read
      obtain rfl := Option.some.inj eq
      exact ⟨declares _ (by simp) form, rfl⟩
    · cases read

end Java

namespace MethodDecl

/-- The modifiers of a method and of its parameters. -/
def Apart (text : String) (m : MethodDecl) : Prop :=
  m.modifiers.Apart text ∧ ∀ p ∈ m.params, p.modifiers.Apart text

end MethodDecl

/-- The modifiers of a type and of its members. -/
structure TypeDecl.Apart (text : String) (t : TypeDecl) : Prop where
  modifiers : t.modifiers.Apart text
  fields : ∀ f ∈ t.fields, f.modifiers.Apart text
  methods : ∀ m ∈ t.methods, m.Apart text

namespace Java

variable {text : String} {n m c d : Node}

theorem readMethod?_apart {method : MethodDecl} (h : n.SetOff text)
    (read : readMethod? text n = some method) : method.Apart text := by
  obtain ⟨form, name, params, returnType, -, hparams, -, rfl⟩ := readMethod?_cases read
  have declares := isOneOf_of_isMethod form
  have mem := List.mem_of_find?_eq_some hparams
  have inside := h.child (not_branching_of_declares declares) mem
  refine ⟨h.modifiers_apart declares, fun p hp => ?_⟩
  obtain ⟨c, hc, readParameter⟩ := List.mem_filterMap.1 hp
  obtain ⟨parameter, modifiers⟩ := readParameter?_modifiers readParameter
  rw [modifiers]
  exact (inside.child (h.not_branching declares mem) (List.mem_filter.1 hc).1).modifiers_apart
    parameter

theorem readField?_apart {f : FieldDecl} (h : n.SetOff text) (form : isFieldNode n = true)
    (read : readField? text n = some f) : f.modifiers.Apart text := by
  have declares := isOneOf_of_isField form
  simp only [readField?, Option.bind_eq_bind, Option.bind_eq_some_iff] at read
  obtain ⟨type, -, eq⟩ := read
  obtain rfl := Option.some.inj eq
  exact h.modifiers_apart declares

theorem readTypeDecl?_apart {t : TypeDecl} (h : n.SetOff text)
    (read : readTypeDecl? text n = some t) : t.Apart text := by
  simp only [readTypeDecl?, Option.bind_eq_bind, Option.bind_eq_some_iff] at read
  obtain ⟨kind, hkind, name, -, body, hbody, eq⟩ := read
  obtain rfl := Option.some.inj eq
  have declares := isOneOf_of_typeKind? (Option.isSome_iff_exists.2 ⟨kind, hkind⟩)
  refine ⟨h.modifiers_apart declares, fun f hf => ?_, fun method hm => ?_⟩
  · obtain ⟨c, hc, readField⟩ := List.mem_filterMap.1 hf
    obtain ⟨hc, form⟩ := List.mem_filter.1 hc
    exact readField?_apart (h.ofBody declares hbody hc) form readField
  · obtain ⟨c, hc, readMethod⟩ := List.mem_filterMap.1 hm
    exact readMethod?_apart (h.ofBody declares hbody hc) readMethod

end Java

namespace CompilationUnit

variable {parser : Parser} {unit : CompilationUnit} {text uri : String}

theorem bindModifiers_apart {m : Modifiers} (h : m.Apart text) :
    (unit.bindModifiers m).Apart text := by
  intro a ha
  obtain ⟨a, mem, rfl⟩ := List.mem_map.1 ha
  obtain ⟨fits, apart⟩ := h a mem
  refine ⟨fits, apart.imp_right (Or.imp_right ?_)⟩
  rintro ⟨b, hb, args, stop⟩
  exact ⟨_, List.mem_map_of_mem hb, args, stop⟩

theorem bindMethod_apart {m : MethodDecl} (h : m.Apart text) : (unit.bindMethod m).Apart text := by
  refine ⟨bindModifiers_apart h.1, fun p hp => ?_⟩
  obtain ⟨p, mem, rfl⟩ := List.mem_map.1 hp
  exact bindModifiers_apart (h.2 p mem)

theorem bindTypeDecl_apart {t : TypeDecl} (h : t.Apart text) :
    (unit.bindTypeDecl t).Apart text := by
  refine ⟨bindModifiers_apart h.modifiers, fun f hf => ?_, fun m hm => ?_⟩
  · obtain ⟨f, mem, rfl⟩ := List.mem_map.1 hf
    exact bindModifiers_apart (h.fields f mem)
  · obtain ⟨m, mem, rfl⟩ := List.mem_map.1 hm
    exact bindMethod_apart (h.methods m mem)

theorem apart_of_keepsSeams (seams : parser.KeepsSeams) (accepted : parser.accepts text)
    (lowered : lower? parser uri text = some unit) {t : TypeDecl} (ht : t ∈ unit.types) :
    t.Apart text := by
  obtain ⟨root, parsed, rfl⟩ := exists_of_accepts accepted lowered
  have shaped := seams.shaped parsed
  obtain ⟨t, mem, rfl⟩ := List.mem_map.1 ht
  obtain ⟨n, hn, m, declares, read⟩ :=
    exists_declares_of_mem (shaped.imp fun _ h => h.toConcrete) mem
  have setOff : m.SetOff text :=
    declares.setOff ⟨seams.seamed parsed n hn, shaped.child hn, seams.top parsed n hn⟩
  exact bindTypeDecl_apart (readTypeDecl?_apart setOff read)

theorem apart_of_mem_modifierLists (apart : ∀ t ∈ unit.types, t.Apart text) {found : Located}
    (hof : found.Of unit) {m : Modifiers} (hm : m ∈ found.modifierLists) : m.Apart text := by
  have apart := apart found.owner hof.owner_mem
  rcases List.mem_cons.1 hm with rfl | hm
  · cases found with
    | type t => exact apart.modifiers
    | field t f => exact apart.fields f hof.2
    | method t m => exact (apart.methods m hof.2).1
    | parameter t m p => exact (apart.methods m hof.2.1).2 p hof.2.2
  · obtain ⟨p, hp, rfl⟩ := List.mem_map.1 hm
    cases found with
    | method t m => exact (apart.methods m hof.2).2 p hp
    | _ => cases hp

end CompilationUnit

/-! ### Deletions -/

namespace Family

variable {parser : Parser} {unit : CompilationUnit} {d : Diagnostic} {text uri : String}
  {proposals : List Proposal} {p : Proposal} {edit : Edit}

/-- A deletion of more than the annotation and the blanks behind it starts with its line. -/
theorem Deletes.start_of_fuses {a : AnnotationUse} (h : Deletes text a edit)
    (fuses : edit.range.Fuses text) : edit.range.start = a.span.start := by
  obtain ⟨c, hc, word⟩ := (Option.any_eq_true _ _).1 fuses.1
  refine h.removal.line_start.resolve_right ?_
  rintro (start | line)
  · obtain ⟨front, back, -, before⟩ := Text.charBefore?_eq_some_iff.1 hc
    have pos := c.utf8Size_pos
    have zero : edit.range.start = 0 := start
    rw [zero, Text.byteLen_append, Text.byteLen_cons] at before
    omega
  · obtain rfl := Option.some.inj (hc.symm.trans line)
    exact absurd word (by decide +kernel)

/-- In a source without syntax errors, deleting an annotation makes no word out of two unless the
annotation touches a modifier on its left. -/
theorem removeAnnotations_fuse_touching (seams : parser.KeepsSeams) (accepted : parser.accepts text)
    (lowered : CompilationUnit.lower? parser uri text = some unit)
    (small : Text.length text < ByteRange.modulus)
    (proposed : propose d unit .removeAnnotations = .ok proposals) (hp : p ∈ proposals)
    (hedit : edit ∈ p.edits) (fuses : edit.range.Fuses text) :
    ∃ found, unit.declarationAt? d.span = some found ∧ ∃ m ∈ found.modifierLists,
      ∃ a ∈ m.annotations, Deletes text a edit ∧ edit.range.start = a.span.start ∧ m.Touches a := by
  have htext : unit.text = text := by
    obtain ⟨tree, -, rfl⟩ := CompilationUnit.lower?_eq_some_iff.1 lowered
    rfl
  subst htext
  have types := fun t ht => CompilationUnit.apart_of_keepsSeams seams accepted lowered (t := t) ht
  have apart : ∀ found : Located, found.Of unit → ∀ a ∈ removable found, ∃ m ∈ found.modifierLists,
      a ∈ m.annotations ∧ a.span.Fits unit.text ∧
        (Loose unit.text a.span.start ∨ m.Touches a) := by
    intro found hof a ha
    obtain ⟨m, hm, mem⟩ := exists_of_mem_removable ha
    exact ⟨m, hm, mem, CompilationUnit.apart_of_mem_modifierLists types hof hm a mem⟩
  have fits : ∀ found : Located, found.Of unit → ∀ a ∈ removable found, a.span.Fits unit.text :=
    fun found hof a ha => by
      obtain ⟨m, -, -, fits, -⟩ := apart found hof a ha
      exact fits
  obtain ⟨found, hfound, hof, name, -, answers⟩ := exists_answers_of_fits small fits proposed hp
  obtain ⟨a, ha, deletes⟩ := exists_of_mem_right answers.deletes.2.2 hedit
  obtain ⟨m, hm, mem, -, loose | touches⟩ := apart found hof a (List.mem_filter.1 ha).1
  · -- no word ends where the deletion starts
    obtain ⟨c, hc, word⟩ := (Option.any_eq_true _ _).1 fuses.1
    rw [deletes.start_of_fuses fuses] at hc
    rw [loose c hc] at word
    cases word
  · exact ⟨found, hfound, m, hm, a, mem, deletes, deletes.start_of_fuses fuses, touches⟩

/-- Of two annotations that touch, the second is removed. -/
theorem removeAnnotations_fuse_touching_marker : ∃ unit proposals p edit,
    CompilationUnit.ofText? "file:///A.java" "class A \x7b void f(@X@Y int i); \x7d" = some unit ∧
      propose ((Diagnostic.error "" "" "" ⟨26, 27⟩).withNames ["Y"]) unit .removeAnnotations =
        .ok proposals ∧ p ∈ proposals ∧ edit ∈ p.edits ∧
      edit.range.Fuses "class A \x7b void f(@X@Y int i); \x7d" ∧
      ∃ found, unit.declarationAt? ⟨26, 27⟩ = some found ∧
        ∃ m ∈ found.modifierLists, ∃ a ∈ m.annotations, m.Touches a := by
  have facts : (CompilationUnit.ofText? "file:///A.java"
      "class A \x7b void f(@X@Y int i); \x7d").any fun unit =>
        (propose ((Diagnostic.error "" "" "" ⟨26, 27⟩).withNames ["Y"]) unit
            .removeAnnotations).toOption.any (·.any fun p => p.edits.any fun edit =>
          decide (edit.range.Fuses "class A \x7b void f(@X@Y int i); \x7d")) := by
    decide +kernel
  simp only [Option.any_eq_true, List.any_eq_true, decide_eq_true_eq] at facts
  obtain ⟨unit, lowered, proposals, answer, p, hp, edit, hedit, fuses⟩ := facts
  obtain ⟨tree, parsed, -⟩ := CompilationUnit.lower?_eq_some_iff.1 lowered
  have proposed := eq_ok_of_toOption answer
  obtain ⟨found, hfound, m, hm, a, ha, -, -, touches⟩ :=
    removeAnnotations_fuse_touching grammar_keepsSeams (accepts_grammar parsed) lowered
      (by decide +kernel) proposed hp hedit fuses
  exact ⟨unit, proposals, p, edit, lowered, proposed, hp, hedit, fuses, found, hfound, m, hm, a,
    ha, touches⟩

/-- An annotation that touches a keyword is removed, and the keyword becomes one word with the
type. -/
theorem removeAnnotations_fuse_keyword : ∃ unit proposals p edit,
    CompilationUnit.ofText? "file:///A.java" "class A \x7b public@X int f; \x7d" = some unit ∧
      propose ((Diagnostic.error "" "" "" ⟨23, 24⟩).withNames ["X"]) unit .removeAnnotations =
        .ok proposals ∧ p ∈ proposals ∧ p.label = "Remove @X" ∧ edit ∈ p.edits ∧
      edit.range.Fuses "class A \x7b public@X int f; \x7d" ∧
      Edit.applyAll "class A \x7b public@X int f; \x7d" p.edits =
        .ok "class A \x7b publicint f; \x7d" := by
  have facts : (CompilationUnit.ofText? "file:///A.java"
      "class A \x7b public@X int f; \x7d").any fun unit =>
        (propose ((Diagnostic.error "" "" "" ⟨23, 24⟩).withNames ["X"]) unit
            .removeAnnotations).toOption.any (·.any fun p => p.edits.any fun edit =>
          decide (p.label = "Remove @X" ∧ edit.range.Fuses "class A \x7b public@X int f; \x7d" ∧
            Edit.applyAll "class A \x7b public@X int f; \x7d" p.edits =
              .ok "class A \x7b publicint f; \x7d")) := by
    decide +kernel
  simp only [Option.any_eq_true, List.any_eq_true, decide_eq_true_eq] at facts
  obtain ⟨unit, lowered, proposals, answer, p, hp, edit, hedit, label, fuses, applied⟩ := facts
  exact ⟨unit, proposals, p, edit, lowered, eq_ok_of_toOption answer, hp, label, hedit, fuses,
    applied⟩

end Family

end JakartaCheck
