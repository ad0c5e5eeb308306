import JakartaCheck.Proofs.GrammarOrder
import JakartaCheck.Proofs.TypeNesting

/-!
# Members in source order

Keywords, type parameters, type and name of a member stand in the text in this order
(`TypeDecl.InOrder`), if the tree that they are read from is sorted (`Node.Sorted`) and has the parts
of members in this order (`memberLayout`): what is read out of a member lies in the parts of its node
(`LiesIn`). Of the trees of the grammar both is shown, the order rule by rule (`laidOut_of_parse`).
-/

namespace JakartaCheck

open Java

/-- The keywords, the type parameters, the return type and the name. -/
def MethodDecl.parts (m : MethodDecl) : List Span :=
  m.modifiers.keywords.map (·.span) ++
    (m.typeParamsSpan.toList ++ ((m.returnType.map (·.span)).toList ++ [m.nameSpan]))

/-- The keywords, the type and the names. -/
def FieldDecl.parts (f : FieldDecl) : List Span :=
  f.modifiers.keywords.map (·.span) ++ f.type.span :: f.declarators.map (·.nameSpan)

namespace Modifiers

/-- Keywords say what stands at their places, if they say anything. -/
def Spelled (text : String) (m : Modifiers) : Prop :=
  ∀ k ∈ m.keywords, k.text ≠ "" → k.span.Spells text k.text

end Modifiers

/-- Each part of a member starts behind those before it, and what the keywords say stands there. -/
structure TypeDecl.InOrder (text : String) (t : TypeDecl) : Prop where
  fields : ∀ f ∈ t.fields, f.modifiers.Spelled text ∧ f.parts.Pairwise (·.start ≤ ·.start)
  methods : ∀ m ∈ t.methods, m.modifiers.Spelled text ∧ m.parts.Pairwise (·.start ≤ ·.start)
  constructors : ∀ m ∈ t.methods, m.isConstructor = m.returnType.isNone

namespace Java

variable {text : String} {n c : Node} {mark early late : Mark} {s t : Span}

/-! ### The layout of members -/

/-- The marks of the parts behind the modifiers of a member, in the order of the grammar. -/
def partMarks : List Mark :=
  [.field .typeParameters, .field .type, .field .name, .form .variableDeclarator]

/-- The marks of the parts of a member; modifiers are found by name or by form. -/
def memberMarks : List Mark := .field .modifiers :: .form .modifiers :: partMarks

def memberLayout : Form → List Mark
  | .methodDeclaration | .constructorDeclaration | .fieldDeclaration | .constantDeclaration =>
    memberMarks
  | _ => []

theorem production_builds (s : Symbol) :
    (production s).builds (Phrase.fitsLayout production 8 memberLayout) = true := by
  induction s using forall_symbol with
  | listed s mem =>
    revert s
    decide +kernel
  | beyond level arrows ge =>
    rw [production_binary ge]
    rfl

/-- The tree of a source is laid out as its grammar is, whichever marks are asked for. -/
theorem laidOut_of_builds {layout : Form → List Mark} (top : layout .program = [])
    (builds : ∀ s, (production s).builds (Phrase.fitsLayout production 8 layout) = true)
    {root : Node} (h : parse text = some root) : root.Everywhere (Node.LaidOut layout) := by
  obtain ⟨tokens, items, last, scanned, reads, rfl⟩ := exists_reads_of_parse h
  obtain ⟨-, notes, lastNotes⟩ := tokenize_chained scanned
  have inner := reads.laidOut builds rfl notes
  refine Node.everywhere_mk.2 ⟨fun form hform => ?_, List.forall_mem_append.2 ⟨inner, ?_⟩⟩
  · obtain rfl := Kind.form.inj hform
    rw [top]
    exact .nil
  · intro c hc
    exact (lastNotes c hc).laidOut

theorem laidOut_of_parse {root : Node} (h : parse text = some root) :
    root.Everywhere (Node.LaidOut memberLayout) :=
  laidOut_of_builds rfl production_builds h

/-! ### Trees in source order -/

/-- The children of a node follow each other inside of it, and comments have no names there. The tree
of a source is so everywhere, with syntax errors or without. -/
structure Node.Sorted (n : Node) : Prop where
  forward : ∀ c ∈ n.children, c.span.start ≤ c.span.stop
  inside : ∀ c ∈ n.children, n.span.contains c.span
  ordered : n.children.Pairwise fun a b => a.span.stop ≤ b.span.start
  unnamed : ∀ c ∈ n.children, c.isComment = true → c.field = none

theorem Node.Everywhere.sorted (shaped : n.Everywhere (Node.Shaped text)) :
    n.Everywhere Node.Sorted := by
  intro m hm
  have inner := shaped.inner hm
  exact ⟨fun c hc => Nat.le_of_lt (inner.here.fits c hc).nonempty, inner.here.inside,
    inner.here.ordered, fun c hc comment => ((inner.child hc).here.bare comment).1⟩

theorem sorted_of_parse {root : Node} (h : parse text = some root) : root.Everywhere Node.Sorted :=
  (shaped_of_parse h).sorted

/-! ### Spans in the parts of a node -/

/-- The span lies in a part with that mark. -/
structure LiesIn (n : Node) (mark : Mark) (s : Span) : Prop where
  forward : s.start ≤ s.stop
  part : ∃ c ∈ n.children, c.bears mark ∧ c.span.contains s

theorem LiesIn.stop_le_start (hs : LiesIn n early s) (ht : LiesIn n late t)
    (ordered : Node.InOrder early late n.children) (sorted : n.Sorted) : s.stop ≤ t.start := by
  obtain ⟨c, hc, hearly, hcs⟩ := hs.part
  obtain ⟨d, hd, hlate, hdt⟩ := ht.part
  have hcd := ordered.stop_le_start sorted.ordered hc hearly hd hlate
  have := (Span.contains_iff.1 hcs).2
  have := (Span.contains_iff.1 hdt).1
  omega

/-- Pieces of parts that stand in the order of the parts. -/
theorem pairwise_pieces {pieces : List (Mark × List Span)} (sorted : n.Sorted)
    (lies : ∀ p ∈ pieces, ∀ s ∈ p.2, LiesIn n p.1 s)
    (ordered : (pieces.map Prod.fst).Pairwise fun early late => Node.InOrder early late n.children)
    (rows : ∀ p ∈ pieces, p.2.Pairwise fun a b => a.stop ≤ b.start) :
    (pieces.flatMap Prod.snd).Pairwise (·.start ≤ ·.start) := by
  have row : (pieces.flatMap Prod.snd).Pairwise fun a b => a.stop ≤ b.start := by
    refine List.pairwise_flatMap.2 ⟨rows, ?_⟩
    refine (List.pairwise_map.1 ordered).imp_of_mem fun hp hq hpq s hs t ht => ?_
    exact (lies _ hp s hs).stop_le_start (lies _ hq t ht) hpq sorted
  refine row.imp_of_mem fun hs _ before => ?_
  obtain ⟨p, hp, hs⟩ := List.mem_flatMap.1 hs
  exact Nat.le_trans (lies p hp _ hs).forward before

/-- The keywords of the declaration at a node. -/
def keywordSpans (text : String) (n : Node) : List Span :=
  (readModifiers text (modifiersNode? n)).keywords.map (·.span)

theorem readModifiers_spelled (n : Option Node) : (readModifiers text n).Spelled text := by
  intro k hk some
  cases n with
  | none => cases hk
  | some n =>
    obtain ⟨token, -, rfl⟩ := List.mem_map.1 hk
    cases cut : Text.slice? text token.span.start token.span.stop with
    | none => simp [nodeText, cut] at some
    | some piece => rw [Span.Spells, nodeText, cut, Option.getD_some]

section Parts

variable (sorted : n.Everywhere Node.Sorted)

include sorted

theorem liesIn_child? {f : Field} (h : n.child? f = some c) : LiesIn n (.field f) c.span := by
  have hc := List.mem_of_find?_eq_some h
  have hbears := Node.bears_of_named (sorted.here.unnamed c hc) (field_of_child? h)
  exact ⟨sorted.here.forward c hc, c, hc, hbears, Span.contains_self _⟩

theorem liesIn_childSpan {f : Field} (hs : s ∈ ((n.child? f).map Node.span).toList) :
    LiesIn n (.field f) s := by
  obtain ⟨c, hc, rfl⟩ := Option.map_eq_some_iff.1 (Option.mem_toList.1 hs)
  exact liesIn_child? sorted hc

/-- The modifiers of a declaration are found by name or by form. -/
theorem liesIn_keywords :
    ∃ mark, (mark = .field .modifiers ∨ mark = .form .modifiers) ∧
      (∀ s ∈ keywordSpans text n, LiesIn n mark s) ∧
      (keywordSpans text n).Pairwise fun a b => a.stop ≤ b.start := by
  unfold keywordSpans
  cases hmodifiers : modifiersNode? n with
  | none => exact ⟨_, .inl rfl, nofun, .nil⟩
  | some m =>
    obtain ⟨hm, hfound⟩ := modifiersNode?_cases hmodifiers
    have hinner := (sorted.child hm).here
    have hbears : ∃ mark, (mark = .field .modifiers ∨ mark = .form .modifiers) ∧ m.bears mark := by
      rcases hfound with hfield | hform
      · exact ⟨_, .inl rfl, Node.bears_of_named (sorted.here.unnamed m hm) hfield⟩
      · exact ⟨_, .inr rfl, Node.bears_of_form (by decide) hform⟩
    obtain ⟨mark, hmark, hbears⟩ := hbears
    refine ⟨mark, hmark, fun s hs => ?_, ?_⟩
    · simp only [readModifiers, List.map_map, List.mem_map] at hs
      obtain ⟨token, htoken, rfl⟩ := hs
      have htoken := (List.mem_filter.1 htoken).1
      exact ⟨hinner.forward token htoken, m, hm, hbears, hinner.inside token htoken⟩
    · simp only [readModifiers, List.map_map]
      exact List.pairwise_map.2 (hinner.ordered.filter _)

end Parts

/-! ### Members -/

theorem pairwise_toList {α : Type} {R : α → α → Prop} (o : Option α) : o.toList.Pairwise R := by
  cases o with
  | none => exact .nil
  | some a => exact List.pairwise_singleton R a

/-- Pieces of the parts behind the modifiers follow the keywords. -/
theorem pairwise_member (text : String) {pieces : List (Mark × List Span)}
    (sorted : n.Everywhere Node.Sorted)
    (laid : memberMarks.Pairwise fun early late => Node.InOrder early late n.children)
    (lies : ∀ p ∈ pieces, ∀ s ∈ p.2, LiesIn n p.1 s)
    (marks : (pieces.map Prod.fst).Sublist partMarks)
    (rows : ∀ p ∈ pieces, p.2.Pairwise fun a b => a.stop ≤ b.start) :
    (keywordSpans text n ++ pieces.flatMap Prod.snd).Pairwise (·.start ≤ ·.start) := by
  obtain ⟨mark, hmark, hkeywords, hrow⟩ := liesIn_keywords sorted
  have hmarks : (mark :: pieces.map Prod.fst).Sublist memberMarks := by
    rcases hmark with rfl | rfl
    · exact (marks.cons _).cons_cons _
    · exact (marks.cons_cons _).cons _
  have hlies : ∀ p ∈ (mark, keywordSpans text n) :: pieces, ∀ s ∈ p.2, LiesIn n p.1 s :=
    List.forall_mem_cons.2 ⟨hkeywords, lies⟩
  exact pairwise_pieces sorted.here hlies (laid.sublist hmarks)
    (List.forall_mem_cons.2 ⟨hrow, rows⟩)

theorem readMethod?_inOrder {m : MethodDecl} (sorted : n.Everywhere Node.Sorted)
    (laid : n.LaidOut memberLayout) (read : readMethod? text n = some m) :
    m.modifiers.Spelled text ∧ m.parts.Pairwise (·.start ≤ ·.start) := by
  obtain ⟨hform, name, params, returnType, hname, -, hreturn, rfl⟩ := readMethod?_cases read
  have hlayout : memberMarks.Pairwise fun early late => Node.InOrder early late n.children := by
    rcases hform with hform | hform
    · exact laid _ (beq_iff_eq.1 hform)
    · exact laid _ (beq_iff_eq.1 hform)
  have hmarks : [Mark.field .typeParameters, .field .type, .field .name].Sublist partMarks := by
    decide
  have htype : ∀ s ∈ (returnType.map (·.span)).toList, LiesIn n (.field .type) s := by
    intro s hs
    obtain ⟨r, hr, rfl⟩ := Option.map_eq_some_iff.1 (Option.mem_toList.1 hs)
    obtain ⟨type, htype, rfl⟩ := hreturn r hr
    exact liesIn_child? sorted htype
  have hlies : ∀ p ∈ [
      (.field .typeParameters, ((n.child? .typeParameters).map Node.span).toList),
      (.field .type, (returnType.map (·.span)).toList), (.field .name, [name.span])],
      ∀ s ∈ p.2, LiesIn n p.1 s := by
    simp only [List.forall_mem_cons]
    exact ⟨fun s hs => liesIn_childSpan sorted hs, htype,
      ⟨liesIn_child? sorted hname, List.forall_mem_nil _⟩, List.forall_mem_nil _⟩
  refine ⟨readModifiers_spelled _, ?_⟩
  have hordered := pairwise_member text sorted hlayout hlies hmarks ?_
  · simpa [MethodDecl.parts, readMethodAs, keywordSpans] using hordered
  · simp only [List.forall_mem_cons]
    exact ⟨pairwise_toList _, pairwise_toList _, List.pairwise_singleton _ _,
      List.forall_mem_nil _⟩

theorem readMethod?_isConstructor {m : MethodDecl} (read : readMethod? text n = some m) :
    m.isConstructor = m.returnType.isNone := by
  obtain ⟨-, name, params, returnType, -, -, -, rfl⟩ := readMethod?_cases read
  rfl

/-- The name of a variable is a part of its declarator. -/
theorem readDeclarator?_name {d : Declarator} (read : readDeclarator? text c = some d) :
    c.hasForm .variableDeclarator ∧ ∃ name ∈ c.children, d.nameSpan = name.span := by
  unfold readDeclarator? at read
  split at read
  · rename_i hform
    obtain ⟨name, hname, rfl⟩ := Option.map_eq_some_iff.1 read
    exact ⟨hform, name, List.mem_of_find?_eq_some hname, rfl⟩
  · cases read

/-- The names of variables lie in their declarators. -/
theorem liesIn_declarators (text : String) (sorted : n.Everywhere Node.Sorted) :
    (∀ s ∈ (n.namedChildren.filterMap (readDeclarator? text)).map (·.nameSpan),
        LiesIn n (.form .variableDeclarator) s) ∧
      ((n.namedChildren.filterMap (readDeclarator? text)).map (·.nameSpan)).Pairwise
        fun a b => a.stop ≤ b.start := by
  have hinside : ∀ c ∈ n.namedChildren, ∀ d, readDeclarator? text c = some d →
      c.span.contains d.nameSpan := by
    intro c hc d hd
    obtain ⟨-, name, hname, hspan⟩ := readDeclarator?_name hd
    rw [hspan]
    exact (sorted.namedChild hc).here.inside name hname
  constructor
  · intro s hs
    obtain ⟨d, hd, rfl⟩ := List.mem_map.1 hs
    obtain ⟨c, hc, hread⟩ := List.mem_filterMap.1 hd
    obtain ⟨hform, name, hname, hspan⟩ := readDeclarator?_name hread
    refine ⟨?_, c, (List.mem_filter.1 hc).1, Node.bears_of_form (by decide) hform,
      hinside c hc d hread⟩
    rw [hspan]
    exact (sorted.namedChild hc).here.forward name hname
  · rw [List.pairwise_map, List.pairwise_filterMap]
    refine (sorted.here.ordered.filter Node.isNamed).imp_of_mem fun hc hc' before d hd d' hd' => ?_
    have hstop := (Span.contains_iff.1 (hinside _ hc d hd)).2
    have hstart := (Span.contains_iff.1 (hinside _ hc' d' hd')).1
    omega

theorem readField?_inOrder {f : FieldDecl} (sorted : n.Everywhere Node.Sorted)
    (laid : n.LaidOut memberLayout) (hform : isFieldNode n = true)
    (read : readField? text n = some f) :
    f.modifiers.Spelled text ∧ f.parts.Pairwise (·.start ≤ ·.start) := by
  simp only [readField?, Option.bind_eq_bind, Option.bind_eq_some_iff] at read
  obtain ⟨type, htype, eq⟩ := read
  obtain rfl := Option.some.inj eq
  have hlayout : memberMarks.Pairwise fun early late => Node.InOrder early late n.children := by
    rcases Bool.or_eq_true_iff.1 hform with hform | hform
    · exact laid _ (beq_iff_eq.1 hform)
    · exact laid _ (beq_iff_eq.1 hform)
  have hmarks : [Mark.field .type, .form .variableDeclarator].Sublist partMarks := by decide
  obtain ⟨hnames, hnameRow⟩ := liesIn_declarators text sorted
  have hlies : ∀ p ∈ [(.field .type, [type.span]), (.form .variableDeclarator,
      (n.namedChildren.filterMap (readDeclarator? text)).map (·.nameSpan))],
      ∀ s ∈ p.2, LiesIn n p.1 s := by
    simp only [List.forall_mem_cons]
    exact ⟨⟨liesIn_child? sorted htype, List.forall_mem_nil _⟩, hnames, List.forall_mem_nil _⟩
  refine ⟨readModifiers_spelled _, ?_⟩
  have hordered := pairwise_member text sorted hlayout hlies hmarks ?_
  · simpa [FieldDecl.parts, readTypeRef, keywordSpans] using hordered
  · simp only [List.forall_mem_cons]
    exact ⟨List.pairwise_singleton _ _, hnameRow, List.forall_mem_nil _⟩

/-! ### Types -/

theorem readTypeDecl?_inOrder {t : TypeDecl} (sorted : n.Everywhere Node.Sorted)
    (laid : n.Everywhere (Node.LaidOut memberLayout)) (read : readTypeDecl? text n = some t) :
    t.InOrder text := by
  simp only [readTypeDecl?, Option.bind_eq_bind, Option.bind_eq_some_iff] at read
  obtain ⟨kind, -, name, -, body, hbody, eq⟩ := read
  obtain rfl := Option.some.inj eq
  have bodySorted := sorted.child? hbody
  have bodyLaid := laid.child? hbody
  refine ⟨fun f hf => ?_, fun m hm => ?_, fun m hm => ?_⟩
  · obtain ⟨c, hc, hread⟩ := List.mem_filterMap.1 hf
    obtain ⟨hc, hform⟩ := List.mem_filter.1 hc
    exact readField?_inOrder (bodySorted.member hc) (bodyLaid.member hc).here hform hread
  · obtain ⟨c, hc, hread⟩ := List.mem_filterMap.1 hm
    exact readMethod?_inOrder (bodySorted.member hc) (bodyLaid.member hc).here hread
  · obtain ⟨c, -, hread⟩ := List.mem_filterMap.1 hm
    exact readMethod?_isConstructor hread

end Java

namespace CompilationUnit

variable {unit : CompilationUnit} {t : TypeDecl}

theorem bindTypeDecl_inOrder {text : String} (h : t.InOrder text) :
    (unit.bindTypeDecl t).InOrder text := by
  refine ⟨fun f hf => ?_, fun m hm => ?_, fun m hm => ?_⟩
  · obtain ⟨f, mem, rfl⟩ := List.mem_map.1 hf
    exact h.fields f mem
  · obtain ⟨m, mem, rfl⟩ := List.mem_map.1 hm
    have hparts : (unit.bindMethod m).parts = m.parts := by
      simp [MethodDecl.parts, bindMethod, bindModifiers, bindType, Function.comp_def]
    rw [hparts]
    exact h.methods m mem
  · obtain ⟨m, mem, rfl⟩ := List.mem_map.1 hm
    rw [show (unit.bindMethod m).returnType = m.returnType.map unit.bindType from rfl,
      Option.isNone_map]
    exact h.constructors m mem

/-- If the members in a tree are in source order, they are so in the unit. -/
theorem inOrder_of_tree {uri text : String} {root : Node} (sorted : root.Everywhere Node.Sorted)
    (laid : root.Everywhere (Node.LaidOut memberLayout)) (ht : t ∈ (ofTree uri text root).types) :
    t.InOrder text := by
  obtain ⟨t, mem, rfl⟩ := List.mem_map.1 ht
  obtain ⟨n, hn, mem⟩ := List.mem_flatMap.1 mem
  obtain ⟨m, hm, hread⟩ := mem_readTypes n mem
  exact bindTypeDecl_inOrder (readTypeDecl?_inOrder ((sorted.namedChild hn).inner hm)
    ((laid.namedChild hn).inner hm) hread)

end CompilationUnit

end JakartaCheck
