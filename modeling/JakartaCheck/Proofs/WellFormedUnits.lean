import JakartaCheck.Proofs.BoundAnnotations
import JakartaCheck.Proofs.FusedNeighbours
import JakartaCheck.Proofs.MemberOrder
import JakartaCheck.Proofs.NodeEdges

/-!
# Units that are read are well-formed

The spans of every unit that is read from a text without syntax errors fit the text and each other
(`CompilationUnit.wellFormed_of_lower?`), so that what is shown of well-formed units holds of all such
sources. What is known of the nodes in the tree of a source is put together first (`Node.Parsed`), as
laws of a parser that the grammar keeps (`grammar_lawful`); then each reader is followed, with the
binding of what it read.
-/

namespace JakartaCheck

open Java

namespace Java

variable {text : String} {n c : Node}

/-! ### Nodes in the tree of a source -/

/-- Modifiers stand in front of parameters. -/
def headerLayout : Form → List Mark
  | .methodDeclaration | .constructorDeclaration => [.form .modifiers, .field .parameters]
  | _ => []

theorem production_headers (s : Symbol) :
    (production s).builds (Phrase.fitsLayout production 8 headerLayout) = true := by
  induction s using forall_symbol with
  | listed s mem =>
    revert s
    decide +kernel
  | beyond level arrows ge =>
    rw [production_binary ge]
    rfl

/-- What is known of each node in the tree of a source. -/
structure Node.Parsed (text : String) (n : Node) : Prop where
  shaped : n.Shaped text
  seamed : n.Seamed text
  edged : n.Edged text
  laid : n.LaidOut headerLayout

/-- What is asked of a parser for its units to be well-formed. -/
structure Parser.Lawful (parser : Parser) : Prop extends parser.KeepsSeams where
  /-- Declarations and their parts begin and end with the tokens of the grammar. -/
  edged : ∀ {text root}, parser text = some ⟨root, false⟩ →
    ∀ n ∈ root.children, n.Everywhere (Node.Edged text)
  /-- Modifiers stand in front of parameters. -/
  laid : ∀ {text root}, parser text = some ⟨root, false⟩ →
    root.Everywhere (Node.LaidOut headerLayout)

theorem grammar_lawful : grammar.Lawful where
  toKeepsSeams := grammar_keepsSeams
  edged h := edged_of_parse (grammar_eq_some_iff.1 h).1
  laid h := laidOut_of_builds rfl production_headers (grammar_eq_some_iff.1 h).1

theorem Parser.Lawful.parsed {parser : Parser} {root : Node} (lawful : parser.Lawful)
    (h : parser text = some ⟨root, false⟩) :
    ∀ n ∈ root.children, n.Everywhere (Node.Parsed text) := fun n hn m hm =>
  ⟨(lawful.shaped h).child hn m hm, lawful.seamed h n hn m hm, lawful.edged h n hn m hm,
    (lawful.laid h).child hn m hm⟩

theorem Node.Everywhere.shaped (h : n.Everywhere (Node.Parsed text)) :
    n.Everywhere (Node.Shaped text) :=
  h.imp fun _ here => here.shaped

theorem Node.Everywhere.concrete (h : n.Everywhere (Node.Parsed text)) :
    n.Everywhere (Node.Concrete text) :=
  h.imp fun _ here => here.shaped.toConcrete

/-! ### Annotations -/

theorem readArgument?_span {a : Argument} (read : readArgument? text n = some a) :
    a.span = n.span := by
  unfold readArgument? at read
  split at read
  · cases read
  split at read
  · simp only [Option.bind_eq_bind, Option.bind_eq_some_iff] at read
    obtain ⟨key, -, value, -, eq⟩ := read
    obtain rfl := Option.some.inj eq
    rfl
  · obtain rfl := Option.some.inj read
    rfl

/-- The name of an annotation, as it is written, ends in a word. -/
theorem Node.Parsed.written {name : Node} (h : n.Parsed text)
    (form : n.kind.isOneOf annotationForms) (found : n.child? .name = some name)
    (bare : name.Bare) : IsNamePiece (nodeText text name).toList ∧
      ∃ last, (nodeText text name).toList.getLast? = some last ∧ continuesWord last = true := by
  have mem := List.mem_of_find?_eq_some found
  have field := field_of_child? found
  obtain ⟨⟨piece, cut, named⟩, word⟩ :=
    h.edged.named form name mem (Node.not_isComment_of_bears (Node.bears_of_field bare field)) field
  have whole : nodeText text name = piece := by rw [nodeText, cut, Option.getD_some]
  rw [whole]
  refine ⟨named, ?_⟩
  have some : piece.toList ≠ [] := by
    intro empty
    obtain ⟨front, back, -, -, stop⟩ := Text.slice?_eq_some_iff.1 cut
    have fits := (h.shaped.fits name mem).nonempty
    rw [Text.length_eq, empty] at stop
    simp at stop
    omega
  obtain ⟨last, ends⟩ := Option.isSome_iff_exists.1 (List.getLast?_isSome.2 some)
  rw [Text.charBefore?_of_slice? cut ends] at word
  exact ⟨last, ends, by simpa using word⟩

section Readers

variable {unit : CompilationUnit} {place : Span → Bool}

theorem readAnnotationUse?_wellFormed {a : AnnotationUse} (h : n.Everywhere (Node.Parsed text))
    (fits : n.span.Fits text) (use : n.kind.isOneOf annotationForms)
    (read : readAnnotationUse? text n = some a) :
    ({ a with qualifiedName := unit.resolve? a.name } : AnnotationUse).WellFormed text := by
  simp only [readAnnotationUse?, Option.bind_eq_bind, Option.bind_eq_some_iff] at read
  obtain ⟨name, hname, eq⟩ := read
  obtain rfl := Option.some.inj eq
  have mem := List.mem_of_find?_eq_some hname
  constructor
  case solid =>
    obtain ⟨form, hform, kind⟩ := Kind.isOneOf_iff.1 use
    have plain : n.kind.isOneOf plainForms :=
      Kind.isOneOf_iff.2 ⟨form, List.mem_cons_of_mem _ hform, kind⟩
    exact h.here.edged.solid plain (List.ne_nil_of_mem mem) fits
  case name_fits => exact h.here.shaped.fits name mem
  case name_inside => exact h.here.shaped.inside name mem
  case args_open =>
    intro s hs
    obtain ⟨list, found, rfl⟩ := Option.map_eq_some_iff.1 (Option.mem_toList.1 hs)
    rcases hasForm_of_isAnnotation use with arguments | marker
    · have field := field_of_child? found
      have bears := Node.bears_of_field (h.child? found).here.shaped.bare field
      exact h.here.edged.opened _ List.mem_cons_self (beq_iff_eq.1 arguments) list
        (List.mem_of_find?_eq_some found) (Node.not_isComment_of_bears bears) field
    · cases (child?_arguments_of_marker h.here.seamed h.shaped marker).symm.trans found
  case args_fit =>
    intro arg harg
    cases found : n.child? .arguments with
    | none =>
      rw [found] at harg
      cases harg
    | some list =>
      rw [found] at harg
      obtain ⟨c, hc, read⟩ := List.mem_filterMap.1 harg
      rw [readArgument?_span read]
      exact (h.child? found).here.shaped.fits c (List.mem_filter.1 hc).1
  case bound =>
    intro q hq dotted
    obtain ⟨piece, last, ends, word⟩ := h.here.written use hname (h.child mem).here.shaped.bare
    exact CompilationUnit.lastName_bound piece ends word (Option.mem_toList.1 hq) dotted

/-! ### Modifiers -/

theorem modifiers_wellFormed (inward : Inward place) (h : n.Everywhere (Node.Parsed text))
    (declares : n.kind.isOneOf declarationForms)
    (placed : ∀ m ∈ n.children, m.hasForm .modifiers → place m.span) :
    (unit.bindModifiers (readModifiers text (modifiersNode? n))).WellFormed text place := by
  cases found : modifiersNode? n with
  | none => exact ⟨nofun, nofun, nofun, .nil⟩
  | some m =>
    obtain ⟨mem, form⟩ := modifiersNode?_form h.here.seamed h.shaped declares found
    have inner := h.child mem
    have fits := inner.here.shaped.fits
    constructor
    case span_fits =>
      intro s hs
      obtain rfl := Option.some.inj (Option.mem_toList.1 hs)
      exact h.here.shaped.fits m mem
    case keywords =>
      intro k hk
      obtain ⟨token, hc, rfl⟩ := List.mem_map.1 hk
      obtain ⟨hc, unnamed⟩ := List.mem_filter.1 hc
      have bare : token.kind.isBare = true := by
        cases kind : token.kind with
        | token s => rfl
        | form f => simp [Node.isNamed, kind] at unnamed
      exact inner.here.edged.keywords form token hc bare (fits token hc)
    case annotations =>
      intro a ha
      obtain ⟨use, huse, rfl⟩ := List.mem_map.1 ha
      obtain ⟨c, hc, isUse, read⟩ := mem_annotations.1 huse
      refine ⟨readAnnotationUse?_wellFormed (inner.child hc) (fits c hc) isUse read, ?_⟩
      rw [(readAnnotationUse?_spans read).1]
      exact inward _ _ (placed m mem form) (inner.here.shaped.inside c hc)
    case ordered =>
      refine List.pairwise_map.2 (List.pairwise_filterMap.2 ?_)
      refine (inner.here.shaped.ordered.filter isAnnotationNode).imp ?_
      intro c d before a readA b readB
      dsimp only
      rw [(readAnnotationUse?_spans readA).1, (readAnnotationUse?_spans readB).1]
      exact before

/-- Modifiers stand inside their declaration. -/
theorem modifiers_wellFormed_inside (h : n.Everywhere (Node.Parsed text))
    (declares : n.kind.isOneOf declarationForms) :
    (unit.bindModifiers (readModifiers text (modifiersNode? n))).WellFormed text n.span.contains :=
  modifiers_wellFormed (inward_contains _) h declares fun m mem _ => h.here.shaped.inside m mem

/-! ### Members -/

theorem childSpan_fits {f : Field} (h : n.Everywhere (Node.Concrete text)) :
    ∀ s ∈ ((n.child? f).map Node.span).toList, s.Fits text := by
  intro s hs
  obtain ⟨c, hc, rfl⟩ := Option.map_eq_some_iff.1 (Option.mem_toList.1 hs)
  exact (placed_child? h hc).fits

/-- The name of a parameter is a part of it or of a declarator. -/
theorem readParameter?_name {p : Parameter} (h : n.Everywhere (Node.Parsed text))
    (read : readParameter? text n = some p) : p.nameSpan.Fits text := by
  unfold readParameter? at read
  split at read
  · simp only [Option.bind_eq_bind, Option.bind_eq_some_iff] at read
    obtain ⟨type, -, name, hname, eq⟩ := read
    obtain rfl := Option.some.inj eq
    exact (placed_child? h.concrete hname).fits
  split at read
  · simp only [Option.bind_eq_bind, Option.bind_eq_some_iff] at read
    obtain ⟨type, -, declarator, found, name, hname, eq⟩ := read
    obtain rfl := Option.some.inj eq
    exact (placed_child? (h.childOf? found).concrete hname).fits
  · cases read

theorem readParameter?_wellFormed {p : Parameter} (h : n.Everywhere (Node.Parsed text))
    (fits : n.span.Fits text) (read : readParameter? text n = some p) :
    (unit.bindParameter p).WellFormed text := by
  obtain ⟨faithful, span⟩ := readParameter?_faithful h.concrete (Node.mem_preorder_self n) read
  obtain ⟨declares, modifiers⟩ := readParameter?_modifiers read
  constructor
  case span_fits => exact span ▸ fits
  case name_fits => exact (readParameter?_name h read : p.nameSpan.Fits text)
  case name_inside => exact faithful.name_inside
  case modifiers =>
    have wellFormed : (unit.bindModifiers (readModifiers text (modifiersNode? n))).WellFormed text
        n.span.contains := modifiers_wellFormed_inside h declares
    rwa [← modifiers, ← span] at wellFormed

theorem readField?_wellFormed {f : FieldDecl} (h : n.Everywhere (Node.Parsed text))
    (fits : n.span.Fits text) (form : isFieldNode n = true) (read : readField? text n = some f) :
    (unit.bindField f).WellFormed text := by
  simp only [readField?, Option.bind_eq_bind, Option.bind_eq_some_iff] at read
  obtain ⟨type, htype, eq⟩ := read
  obtain rfl := Option.some.inj eq
  constructor
  case span_fits => exact fits
  case type_fits => exact (placed_child? h.concrete htype).fits
  case names =>
    intro d hd
    obtain ⟨c, hc, read⟩ := List.mem_filterMap.1 hd
    obtain ⟨-, name, hname, span⟩ := readDeclarator?_name read
    have inner := (h.namedChild hc).here.shaped
    rw [span]
    exact ⟨inner.fits name hname, Span.contains_trans
      (h.here.shaped.inside c (List.mem_filter.1 hc).1) (inner.inside name hname)⟩
  case modifiers => exact modifiers_wellFormed_inside h (isOneOf_of_isField form)

/-- The modifiers of a method stand outside its parameters. -/
theorem modifiers_in_header {m params : Node} (h : n.Everywhere (Node.Parsed text))
    (form : n.hasForm .methodDeclaration = true ∨ n.hasForm .constructorDeclaration = true)
    (hparams : n.child? .parameters = some params) (mem : m ∈ n.children)
    (modifiers : m.hasForm .modifiers) : Placed text (inHeader n.span params.span) m := by
  refine placed_header h.concrete (List.mem_of_find?_eq_some hparams) mem ?_
  rintro rfl
  have ordered : Node.InOrder (.form .modifiers) (.field .parameters) n.children := by
    rcases form with form | form
    · exact List.pairwise_pair.1 (h.here.laid _ (beq_iff_eq.1 form))
    · exact List.pairwise_pair.1 (h.here.laid _ (beq_iff_eq.1 form))
  have before := ordered.stop_le_start h.here.shaped.ordered mem
    (Node.bears_of_form (by decide) modifiers) mem
    (Node.bears_of_field (h.child mem).here.shaped.bare (field_of_child? hparams))
  exact absurd (h.here.shaped.fits m mem).nonempty (Nat.not_lt.2 before)

theorem readMethod?_wellFormed {m : MethodDecl} (h : n.Everywhere (Node.Parsed text))
    (fits : n.span.Fits text) (read : readMethod? text n = some m) :
    (unit.bindMethod m).WellFormed text := by
  have faithful := readMethod?_faithful h.concrete (Node.mem_preorder_self n) read
  have constructs := readMethod?_isConstructor read
  obtain ⟨form, name, params, returnType, hname, hparams, returns, rfl⟩ := readMethod?_cases read
  have inside := List.mem_of_find?_eq_some hparams
  have inner := h.child inside
  constructor
  case span_fits => exact fits
  case name_fits => exact (placed_child? h.concrete hname).fits
  case name_inside =>
    have apart : name ≠ params :=
      ne_of_field (field_of_child? hname) (field_of_child? hparams) (by decide)
    exact (placed_header h.concrete inside (List.mem_of_find?_eq_some hname) apart).placed
  case type_params_fit => exact childSpan_fits h.concrete
  case return_fits =>
    intro r hr
    obtain ⟨written, here, rfl⟩ := Option.map_eq_some_iff.1 (Option.mem_toList.1 hr)
    obtain ⟨type, htype, rfl⟩ := returns written here
    exact (placed_child? h.concrete htype).fits
  case returns =>
    intro method
    cases returnType with
    | none => cases constructs.symm.trans method
    | some r => rfl
  case params_fit => exact h.here.shaped.fits params inside
  case params_inside => exact faithful.params_inside
  case params =>
    intro p hp
    obtain ⟨param, mem, rfl⟩ := List.mem_map.1 hp
    obtain ⟨c, hc, read⟩ := List.mem_filterMap.1 mem
    have placed := placed_namedChild inner.concrete hc
    exact ⟨readParameter?_wellFormed (inner.namedChild hc) placed.fits read,
      (faithful.params param mem).2⟩
  case params_disjoint =>
    refine List.pairwise_map.2 (List.pairwise_filterMap.2 ?_)
    refine (inner.here.shaped.ordered.filter Node.isNamed).imp_of_mem ?_
    intro c d hc hd before p readP q readQ
    have spanP := (readParameter?_faithful (inner.namedChild hc).concrete
      (Node.mem_preorder_self c) readP).2
    have spanQ := (readParameter?_faithful (inner.namedChild hd).concrete
      (Node.mem_preorder_self d) readQ).2
    refine .inl ?_
    rw [← spanP, ← spanQ] at before
    exact before
  case modifiers =>
    exact modifiers_wellFormed (inward_header n.span params.span) h (isOneOf_of_isMethod form)
      fun m mem modifiers => (modifiers_in_header h form hparams mem modifiers).placed

/-! ### Types -/

theorem superclass_fits (h : n.Everywhere (Node.Parsed text)) :
    ∀ r ∈ ((n.child? .superclass).bind fun clause => clause.namedChildren.head?).map
      (readTypeRef text), r.span.Fits text := by
  intro r hr
  obtain ⟨type, found, rfl⟩ := Option.map_eq_some_iff.1 hr
  obtain ⟨clause, hclause, first⟩ := Option.bind_eq_some_iff.1 found
  exact (placed_namedChild (h.child? hclause).concrete (List.mem_of_head? first)).fits

theorem interfaces_fit {kind : TypeKind} (h : n.Everywhere (Node.Parsed text)) :
    ∀ r ∈ (((interfaceList? kind n).bind fun clause => clause.childOf? .typeList).map
      (readTypeRefs text)).getD [], r.span.Fits text := by
  intro r hr
  cases hlist : (interfaceList? kind n).bind fun clause => clause.childOf? .typeList with
  | none =>
    rw [hlist] at hr
    cases hr
  | some list =>
    rw [hlist] at hr
    obtain ⟨clause, hclause, found⟩ := Option.bind_eq_some_iff.1 hlist
    have inner := (h.child (interfaceList?_cases hclause).1).childOf? found
    obtain ⟨c, hc, rfl⟩ := List.mem_map.1 hr
    exact (placed_namedChild inner.concrete (List.mem_filter.1 hc).1).fits

theorem readTypeDecl?_wellFormed {t : TypeDecl} (h : n.Everywhere (Node.Parsed text))
    (fits : n.span.Fits text) (read : readTypeDecl? text n = some t) :
    (unit.bindTypeDecl t).WellFormed text := by
  have faithful := readTypeDecl?_faithful h.concrete (Node.mem_preorder_self n) read
  simp only [readTypeDecl?, Option.bind_eq_bind, Option.bind_eq_some_iff] at read
  obtain ⟨kind, hkind, name, hname, body, hbody, eq⟩ := read
  obtain ⟨form, isType, formed⟩ := Imports.typeForm_of_typeKind? hkind
  have declares := isOneOf_of_typeKind? (Option.isSome_iff_exists.2 ⟨kind, hkind⟩)
  obtain rfl := Option.some.inj eq
  have inside := List.mem_of_find?_eq_some hbody
  have field := field_of_child? hbody
  have inner := h.child inside
  have placed := (members_placed body inner.concrete).2
  constructor
  case span_fits => exact fits
  case name_fits => exact (placed_child? h.concrete hname).fits
  case name_inside => exact faithful.name_placed
  case body_fits => exact h.here.shaped.fits body inside
  case body_inside => exact faithful.body_inside
  case body_open =>
    have opening : (form, Field.body, "\x7b") ∈ openings :=
      List.mem_cons_of_mem _ (List.mem_map_of_mem isType)
    have bears := Node.bears_of_field inner.here.shaped.bare field
    have first : "\x7b".toList.head? = some '\x7b' := by decide
    rw [← first]
    exact h.here.edged.opened _ opening formed body inside (Node.not_isComment_of_bears bears) field
  case type_params_fit => exact childSpan_fits h.concrete
  case supertypes_fit =>
    rw [CompilationUnit.supertypes_bind]
    intro r hr
    obtain ⟨written, mem, rfl⟩ := List.mem_map.1 hr
    rcases List.mem_append.1 mem with mem | mem
    · exact superclass_fits h written (Option.mem_toList.1 mem)
    · exact interfaces_fit h written mem
  case modifiers =>
    refine modifiers_wellFormed (inward_header n.span body.span) h declares fun m mem form => ?_
    have clause : m ≠ body := not_clause inner.concrete field (by decide) form
    exact (placed_header h.concrete inside mem clause).placed
  case fields =>
    intro f hf
    obtain ⟨field, mem, rfl⟩ := List.mem_map.1 hf
    obtain ⟨c, hc, read⟩ := List.mem_filterMap.1 mem
    obtain ⟨hc, isField⟩ := List.mem_filter.1 hc
    exact readField?_wellFormed (inner.member hc) (placed c hc).fits isField read
  case methods =>
    intro m hm
    obtain ⟨method, mem, rfl⟩ := List.mem_map.1 hm
    obtain ⟨c, hc, read⟩ := List.mem_filterMap.1 mem
    exact readMethod?_wellFormed (inner.member hc) (placed c hc).fits read
  case members_inside =>
    rw [CompilationUnit.memberSpans_bind]
    exact faithful.members_inside
  case members_disjoint =>
    rw [CompilationUnit.memberSpans_bind]
    exact faithful.members_disjoint

end Readers

end Java

namespace CompilationUnit

variable {parser : Parser} {unit : CompilationUnit} {uri text : String}

/-! ### Units -/

/-- Imports start and end with a word or a mark. -/
theorem readImport?_solid {n : Node} {i : ImportDecl} (h : n.Parsed text) (fits : n.span.Fits text)
    (read : readImport? text n = some i) : i.span.Solid text := by
  obtain ⟨kind, span⟩ := Imports.readImport?_place read
  unfold readImport? at read
  split at read
  · obtain ⟨path, last, -⟩ := Option.map_eq_some_iff.1 read
    have mem := (List.mem_filter.1 (List.mem_of_getLast? last)).1
    rw [span]
    exact h.edged.solid (by rw [kind]; rfl) (List.ne_nil_of_mem mem) fits
  · cases read

section Lowered

variable (lawful : parser.Lawful) (accepted : parser.accepts text)
  (lowered : lower? parser uri text = some unit)

include lawful accepted lowered

theorem wellFormed_types_of_lower? : ∀ t ∈ unit.types, t.WellFormed text := by
  obtain ⟨root, parsed, rfl⟩ := exists_of_accepts accepted lowered
  have concrete := (lawful.shaped parsed).imp fun _ here => here.toConcrete
  intro t ht
  obtain ⟨t, mem, rfl⟩ := List.mem_map.1 ht
  obtain ⟨n, hn, m, declares, read⟩ := exists_declares_of_mem concrete mem
  have placed := declares.placed (inward_contains _) (placed_child concrete hn).self
  have nodes := (lawful.parsed parsed n hn).inner declares.mem_preorder
  exact readTypeDecl?_wellFormed nodes placed.fits read

/-- Types lie apart or in each other, and apart from the members of a type around them. -/
theorem typesNested_of_lower? :
    unit.types.Pairwise TypeDecl.Nested ∧
      ∀ t ∈ unit.types, ∀ u ∈ unit.types, t.bodySpan.contains u.span →
        ∀ s ∈ t.memberSpans, s.Disjoint u.span := by
  obtain ⟨root, parsed, rfl⟩ := exists_of_accepts accepted lowered
  have concrete := (lawful.shaped parsed).imp fun _ here => here.toConcrete
  have mirrors := ofTree_mirrors uri concrete
  refine ⟨mirrors.order.imp fun {t u} order => ?_, mirrors.members⟩
  rcases order with before | inside
  · exact .inl (.inl before)
  · exact .inr (.inl inside)

/-- The declarations of every unit that is read from a text lie apart or in each other. -/
theorem arranged_of_lower? : unit.Arranged := by
  obtain ⟨nested, apart⟩ := typesNested_of_lower? lawful accepted lowered
  exact arranged_of_types (wellFormed_types_of_lower? lawful accepted lowered) nested apart

theorem imports_of_lower? :
    ∀ i ∈ unit.imports, i.span.Solid text ∧ ∀ t ∈ unit.types, i.span.Disjoint t.span := by
  obtain ⟨root, parsed, rfl⟩ := exists_of_accepts accepted lowered
  have shaped := lawful.shaped parsed
  have concrete := shaped.imp fun _ here => here.toConcrete
  intro i hi
  obtain ⟨n, hn, read⟩ := List.mem_filterMap.1 hi
  have hn := (List.mem_filter.1 hn).1
  have node := (lawful.parsed parsed n hn).here
  refine ⟨readImport?_solid node (shaped.here.fits n hn) read, fun t ht => ?_⟩
  obtain ⟨t, mem, rfl⟩ := List.mem_map.1 ht
  obtain ⟨d, hd, m, declares, readType⟩ := exists_declares_of_mem concrete mem
  obtain ⟨kind, span⟩ := Imports.readImport?_place read
  have ne : n ≠ d := by
    rintro rfl
    have type := declares.isType
    rw [typeKind?, kind] at type
    cases type
  have within : d.span.contains t.span := by
    rw [(stands_of_readTypeDecl? readType).span]
    exact (declares.placed (inward_contains _) (placed_child concrete hd).self).placed
  rw [span]
  exact (Row.disjoint shaped.here.ordered hn hd ne).mono (Span.contains_self _) within

/-- Units that are read from texts of less than four gigabytes are well-formed. -/
theorem wellFormed_of_lower? (small : Text.length text < ByteRange.modulus) : unit.WellFormed := by
  have same : unit.text = text := by
    obtain ⟨tree, -, rfl⟩ := lower?_eq_some_iff.1 lowered
    rfl
  subst same
  obtain ⟨nested, apart⟩ := typesNested_of_lower? lawful accepted lowered
  exact ⟨small, imports_of_lower? lawful accepted lowered,
    wellFormed_types_of_lower? lawful accepted lowered, nested, apart⟩

end Lowered

end CompilationUnit

end JakartaCheck
