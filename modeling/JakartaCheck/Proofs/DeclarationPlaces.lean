import JakartaCheck.Proofs.TreeShape

/-!
# Declarations at their places

What is read out of a concrete syntax tree stands in the text where its span says (`Span.Spells`),
and the spans lie in each other as the nodes of the tree do: the parts of an annotation inside it,
the parameters inside their parentheses, the header of a type outside its body, the members inside
it. For each kind of declaration this is a predicate of its own, called `Faithful`.
-/

namespace JakartaCheck

open Java

variable {text : String}

/-! ### Pieces of the text -/

/-- The text at a span. -/
def Span.Spells (text : String) (s : Span) (piece : String) : Prop :=
  Text.slice? text s.start s.stop = some piece

/-- The text at a span, without its white space. -/
def Span.SpellsClean (text : String) (s : Span) (piece : String) : Prop :=
  ∃ written, s.Spells text written ∧ piece = TypeText.clean written

theorem Java.nodeText_spells {n : Node} (h : n.span.Fits text) :
    n.span.Spells text (nodeText text n) := by
  have cut : (Text.slice? text n.span.start n.span.stop).isSome := Text.isSome_slice?_iff.2
    ⟨Nat.le_of_lt h.nonempty, Text.isBoundary_iff.1 h.start_cut, Text.isBoundary_iff.1 h.stop_cut⟩
  obtain ⟨piece, eq⟩ := Option.isSome_iff_exists.1 cut
  rw [Span.Spells, nodeText, eq, Option.getD_some]

/-! ### Declarations that say what stands in the text -/

/-- The value is what stands at its place. -/
structure Argument.Faithful (text : String) (a : Argument) : Prop where
  value : a.valueSpan.Spells text a.valueText
  value_inside : a.span.contains a.valueSpan

/-- Name and arguments stand inside the annotation, the arguments in their parentheses. -/
structure AnnotationUse.Faithful (text : String) (a : AnnotationUse) : Prop where
  name : a.nameSpan.SpellsClean text a.name
  name_inside : a.span.contains a.nameSpan
  args_inside : ∀ s ∈ a.argsSpan, a.span.contains s
  args : ∀ arg ∈ a.args, arg.Faithful text ∧ ∃ s ∈ a.argsSpan, s.contains arg.span

/-- Keywords and annotations stand inside the modifiers, and these at a `place` of their
declaration. -/
structure Modifiers.Faithful (text : String) (place : Span → Bool) (m : Modifiers) : Prop where
  placed : ∀ s ∈ m.span, place s
  keywords : ∀ k ∈ m.keywords, k.span.Spells text k.text ∧ ∃ s ∈ m.span, s.contains k.span
  annotations : ∀ a ∈ m.annotations, a.Faithful text ∧ ∃ s ∈ m.span, s.contains a.span

/-- The type is what stands at its place, which is a `place` of the declaration. -/
structure TypeRef.Faithful (text : String) (place : Span → Bool) (t : TypeRef) : Prop where
  written : t.span.SpellsClean text t.text
  placed : place t.span

structure FieldDecl.Faithful (text : String) (f : FieldDecl) : Prop where
  modifiers : f.modifiers.Faithful text f.span.contains
  type : f.type.Faithful text f.span.contains
  names : ∀ d ∈ f.declarators, d.nameSpan.Spells text d.name ∧ f.span.contains d.nameSpan

/-- The type of a parameter ends in three points if the parameter takes any number of values, and
only then. -/
structure Parameter.Faithful (text : String) (root : Node) (p : Parameter) : Prop where
  name : p.nameSpan.Spells text p.name
  name_inside : p.span.contains p.nameSpan
  modifiers : p.modifiers.Faithful text p.span.contains
  type_inside : p.span.contains p.type.span
  type : ∃ n ∈ root.preorder, n.span = p.span ∧
    ((n.hasForm .formalParameter ∧ p.type.span.SpellsClean text p.type.text) ∨
      (n.hasForm .spreadParameter ∧
        ∃ written, p.type.span.SpellsClean text written ∧ p.type.text = written ++ "..."))

structure MethodDecl.Faithful (text : String) (root : Node) (m : MethodDecl) : Prop where
  name : m.nameSpan.Spells text m.name
  name_inside : m.span.contains m.nameSpan
  modifiers : m.modifiers.Faithful text m.span.contains
  type_params : ∀ s ∈ m.typeParamsSpan, m.span.contains s
  returns : ∀ r ∈ m.returnType, r.Faithful text m.span.contains
  throws : ∀ r ∈ m.throws, r.Faithful text m.span.contains
  params_inside : m.span.contains m.paramsSpan
  params : ∀ p ∈ m.params, p.Faithful text root ∧ m.paramsSpan.contains p.span

/-- The header of a type stands outside its body, the members inside. -/
structure TypeDecl.Faithful (text : String) (root : Node) (t : TypeDecl) : Prop where
  name : t.nameSpan.Spells text t.name
  name_placed : t.isHeader t.nameSpan
  modifiers : t.modifiers.Faithful text t.isHeader
  type_params : ∀ s ∈ t.typeParamsSpan, t.isHeader s
  supertypes : ∀ r ∈ t.supertypes, r.Faithful text t.isHeader
  body_inside : t.span.contains t.bodySpan
  fields : ∀ f ∈ t.fields, f.Faithful text
  methods : ∀ m ∈ t.methods, m.Faithful text root
  members_inside : ∀ s ∈ t.memberSpans, t.bodySpan.contains s
  members_disjoint : t.memberSpans.Pairwise Span.Disjoint

namespace Java

variable {n c : Node}

/-! ### Nodes of a concrete tree -/

/-- The node cuts a piece out of the text, at a `place`. -/
structure Placed (text : String) (place : Span → Bool) (n : Node) : Prop where
  fits : n.span.Fits text
  placed : place n.span
  concrete : n.Everywhere (Node.Concrete text)

theorem placed_child (h : n.Everywhere (Node.Concrete text)) (hc : c ∈ n.children) :
    Placed text n.span.contains c :=
  ⟨h.here.fits c hc, h.here.inside c hc, h.child hc⟩

theorem placed_child? {f : Field} (h : n.Everywhere (Node.Concrete text))
    (hc : n.child? f = some c) : Placed text n.span.contains c :=
  placed_child h (List.mem_of_find?_eq_some hc)

theorem placed_namedChild (h : n.Everywhere (Node.Concrete text)) (hc : c ∈ n.namedChildren) :
    Placed text n.span.contains c :=
  placed_child h (List.mem_filter.1 hc).1

theorem placed_childOf? {f : Form} (h : n.Everywhere (Node.Concrete text))
    (hc : n.childOf? f = some c) : Placed text n.span.contains c :=
  placed_namedChild h (List.mem_of_find?_eq_some hc)

/-- What lies inside a node at a place is at this place. -/
def Inward (place : Span → Bool) : Prop := ∀ s t : Span, place s → s.contains t → place t

theorem inward_contains (s : Span) : Inward s.contains := fun _ _ => Span.contains_trans

theorem Placed.inner {place : Span → Bool} (inward : Inward place) (h : Placed text place n)
    (hc : Placed text n.span.contains c) : Placed text place c :=
  ⟨hc.fits, inward _ _ h.placed hc.placed, hc.concrete⟩

theorem Placed.spells {place : Span → Bool} (h : Placed text place n) :
    n.span.Spells text (nodeText text n) :=
  nodeText_spells h.fits

/-! ### Types and annotations -/

theorem Placed.typeRef {place : Span → Bool} (h : Placed text place n) :
    (readTypeRef text n).Faithful text place :=
  ⟨⟨_, h.spells, rfl⟩, h.placed⟩

theorem Placed.typeRefs {place : Span → Bool} (inward : Inward place) (h : Placed text place n) :
    ∀ r ∈ readTypeRefs text n, r.Faithful text place := by
  intro r hr
  obtain ⟨c, hc, rfl⟩ := List.mem_map.1 hr
  exact (h.inner inward (placed_namedChild h.concrete (List.mem_filter.1 hc).1)).typeRef

theorem Placed.argument {place : Span → Bool} {a : Argument} (h : Placed text place n)
    (read : readArgument? text n = some a) : a.Faithful text ∧ place a.span := by
  unfold readArgument? at read
  split at read
  · cases read
  · split at read
    · simp only [Option.bind_eq_bind, Option.bind_eq_some_iff] at read
      obtain ⟨key, -, value, hvalue, eq⟩ := read
      obtain rfl := Option.some.inj eq
      have inside := placed_child? h.concrete hvalue
      exact ⟨⟨inside.spells, inside.placed⟩, h.placed⟩
    · obtain rfl := Option.some.inj read
      exact ⟨⟨h.spells, Span.contains_self _⟩, h.placed⟩

theorem Placed.annotationUse {place : Span → Bool} {a : AnnotationUse} (h : Placed text place n)
    (read : readAnnotationUse? text n = some a) : a.Faithful text ∧ place a.span := by
  simp only [readAnnotationUse?, Option.bind_eq_bind, Option.bind_eq_some_iff] at read
  obtain ⟨name, hname, eq⟩ := read
  obtain rfl := Option.some.inj eq
  have inside := placed_child? h.concrete hname
  refine ⟨⟨⟨_, inside.spells, rfl⟩, inside.placed, ?_, ?_⟩, h.placed⟩
  · intro s hs
    obtain ⟨list, hlist, rfl⟩ := Option.map_eq_some_iff.1 hs
    exact (placed_child? h.concrete hlist).placed
  · intro arg harg
    dsimp only at harg ⊢
    cases hlist : n.child? .arguments with
    | none =>
      rw [hlist] at harg
      cases harg
    | some list =>
      rw [hlist] at harg
      obtain ⟨c, hc, read⟩ := List.mem_filterMap.1 harg
      obtain ⟨faithful, placed⟩ :=
        (placed_namedChild (placed_child? h.concrete hlist).concrete hc).argument read
      exact ⟨faithful, list.span, rfl, placed⟩

theorem readModifiers_faithful {place : Span → Bool} {n : Option Node}
    (h : ∀ m ∈ n, Placed text place m) : (readModifiers text n).Faithful text place := by
  cases n with
  | none => exact ⟨nofun, nofun, nofun⟩
  | some n =>
    have h := h n rfl
    refine ⟨fun s hs => ?_, fun k hk => ?_, fun a ha => ?_⟩
    · obtain rfl := Option.some.inj hs
      exact h.placed
    · obtain ⟨token, mem, rfl⟩ := List.mem_map.1 hk
      have inside := placed_child h.concrete (List.mem_filter.1 mem).1
      exact ⟨inside.spells, n.span, rfl, inside.placed⟩
    · obtain ⟨c, mem, read⟩ := List.mem_filterMap.1 ha
      obtain ⟨faithful, placed⟩ :=
        (placed_child h.concrete (List.mem_filter.1 mem).1).annotationUse read
      exact ⟨faithful, n.span, rfl, placed⟩

theorem modifiers_faithful (h : n.Everywhere (Node.Concrete text)) :
    (readModifiers text (modifiersNode? n)).Faithful text n.span.contains :=
  readModifiers_faithful fun _ hm => placed_child h (modifiersNode?_cases hm).1

/-! ### Members -/

theorem readField?_span {f : FieldDecl} (read : readField? text n = some f) : f.span = n.span := by
  simp only [readField?, Option.bind_eq_bind, Option.bind_eq_some_iff] at read
  obtain ⟨type, -, eq⟩ := read
  obtain rfl := Option.some.inj eq
  rfl

theorem readField?_faithful {f : FieldDecl} (h : n.Everywhere (Node.Concrete text))
    (read : readField? text n = some f) : f.Faithful text := by
  simp only [readField?, Option.bind_eq_bind, Option.bind_eq_some_iff] at read
  obtain ⟨type, htype, eq⟩ := read
  obtain rfl := Option.some.inj eq
  refine ⟨modifiers_faithful h, (placed_child? h htype).typeRef, fun d hd => ?_⟩
  obtain ⟨c, hc, read⟩ := List.mem_filterMap.1 hd
  unfold readDeclarator? at read
  split at read
  · obtain ⟨name, hname, rfl⟩ := Option.map_eq_some_iff.1 read
    have outer := placed_namedChild h hc
    have inside := placed_child? outer.concrete hname
    exact ⟨inside.spells, Span.contains_trans outer.placed inside.placed⟩
  · cases read

theorem readParameter?_faithful {root : Node} {p : Parameter}
    (h : n.Everywhere (Node.Concrete text)) (mem : n ∈ root.preorder)
    (read : readParameter? text n = some p) : p.Faithful text root ∧ p.span = n.span := by
  unfold readParameter? at read
  split at read
  · rename_i form
    simp only [Option.bind_eq_bind, Option.bind_eq_some_iff] at read
    obtain ⟨type, htype, name, hname, eq⟩ := read
    obtain rfl := Option.some.inj eq
    have typePlaced := placed_child? h htype
    have namePlaced := placed_child? h hname
    refine ⟨⟨namePlaced.spells, namePlaced.placed, modifiers_faithful h, typePlaced.placed,
      n, mem, rfl, .inl ⟨form, _, typePlaced.spells, rfl⟩⟩, rfl⟩
  · split at read
    · rename_i form
      simp only [Option.bind_eq_bind, Option.bind_eq_some_iff] at read
      obtain ⟨type, htype, declarator, hdeclarator, name, hname, eq⟩ := read
      obtain rfl := Option.some.inj eq
      have typePlaced := placed_namedChild h (List.mem_of_find?_eq_some htype)
      have outer := placed_childOf? h hdeclarator
      have namePlaced := outer.inner (inward_contains _) (placed_child? outer.concrete hname)
      refine ⟨⟨namePlaced.spells, namePlaced.placed, modifiers_faithful h, typePlaced.placed,
        n, mem, rfl, .inr ⟨form, _, ⟨_, typePlaced.spells, rfl⟩, rfl⟩⟩, rfl⟩
    · cases read

theorem readMethodAs_faithful {root name params : Node} {returnType : Option TypeRef}
    (h : n.Everywhere (Node.Concrete text)) (mem : n ∈ root.preorder)
    (hname : n.child? .name = some name) (hparams : n.child? .parameters = some params)
    (returns : ∀ r ∈ returnType, r.Faithful text n.span.contains) :
    (readMethodAs text n name params returnType).Faithful text root := by
  have namePlaced := placed_child? h hname
  have paramsPlaced := placed_child? h hparams
  refine ⟨namePlaced.spells, namePlaced.placed, modifiers_faithful h, fun s hs => ?_, returns,
    fun r hr => ?_, paramsPlaced.placed, fun p hp => ?_⟩
  · obtain ⟨list, hlist, rfl⟩ := Option.map_eq_some_iff.1 hs
    exact (placed_child? h hlist).placed
  · unfold readMethodAs at hr
    cases hthrows : n.childOf? .throws with
    | none =>
      rw [hthrows] at hr
      cases hr
    | some clause =>
      rw [hthrows] at hr
      exact (placed_childOf? h hthrows).typeRefs (inward_contains _) r hr
  · obtain ⟨c, hc, read⟩ := List.mem_filterMap.1 hp
    have inside := placed_namedChild paramsPlaced.concrete hc
    have inner : c ∈ root.preorder :=
      Node.mem_preorder_trans (Node.mem_preorder_of_mem_children (List.mem_filter.1 hc).1)
        (Node.mem_preorder_trans
          (Node.mem_preorder_of_mem_children (List.mem_of_find?_eq_some hparams)) mem)
    obtain ⟨faithful, span⟩ := readParameter?_faithful inside.concrete inner read
    rw [span]
    exact ⟨faithful, inside.placed⟩

theorem readMethod?_cases {m : MethodDecl} (read : readMethod? text n = some m) :
    (n.hasForm .methodDeclaration = true ∨ n.hasForm .constructorDeclaration = true) ∧
      ∃ name params returnType, n.child? .name = some name ∧ n.child? .parameters = some params ∧
        (∀ r ∈ returnType, ∃ type, n.child? .type = some type ∧ r = readTypeRef text type) ∧
        m = readMethodAs text n name params returnType := by
  unfold readMethod? at read
  split at read
  · rename_i form
    simp only [Option.bind_eq_bind, Option.bind_eq_some_iff] at read
    obtain ⟨name, hname, params, hparams, type, htype, eq⟩ := read
    refine ⟨.inl form, name, params, _, hname, hparams, fun r hr => ⟨type, htype, ?_⟩,
      (Option.some.inj eq).symm⟩
    exact (Option.some.inj hr).symm
  · split at read
    · rename_i form
      simp only [Option.bind_eq_bind, Option.bind_eq_some_iff] at read
      obtain ⟨name, hname, params, hparams, eq⟩ := read
      exact ⟨.inr form, name, params, none, hname, hparams, nofun, (Option.some.inj eq).symm⟩
    · cases read

theorem readMethod?_span {m : MethodDecl} (read : readMethod? text n = some m) :
    m.span = n.span := by
  obtain ⟨-, name, params, returnType, -, -, -, rfl⟩ := readMethod?_cases read
  rfl

theorem readMethod?_faithful {root : Node} {m : MethodDecl} (h : n.Everywhere (Node.Concrete text))
    (mem : n ∈ root.preorder) (read : readMethod? text n = some m) : m.Faithful text root := by
  obtain ⟨-, name, params, returnType, hname, hparams, returns, rfl⟩ := readMethod?_cases read
  refine readMethodAs_faithful h mem hname hparams fun r hr => ?_
  obtain ⟨type, htype, rfl⟩ := returns r hr
  exact (placed_child? h htype).typeRef

/-! ### Members of a body -/

/-- The nodes follow each other. -/
def Row (ns : List Node) : Prop := ns.Pairwise fun a b => a.span.stop ≤ b.span.start

theorem Row.disjoint {ns : List Node} {a b : Node} (h : Row ns) (ha : a ∈ ns) (hb : b ∈ ns)
    (ne : a ≠ b) : a.span.Disjoint b.span := by
  have : Std.Symm fun a b : Node => a.span.Disjoint b.span := ⟨fun _ _ => Span.Disjoint.symm⟩
  have apart : ns.Pairwise fun a b => a.span.Disjoint b.span := h.imp .inl
  exact apart.forall ha hb ne

theorem Placed.self {place : Span → Bool} (h : Placed text place n) :
    Placed text n.span.contains n :=
  ⟨h.fits, Span.contains_self _, h.concrete⟩

mutual

/-- The members of a body follow each other inside it. -/
theorem members_placed : ∀ n : Node, n.Everywhere (Node.Concrete text) →
    Row (members n) ∧ ∀ m ∈ members n, Placed text n.span.contains m
  | .mk kind field span children, h => by
    have placed : ∀ c ∈ children, Placed text span.contains c := fun c hc => placed_child h hc
    obtain ⟨row, inside⟩ :=
      membersAmong_placed children (fun c hc => (placed c hc).self) h.here.ordered
    rw [members]
    refine ⟨row, fun m hm => ?_⟩
    obtain ⟨c, hc, inner⟩ := inside m hm
    exact (placed c hc).inner (inward_contains span) inner

theorem membersAmong_placed : ∀ ns : List Node, (∀ n ∈ ns, Placed text n.span.contains n) → Row ns →
    Row (membersAmong ns) ∧ ∀ m ∈ membersAmong ns, ∃ c ∈ ns, Placed text c.span.contains m
  | [], _, _ => ⟨.nil, nofun⟩
  | n :: ns, h, row => by
    obtain ⟨hn, hns⟩ := List.forall_mem_cons.1 h
    obtain ⟨before, row⟩ := List.pairwise_cons.1 row
    obtain ⟨rowRest, rest⟩ := membersAmong_placed ns hns row
    have later : ∀ m ∈ membersAmong ns, n.span.stop ≤ m.span.start := by
      intro m hm
      obtain ⟨c, hc, inner⟩ := rest m hm
      exact Nat.le_trans (before c hc) (Span.contains_iff.1 inner.placed).1
    have behind : ∀ m ∈ membersAmong ns, ∃ c ∈ n :: ns, Placed text c.span.contains m := by
      intro m hm
      obtain ⟨c, hc, inner⟩ := rest m hm
      exact ⟨c, List.mem_cons_of_mem _ hc, inner⟩
    rw [membersAmong]
    split
    · obtain ⟨rowHere, here⟩ := members_placed n hn.concrete
      refine ⟨List.pairwise_append.2 ⟨rowHere, rowRest, fun a ha b hb => ?_⟩, fun m hm => ?_⟩
      · exact Nat.le_trans (Span.contains_iff.1 (here a ha).placed).2 (later b hb)
      · rcases List.mem_append.1 hm with hm | hm
        · exact ⟨n, List.mem_cons_self, here m hm⟩
        · exact behind m hm
    · refine ⟨List.pairwise_cons.2 ⟨later, rowRest⟩, fun m hm => ?_⟩
      rcases List.mem_cons.1 hm with rfl | hm
      · exact ⟨m, List.mem_cons_self, hn⟩
      · exact behind m hm

end

/-! ### Types -/

/-- Inside a whole but outside its body, as for the header of a type. -/
def inHeader (whole body s : Span) : Bool := whole.contains s && decide (s.Disjoint body)

theorem inward_header (whole body : Span) : Inward (inHeader whole body) := by
  intro s t hs inside
  simp only [inHeader, Bool.and_eq_true, decide_eq_true_eq] at hs ⊢
  exact ⟨Span.contains_trans hs.1 inside,
    hs.2.mono inside (Span.contains_self _)⟩

/-- A child that is not the body stands in the header. -/
theorem placed_header {body : Node} (h : n.Everywhere (Node.Concrete text))
    (hb : body ∈ n.children) (hc : c ∈ n.children) (ne : c ≠ body) :
    Placed text (inHeader n.span body.span) c := by
  have inside := placed_child h hc
  refine ⟨inside.fits, ?_, inside.concrete⟩
  simp only [inHeader, Bool.and_eq_true, decide_eq_true_eq]
  exact ⟨inside.placed, Row.disjoint h.here.ordered hc hb ne⟩

theorem ne_of_field {f g : Field} {a b : Node} (ha : a.field = some f) (hb : b.field = some g)
    (ne : f ≠ g) : a ≠ b := by
  rintro rfl
  exact ne (Option.some.inj (ha.symm.trans hb))

theorem not_clause {body : Node} (h : body.Everywhere (Node.Concrete text))
    (field : body.field = some .body) {form : Form} (hform : form ∈ Node.clauseForms)
    (hc : c.hasForm form = true) : c ≠ body := by
  rintro rfl
  rw [h.here.body field form hform] at hc
  cases hc

theorem mem_fields {body : Node} {f : FieldDecl}
    (hf : f ∈ ((members body).filter isFieldNode).filterMap (readField? text)) :
    ∃ c ∈ members body, isFieldNode c = true ∧ f.span = c.span := by
  obtain ⟨c, hc, read⟩ := List.mem_filterMap.1 hf
  obtain ⟨mem, form⟩ := List.mem_filter.1 hc
  exact ⟨c, mem, form, readField?_span read⟩

theorem mem_methods {body : Node} {m : MethodDecl}
    (hm : m ∈ (members body).filterMap (readMethod? text)) :
    ∃ c ∈ members body,
      (c.hasForm .methodDeclaration = true ∨ c.hasForm .constructorDeclaration = true) ∧
        m.span = c.span := by
  obtain ⟨c, hc, read⟩ := List.mem_filterMap.1 hm
  exact ⟨c, hc, (readMethod?_cases read).1, readMethod?_span read⟩

/-- The spans of fields and methods are those of members of the body that are no types. -/
theorem mem_memberSpans {body : Node} {t : TypeDecl} {s : Span}
    (read : readTypeDecl? text n = some t) (hbody : n.child? .body = some body)
    (hs : s ∈ t.memberSpans) : ∃ c ∈ members body, typeKind? c = none ∧ s = c.span := by
  simp only [readTypeDecl?, Option.bind_eq_bind, Option.bind_eq_some_iff] at read
  obtain ⟨kind, -, name, -, body', hbody', eq⟩ := read
  obtain rfl := Option.some.inj eq
  obtain rfl := Option.some.inj (hbody.symm.trans hbody')
  rcases List.mem_append.1 hs with hs | hs
  · obtain ⟨f, hf, rfl⟩ := List.mem_map.1 hs
    obtain ⟨c, hc, form, span⟩ := mem_fields hf
    refine ⟨c, hc, ?_, span⟩
    simp only [isFieldNode, Node.hasForm, Bool.or_eq_true, beq_iff_eq] at form
    rcases form with form | form <;> simp [typeKind?, form]
  · obtain ⟨m, hm, rfl⟩ := List.mem_map.1 hs
    obtain ⟨c, hc, form, span⟩ := mem_methods hm
    refine ⟨c, hc, ?_, span⟩
    simp only [Node.hasForm, beq_iff_eq] at form
    rcases form with form | form <;> simp [typeKind?, form]

theorem interfaces_faithful {place : Span → Bool} {kind : TypeKind} (inward : Inward place)
    (h : ∀ clause, interfaceList? kind n = some clause → Placed text place clause) :
    ∀ r ∈ (((interfaceList? kind n).bind fun clause => clause.childOf? .typeList).map
      (readTypeRefs text)).getD [], r.Faithful text place := by
  intro r hr
  cases hlist : (interfaceList? kind n).bind fun clause => clause.childOf? .typeList with
  | none =>
    rw [hlist] at hr
    cases hr
  | some list =>
    rw [hlist] at hr
    obtain ⟨clause, hclause, found⟩ := Option.bind_eq_some_iff.1 hlist
    have outer := h clause hclause
    exact (outer.inner inward (placed_childOf? outer.concrete found)).typeRefs inward r hr

theorem superclass_faithful {place : Span → Bool} (inward : Inward place)
    (h : ∀ clause, n.child? .superclass = some clause → Placed text place clause) :
    ∀ r ∈ ((n.child? .superclass).bind fun clause => clause.namedChildren.head?).map
      (readTypeRef text), r.Faithful text place := by
  intro r hr
  obtain ⟨type, found, rfl⟩ := Option.map_eq_some_iff.1 hr
  obtain ⟨clause, hclause, first⟩ := Option.bind_eq_some_iff.1 found
  have outer := h clause hclause
  exact (outer.inner inward (placed_namedChild outer.concrete (List.mem_of_head? first))).typeRef

theorem memberSpans_disjoint {body : Node} (h : body.Everywhere (Node.Concrete text)) :
    ((((members body).filter isFieldNode).filterMap (readField? text)).map (·.span) ++
      ((members body).filterMap (readMethod? text)).map (·.span)).Pairwise Span.Disjoint := by
  obtain ⟨row, -⟩ := members_placed body h
  refine List.pairwise_append.2 ⟨?_, ?_, fun s hs t ht => ?_⟩
  · rw [List.pairwise_map, List.pairwise_filterMap]
    refine (row.filter isFieldNode).imp fun before f hf g hg => ?_
    rw [readField?_span hf, readField?_span hg]
    exact .inl before
  · rw [List.pairwise_map, List.pairwise_filterMap]
    refine row.imp fun before f hf g hg => ?_
    rw [readMethod?_span hf, readMethod?_span hg]
    exact .inl before
  · obtain ⟨f, hf, rfl⟩ := List.mem_map.1 hs
    obtain ⟨m, hm, rfl⟩ := List.mem_map.1 ht
    obtain ⟨c, hc, field, span⟩ := mem_fields hf
    obtain ⟨c', hc', method, span'⟩ := mem_methods hm
    rw [span, span']
    refine row.disjoint hc hc' ?_
    rintro rfl
    simp only [Node.hasForm, beq_iff_eq] at method
    rcases method with form | form <;> simp [isFieldNode, Node.hasForm, form] at field

theorem readTypeDecl?_faithful {root : Node} {t : TypeDecl} (h : n.Everywhere (Node.Concrete text))
    (mem : n ∈ root.preorder) (read : readTypeDecl? text n = some t) : t.Faithful text root := by
  have whole := read
  simp only [readTypeDecl?, Option.bind_eq_bind, Option.bind_eq_some_iff] at read
  obtain ⟨kind, -, name, hname, body, hbody, eq⟩ := read
  obtain rfl := Option.some.inj eq
  have inBody := List.mem_of_find?_eq_some hbody
  have field := field_of_child? hbody
  have bodyPlaced := placed_child? h hbody
  have header : ∀ {c : Node}, c ∈ n.children → c ≠ body →
      Placed text (inHeader n.span body.span) c := fun hc ne => placed_header h inBody hc ne
  have clause : ∀ {f : Field} {c : Node}, n.child? f = some c → f ≠ .body →
      Placed text (inHeader n.span body.span) c := fun found ne =>
    header (List.mem_of_find?_eq_some found) (ne_of_field (field_of_child? found) field ne)
  have inward := inward_header n.span body.span
  obtain ⟨-, placed⟩ := members_placed body bodyPlaced.concrete
  refine ⟨(placed_child? h hname).spells, (clause hname (by decide)).placed, ?_, ?_, ?_,
    bodyPlaced.placed, ?_, ?_, ?_, memberSpans_disjoint bodyPlaced.concrete⟩
  · refine readModifiers_faithful fun m hm => ?_
    obtain ⟨hc, byField | byForm⟩ := modifiersNode?_cases hm
    · exact header hc (ne_of_field byField field (by decide))
    · exact header hc (not_clause bodyPlaced.concrete field (by decide) byForm)
  · intro s hs
    obtain ⟨list, hlist, rfl⟩ := Option.map_eq_some_iff.1 hs
    exact (clause hlist (by decide)).placed
  · intro r hr
    rcases List.mem_append.1 hr with hr | hr
    · exact superclass_faithful inward (fun _ found => clause found (by decide)) r
        (Option.mem_toList.1 hr)
    · refine interfaces_faithful inward (fun _ found => ?_) r hr
      obtain ⟨hc, byField | ⟨form, hform, byForm⟩⟩ := interfaceList?_cases found
      · exact header hc (ne_of_field byField field (by decide))
      · exact header hc
          (not_clause bodyPlaced.concrete field (List.mem_cons_of_mem _ hform) byForm)
  · intro f hf
    obtain ⟨c, hc, read⟩ := List.mem_filterMap.1 hf
    exact readField?_faithful (placed c (List.mem_filter.1 hc).1).concrete read
  · intro m hm
    obtain ⟨c, hc, read⟩ := List.mem_filterMap.1 hm
    have inner : c ∈ root.preorder := Node.mem_preorder_trans (mem_preorder_of_mem_members body hc)
      (Node.mem_preorder_trans (Node.mem_preorder_of_mem_children inBody) mem)
    exact readMethod?_faithful (placed c hc).concrete inner read
  · intro s hs
    obtain ⟨c, hc, -, rfl⟩ := mem_memberSpans whole hbody hs
    exact (placed c hc).placed

end Java

end JakartaCheck
