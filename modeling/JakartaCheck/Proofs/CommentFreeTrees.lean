import JakartaCheck.Proofs.ParsedTrees

/-!
# Trees without their comments

Comments in a tree are leaves without a field name (`Node.Bare`). Every reader of declarations
passes over them, so a tree and the same tree without its comments (`Node.uncommented`) give the
same declarations, with one exception: the superclass is read at the first named node of its clause,
which may be a comment. Up to superclasses the two units are equal, and where no clause of a
superclass starts with a comment they are equal altogether (`CompilationUnit.ofTree_uncommented`).
-/

namespace JakartaCheck

namespace Java

namespace Node

mutual

/-- The node without the comments in it. -/
def uncommented : Node → Node
  | mk kind field span children => mk kind field span (uncommentedAll children)

def uncommentedAll : List Node → List Node
  | [] => []
  | n :: ns => if n.isComment then uncommentedAll ns else n.uncommented :: uncommentedAll ns

end

theorem uncommentedAll_eq (ns : List Node) :
    uncommentedAll ns = (ns.filter (!·.isComment)).map uncommented := by
  induction ns with
  | nil => rfl
  | cons n ns ih =>
    rw [uncommentedAll, List.filter_cons, ih]
    cases n.isComment <;> rfl

@[simp] theorem kind_uncommented (n : Node) : n.uncommented.kind = n.kind := by cases n; rfl

@[simp] theorem field_uncommented (n : Node) : n.uncommented.field = n.field := by cases n; rfl

@[simp] theorem span_uncommented (n : Node) : n.uncommented.span = n.span := by cases n; rfl

theorem children_uncommented (n : Node) :
    n.uncommented.children = (n.children.filter (!·.isComment)).map uncommented := by
  cases n
  exact uncommentedAll_eq _

@[simp] theorem hasForm_uncommented (n : Node) (f : Form) :
    n.uncommented.hasForm f = n.hasForm f := by
  rw [hasForm, kind_uncommented, hasForm]

@[simp] theorem isComment_uncommented (n : Node) : n.uncommented.isComment = n.isComment := by
  simp only [isComment, hasForm_uncommented]

@[simp] theorem isNamed_uncommented (n : Node) : n.uncommented.isNamed = n.isNamed := by
  simp only [isNamed, kind_uncommented]

@[simp] theorem nodeText_uncommented (text : String) (n : Node) :
    nodeText text n.uncommented = nodeText text n := by
  simp only [nodeText, span_uncommented]

theorem hasForm_of_isComment {n : Node} (h : n.isComment = true) {f : Form}
    (line : f ≠ .lineComment) (block : f ≠ .blockComment) : n.hasForm f = false := by
  rcases isComment_iff.1 h with h | h <;> simp [hasForm, h, line.symm, block.symm]

theorem isNamed_of_isComment {n : Node} (h : n.isComment = true) : n.isNamed = true := by
  rcases isComment_iff.1 h with h | h <;> simp [isNamed, h]

/-! ### Children -/

section Lists

variable {p : Node → Bool} {ns : List Node}

theorem filter_uncommented (same : ∀ n : Node, p n.uncommented = p n)
    (skip : ∀ n ∈ ns, n.isComment = true → p n = false) :
    ((ns.filter (!·.isComment)).map uncommented).filter p = (ns.filter p).map uncommented := by
  rw [List.filter_map, show p ∘ uncommented = p from funext same, List.filter_filter]
  congr 1
  refine List.filter_congr fun n hn => ?_
  cases hc : n.isComment with
  | false => simp
  | true => simp [skip n hn hc]

theorem find?_uncommented (same : ∀ n : Node, p n.uncommented = p n)
    (skip : ∀ n ∈ ns, n.isComment = true → p n = false) :
    ((ns.filter (!·.isComment)).map uncommented).find? p = (ns.find? p).map uncommented := by
  rw [← List.head?_filter, filter_uncommented same skip, List.head?_map, List.head?_filter]

variable {α : Type}

theorem filterMap_uncommented {f : Node → Option α} (same : ∀ n ∈ ns, f n.uncommented = f n)
    (skip : ∀ n ∈ ns, n.isComment = true → f n = none) :
    ((ns.filter (!·.isComment)).map uncommented).filterMap f = ns.filterMap f := by
  rw [List.filterMap_map, List.filterMap_filter]
  refine List.filterMap_congr fun n hn => ?_
  cases hc : n.isComment with
  | false => simp [same n hn]
  | true => simp [skip n hn hc]

theorem flatMap_uncommented {f : Node → List α} (same : ∀ n ∈ ns, f n.uncommented = f n)
    (skip : ∀ n ∈ ns, n.isComment = true → f n = []) :
    ((ns.filter (!·.isComment)).map uncommented).flatMap f = ns.flatMap f := by
  induction ns with
  | nil => rfl
  | cons n ns ih =>
    have later := ih (fun m hm => same m (List.mem_cons_of_mem _ hm))
      fun m hm => skip m (List.mem_cons_of_mem _ hm)
    cases hc : n.isComment with
    | false => simp [hc, later, same n List.mem_cons_self]
    | true => simp [hc, later, skip n List.mem_cons_self hc]

end Lists

variable {n : Node}

theorem namedChildren_uncommented (n : Node) :
    n.uncommented.namedChildren = (n.namedChildren.filter (!·.isComment)).map uncommented := by
  rw [namedChildren, children_uncommented, List.filter_map,
    show isNamed ∘ uncommented = isNamed from funext isNamed_uncommented, List.filter_comm]
  rfl

theorem child?_uncommented (h : n.Everywhere Bare) (f : Field) :
    n.uncommented.child? f = (n.child? f).map uncommented := by
  rw [child?, children_uncommented, find?_uncommented (by simp), child?]
  intro c hc comment
  simp [((h.child hc).here comment).1]

theorem childOf?_uncommented (n : Node) {f : Form} (line : f ≠ .lineComment)
    (block : f ≠ .blockComment) : n.uncommented.childOf? f = (n.childOf? f).map uncommented := by
  rw [childOf?, namedChildren_uncommented, find?_uncommented (by simp), childOf?]
  exact fun c _ comment => hasForm_of_isComment comment line block

end Node

open Node

variable {text : String} {n : Node}

/-! ### Types and annotations -/

@[simp] theorem readTypeRef_uncommented (text : String) (n : Node) :
    readTypeRef text n.uncommented = readTypeRef text n := by
  simp only [readTypeRef, nodeText_uncommented, hasForm_uncommented, span_uncommented]

@[simp] theorem readTypeRefs_uncommented (text : String) (n : Node) :
    readTypeRefs text n.uncommented = readTypeRefs text n := by
  simp [readTypeRefs, namedChildren_uncommented, List.filter_map, Function.comp_def]

@[simp] theorem stringOf?_uncommented (text : String) (n : Node) :
    stringOf? text n.uncommented = stringOf? text n := by
  simp only [stringOf?, hasForm_uncommented, nodeText_uncommented]

@[simp] theorem readArgument_uncommented (text name : String) (whole value : Node) :
    readArgument text name whole.uncommented value.uncommented =
      readArgument text name whole value := by
  simp [readArgument]

theorem readArgument?_uncommented (h : n.Everywhere Bare) :
    readArgument? text n.uncommented = readArgument? text n := by
  simp only [readArgument?, isComment_uncommented, hasForm_uncommented, child?_uncommented h,
    Option.bind_eq_bind, Option.bind_map, Function.comp_def, nodeText_uncommented,
    readArgument_uncommented]

theorem readAnnotationUse?_uncommented (h : n.Everywhere Bare) :
    readAnnotationUse? text n.uncommented = readAnnotationUse? text n := by
  have args : ((n.child? .arguments).map Node.uncommented).map
        (fun list => list.namedChildren.filterMap (readArgument? text)) =
      (n.child? .arguments).map fun list => list.namedChildren.filterMap (readArgument? text) := by
    cases ha : n.child? .arguments with
    | none => rfl
    | some list =>
      simp only [Option.map_some, namedChildren_uncommented]
      rw [filterMap_uncommented]
      · exact fun c hc => readArgument?_uncommented ((h.child? ha).namedChild hc)
      · intro c _ comment
        simp [readArgument?, comment]
  simp only [readAnnotationUse?, child?_uncommented h, args, Option.bind_eq_bind, Option.bind_map,
    Option.map_map, Function.comp_def, nodeText_uncommented, span_uncommented]

theorem readModifiers_uncommented {n : Option Node} (h : ∀ m ∈ n, m.Everywhere Bare) :
    readModifiers text (n.map uncommented) = readModifiers text n := by
  cases n with
  | none => rfl
  | some n =>
    have h := h n rfl
    have keywords : n.uncommented.children.filter (!·.isNamed) =
        (n.children.filter (!·.isNamed)).map uncommented := by
      rw [children_uncommented, filter_uncommented (by simp)]
      intro c _ comment
      simp [isNamed_of_isComment comment]
    have annotations : n.uncommented.children.filter isAnnotationNode =
        (n.children.filter isAnnotationNode).map uncommented := by
      rw [children_uncommented, filter_uncommented (by simp [isAnnotationNode])]
      intro c _ comment
      simp [isAnnotationNode, hasForm_of_isComment comment]
    have uses : ((n.children.filter isAnnotationNode).map uncommented).filterMap
          (readAnnotationUse? text) =
        (n.children.filter isAnnotationNode).filterMap (readAnnotationUse? text) := by
      rw [List.filterMap_map]
      refine List.filterMap_congr fun c hc => ?_
      exact readAnnotationUse?_uncommented (h.child (List.mem_filter.1 hc).1)
    simp only [Option.map_some, readModifiers, keywords, annotations, uses, List.map_map,
      Function.comp_def, nodeText_uncommented, span_uncommented]

theorem modifiersNode?_uncommented (h : n.Everywhere Bare) :
    modifiersNode? n.uncommented = (modifiersNode? n).map uncommented := by
  rw [modifiersNode?, child?_uncommented h, childOf?_uncommented n (by decide) (by decide),
    modifiersNode?]
  cases n.child? .modifiers <;> rfl

theorem modifiers_uncommented (h : n.Everywhere Bare) :
    readModifiers text (modifiersNode? n.uncommented) = readModifiers text (modifiersNode? n) := by
  rw [modifiersNode?_uncommented h, readModifiers_uncommented]
  exact fun m hm => h.child (modifiersNode?_cases hm).1

/-! ### Members -/

theorem readDeclarator?_uncommented (h : n.Everywhere Bare) :
    readDeclarator? text n.uncommented = readDeclarator? text n := by
  simp only [readDeclarator?, hasForm_uncommented, child?_uncommented h, Option.map_map,
    Function.comp_def, nodeText_uncommented, span_uncommented]

theorem readField?_uncommented (h : n.Everywhere Bare) :
    readField? text n.uncommented = readField? text n := by
  have declarators : n.uncommented.namedChildren.filterMap (readDeclarator? text) =
      n.namedChildren.filterMap (readDeclarator? text) := by
    rw [namedChildren_uncommented, filterMap_uncommented]
    · exact fun c hc => readDeclarator?_uncommented (h.namedChild hc)
    · intro c _ comment
      simp [readDeclarator?, hasForm_of_isComment comment]
  simp only [readField?, child?_uncommented h, declarators, modifiers_uncommented h,
    Option.bind_eq_bind, Option.bind_map, Function.comp_def, readTypeRef_uncommented,
    span_uncommented]

theorem readParameterAs_uncommented (h : n.Everywhere Bare) (name : Node) (type : TypeRef) :
    readParameterAs text n.uncommented name.uncommented type =
      readParameterAs text n name type := by
  simp only [readParameterAs, modifiers_uncommented h, nodeText_uncommented, span_uncommented]

theorem readParameter?_uncommented (h : n.Everywhere Bare) :
    readParameter? text n.uncommented = readParameter? text n := by
  have type : n.uncommented.namedChildren.find? (fun c =>
        !c.hasForm .modifiers && !c.hasForm .variableDeclarator && !c.isComment) =
      (n.namedChildren.find? fun c =>
        !c.hasForm .modifiers && !c.hasForm .variableDeclarator && !c.isComment).map
          uncommented := by
    rw [namedChildren_uncommented, find?_uncommented (by simp)]
    intro c _ comment
    simp [comment]
  have name : ∀ k : Node → Option Parameter,
      (((n.childOf? .variableDeclarator).map uncommented).bind fun d => (d.child? .name).bind k) =
        (n.childOf? .variableDeclarator).bind fun d => (d.child? .name).bind (k ∘ uncommented) := by
    intro k
    cases hd : n.childOf? .variableDeclarator with
    | none => rfl
    | some declarator =>
      rw [Option.map_some, Option.bind_some, Option.bind_some,
        child?_uncommented (h.childOf? hd), Option.bind_map]
  have declarator := childOf?_uncommented n (f := .variableDeclarator) (by decide) (by decide)
  simp only [readParameter?, hasForm_uncommented, child?_uncommented h, type, declarator, name,
    Option.bind_eq_bind, Option.bind_map, Function.comp_def, readTypeRef_uncommented,
    readParameterAs_uncommented h]

theorem readMethodAs_uncommented (h : n.Everywhere Bare) {params : Node}
    (hp : params.Everywhere Bare) (name : Node) (returnType : Option TypeRef) :
    readMethodAs text n.uncommented name.uncommented params.uncommented returnType =
      readMethodAs text n name params returnType := by
  have parameters : params.uncommented.namedChildren.filterMap (readParameter? text) =
      params.namedChildren.filterMap (readParameter? text) := by
    rw [namedChildren_uncommented, filterMap_uncommented]
    · exact fun c hc => readParameter?_uncommented (hp.namedChild hc)
    · intro c _ comment
      simp [readParameter?, hasForm_of_isComment comment]
  have throws := childOf?_uncommented n (f := .throws) (by decide) (by decide)
  simp only [readMethodAs, child?_uncommented h, throws, parameters, modifiers_uncommented h,
    Option.map_map, Function.comp_def, readTypeRefs_uncommented, nodeText_uncommented,
    span_uncommented, Option.isSome_map]

theorem readMethod?_uncommented (h : n.Everywhere Bare) :
    readMethod? text n.uncommented = readMethod? text n := by
  simp only [readMethod?, hasForm_uncommented, child?_uncommented h, Option.bind_eq_bind,
    Option.bind_map, Function.comp_def, readTypeRef_uncommented]
  cases hp : n.child? .parameters with
  | none => rfl
  | some params => simp only [Option.bind_some, readMethodAs_uncommented h (h.child? hp)]

mutual

theorem members_uncommented : ∀ n : Node,
    members n.uncommented = ((members n).filter (!·.isComment)).map uncommented
  | .mk kind field span children => by
    rw [uncommented, members, members, membersAmong_uncommented children]

theorem membersAmong_uncommented : ∀ ns : List Node,
    membersAmong (uncommentedAll ns) =
      ((membersAmong ns).filter (!·.isComment)).map uncommented
  | [] => rfl
  | n :: ns => by
    rw [uncommentedAll, membersAmong]
    cases comment : n.isComment with
    | true =>
      have notBody := hasForm_of_isComment comment (f := .enumBodyDeclarations) (by decide)
        (by decide)
      simp [notBody, comment, membersAmong_uncommented ns]
    | false =>
      rw [if_neg (by simp), membersAmong, hasForm_uncommented, members_uncommented n,
        membersAmong_uncommented ns]
      split <;> simp [comment]

end

theorem fields_uncommented {body : Node} (h : body.Everywhere Bare) :
    ((members body.uncommented).filter isFieldNode).filterMap (readField? text) =
      ((members body).filter isFieldNode).filterMap (readField? text) := by
  rw [members_uncommented, filter_uncommented (by simp [isFieldNode]), List.filterMap_map]
  · refine List.filterMap_congr fun c hc => ?_
    exact readField?_uncommented (h.member (List.mem_filter.1 hc).1)
  · intro c _ comment
    simp [isFieldNode, hasForm_of_isComment comment]

theorem methods_uncommented {body : Node} (h : body.Everywhere Bare) :
    (members body.uncommented).filterMap (readMethod? text) =
      (members body).filterMap (readMethod? text) := by
  rw [members_uncommented, filterMap_uncommented]
  · exact fun c hc => readMethod?_uncommented (h.member hc)
  · intro c _ comment
    simp [readMethod?, hasForm_of_isComment comment]

/-! ### Types -/

/-- The type that the clause of a superclass names: the first named node that is no comment. -/
def writtenSuperclass? (text : String) (n : Node) : Option TypeRef :=
  ((n.child? .superclass).bind fun clause => clause.namedChildren.find? (!·.isComment)).map
    (readTypeRef text)

theorem superclass_uncommented (h : n.Everywhere Bare) :
    ((n.uncommented.child? .superclass).bind fun clause => clause.namedChildren.head?).map
        (readTypeRef text) = writtenSuperclass? text n := by
  rw [child?_uncommented h, writtenSuperclass?]
  cases n.child? .superclass with
  | none => rfl
  | some clause =>
    simp only [Option.map_some, Option.bind_some, namedChildren_uncommented, List.head?_map,
      List.head?_filter, Option.map_map, Function.comp_def, readTypeRef_uncommented]

theorem interfaceList?_uncommented (h : n.Everywhere Bare) (kind : TypeKind) :
    interfaceList? kind n.uncommented = (interfaceList? kind n).map uncommented := by
  have byForm := childOf?_uncommented n (f := .superInterfaces) (by decide) (by decide)
  have extending := childOf?_uncommented n (f := .extendsInterfaces) (by decide) (by decide)
  simp only [interfaceList?, child?_uncommented h, byForm, extending]
  split
  · rfl
  · cases n.child? .interfaces <;> rfl

theorem interfaces_uncommented (h : n.Everywhere Bare) (kind : TypeKind) :
    ((interfaceList? kind n.uncommented).bind fun clause => clause.childOf? .typeList).map
        (readTypeRefs text) =
      ((interfaceList? kind n).bind fun clause => clause.childOf? .typeList).map
        (readTypeRefs text) := by
  rw [interfaceList?_uncommented h]
  cases interfaceList? kind n with
  | none => rfl
  | some clause =>
    have list := childOf?_uncommented clause (f := .typeList) (by decide) (by decide)
    simp only [Option.map_some, Option.bind_some, list, Option.map_map, Function.comp_def,
      readTypeRefs_uncommented]

theorem typeKind?_uncommented (n : Node) : typeKind? n.uncommented = typeKind? n := by
  simp only [typeKind?, kind_uncommented]

/-- Without comments a declaration is read as with them, but for the superclass. -/
theorem readTypeDecl?_uncommented (h : n.Everywhere Bare) :
    readTypeDecl? text n.uncommented =
      (readTypeDecl? text n).map fun t => { t with superclass := writtenSuperclass? text n } := by
  -- the clauses first, as the names of their nodes occur in them
  simp only [readTypeDecl?, superclass_uncommented h, interfaces_uncommented h,
    modifiers_uncommented h]
  simp only [typeKind?_uncommented, child?_uncommented h, Option.bind_eq_bind, Option.bind_map,
    Option.map_map, Function.comp_def, nodeText_uncommented, span_uncommented]
  cases typeKind? n with
  | none => rfl
  | some kind =>
    cases n.child? .name with
    | none => rfl
    | some name =>
      cases hb : n.child? .body with
      | none => rfl
      | some body =>
        simp only [Option.bind_some, Option.map_some, fields_uncommented (h.child? hb),
          methods_uncommented (h.child? hb)]

/-- The clause of the superclass, if there is one, does not start with a comment. -/
def OpensWithType (n : Node) : Prop :=
  ∀ clause, n.child? .superclass = some clause →
    ∀ c, clause.namedChildren.head? = some c → c.isComment = false

theorem writtenSuperclass?_eq (h : OpensWithType n) :
    writtenSuperclass? text n =
      ((n.child? .superclass).bind fun clause => clause.namedChildren.head?).map
        (readTypeRef text) := by
  rw [writtenSuperclass?]
  cases hc : n.child? .superclass with
  | none => rfl
  | some clause =>
    have first := h clause hc
    simp only [Option.bind_some]
    cases named : clause.namedChildren with
    | nil => rfl
    | cons c cs =>
      rw [named] at first
      simp [first c rfl]

theorem readTypeDecl?_uncommented_eq (h : n.Everywhere Bare) (opens : OpensWithType n) :
    readTypeDecl? text n.uncommented = readTypeDecl? text n := by
  rw [readTypeDecl?_uncommented h]
  cases read : readTypeDecl? text n with
  | none => rfl
  | some t =>
    simp only [readTypeDecl?, Option.bind_eq_bind, Option.bind_eq_some_iff] at read
    obtain ⟨kind, -, name, -, body, -, eq⟩ := read
    rw [Option.map_some, writtenSuperclass?_eq opens, ← Option.some.inj eq]

theorem readTypes_of_isComment (h : n.isComment = true) : readTypes text n = [] := by
  have notType : typeKind? n = none := by
    rcases isComment_iff.1 h with h | h <;> simp [typeKind?, h]
  have read : readTypeDecl? text n = none := by simp [readTypeDecl?, notType]
  cases n
  rw [readTypes, read]

section Types

variable {α : Type} {f : TypeDecl → α}

mutual

/-- What can be told of declarations one by one can be told of all the nested ones. -/
theorem readTypes_uncommented : ∀ n : Node, n.Everywhere Bare →
    (∀ m ∈ n.preorder,
      (readTypeDecl? text m.uncommented).map f = (readTypeDecl? text m).map f) →
    (readTypes text n.uncommented).map f = (readTypes text n).map f
  | .mk kind field span children, h, same => by
    rw [preorder_mk, List.forall_mem_cons] at same
    obtain ⟨here, below⟩ := same
    have inner := readTypesOfBody_uncommented children (everywhere_mk.1 h).2
      fun c hc m hm => below m (List.mem_flatMap.2 ⟨c, hc, hm⟩)
    rw [uncommented] at here ⊢
    rw [readTypes, readTypes]
    cases read : readTypeDecl? text (.mk kind field span children) with
    | none =>
      rw [read, Option.map_none, Option.map_eq_none_iff] at here
      rw [here]
    | some t =>
      obtain ⟨t', read', eq⟩ := Option.map_eq_some_iff.1 (here.trans (by rw [read]; rfl))
      rw [read', List.map_cons, List.map_cons, inner, eq]

theorem readTypesOfBody_uncommented : ∀ ns : List Node, (∀ n ∈ ns, n.Everywhere Bare) →
    (∀ n ∈ ns, ∀ m ∈ n.preorder,
      (readTypeDecl? text m.uncommented).map f = (readTypeDecl? text m).map f) →
    (readTypesOfBody text (uncommentedAll ns)).map f = (readTypesOfBody text ns).map f
  | [], _, _ => rfl
  | n :: ns, h, same => by
    obtain ⟨hn, hns⟩ := List.forall_mem_cons.1 h
    obtain ⟨here, later⟩ := List.forall_mem_cons.1 same
    have ih := readTypesOfBody_uncommented ns hns later
    rw [uncommentedAll, readTypesOfBody]
    cases comment : n.isComment with
    | true => simpa [(hn.here comment).1] using ih
    | false =>
      rw [if_neg (by simp), readTypesOfBody, field_uncommented]
      split
      · exact readTypesIn_uncommented n hn here
      · exact ih

theorem readTypesIn_uncommented : ∀ n : Node, n.Everywhere Bare →
    (∀ m ∈ n.preorder,
      (readTypeDecl? text m.uncommented).map f = (readTypeDecl? text m).map f) →
    (readTypesIn text n.uncommented).map f = (readTypesIn text n).map f
  | .mk kind field span children, h, same => by
    rw [preorder_mk, List.forall_mem_cons] at same
    rw [uncommented, readTypesIn, readTypesIn]
    exact readTypesAmong_uncommented children (everywhere_mk.1 h).2
      fun c hc m hm => same.2 m (List.mem_flatMap.2 ⟨c, hc, hm⟩)

theorem readTypesAmong_uncommented : ∀ ns : List Node, (∀ n ∈ ns, n.Everywhere Bare) →
    (∀ n ∈ ns, ∀ m ∈ n.preorder,
      (readTypeDecl? text m.uncommented).map f = (readTypeDecl? text m).map f) →
    (readTypesAmong text (uncommentedAll ns)).map f = (readTypesAmong text ns).map f
  | [], _, _ => rfl
  | n :: ns, h, same => by
    obtain ⟨hn, hns⟩ := List.forall_mem_cons.1 h
    obtain ⟨here, later⟩ := List.forall_mem_cons.1 same
    have ih := readTypesAmong_uncommented ns hns later
    rw [uncommentedAll, readTypesAmong]
    cases comment : n.isComment with
    | true =>
      have notBody := hasForm_of_isComment comment (f := .enumBodyDeclarations) (by decide)
        (by decide)
      simpa [notBody, readTypes_of_isComment comment] using ih
    | false =>
      rw [if_neg (by simp), readTypesAmong, hasForm_uncommented, List.map_append, List.map_append,
        ih]
      split
      · rw [readTypesIn_uncommented n hn here]
      · rw [readTypes_uncommented n hn here]

end

end Types

/-! ### Packages, imports and calls -/

theorem isName_uncommented (n : Node) : isName n.uncommented = isName n := by
  simp only [isName, hasForm_uncommented]

theorem isName_of_isComment (h : n.isComment = true) : isName n = false := by
  simp [isName, hasForm_of_isComment h]

theorem readPackage?_uncommented (text : String) (n : Node) :
    readPackage? text n.uncommented = readPackage? text n := by
  rw [readPackage?, namedChildren_uncommented, find?_uncommented isName_uncommented
    fun c _ => isName_of_isComment]
  simp only [readPackage?, Option.map_map, Function.comp_def, nodeText_uncommented]

theorem packageOf?_uncommented (text : String) (root : Node) :
    packageOf? text root.uncommented = packageOf? text root := by
  rw [packageOf?, namedChildren_uncommented, filter_uncommented (by simp)
    fun c _ comment => hasForm_of_isComment comment (by decide) (by decide), List.getLast?_map,
    Option.bind_map]
  simp only [packageOf?, Function.comp_def, readPackage?_uncommented]

theorem any_uncommented {p : Node → Bool} {ns : List Node}
    (same : ∀ n : Node, p n.uncommented = p n) (skip : ∀ n ∈ ns, n.isComment = true → p n = false) :
    ((ns.filter (!·.isComment)).map uncommented).any p = ns.any p := by
  rw [← List.isSome_find?, find?_uncommented same skip, Option.isSome_map, List.isSome_find?]

theorem readImport?_uncommented (text : String) (n : Node) :
    readImport? text n.uncommented = readImport? text n := by
  have static : n.uncommented.children.any (·.kind == .token "static") =
      n.children.any (·.kind == .token "static") := by
    rw [children_uncommented, any_uncommented (by simp)]
    intro c _ comment
    rcases isComment_iff.1 comment with h | h <;> simp [h]
  have wildcard : n.uncommented.children.any (·.hasForm .asterisk) =
      n.children.any (·.hasForm .asterisk) := by
    rw [children_uncommented, any_uncommented (by simp)]
    exact fun c _ comment => hasForm_of_isComment comment (by decide) (by decide)
  have path : n.uncommented.children.filter isName =
      (n.children.filter isName).map uncommented := by
    rw [children_uncommented, filter_uncommented isName_uncommented fun c _ => isName_of_isComment]
  simp only [readImport?, hasForm_uncommented, static, wildcard, path, List.getLast?_map,
    Option.map_map, Function.comp_def, nodeText_uncommented, span_uncommented]

theorem readCall?_uncommented (text : String) (h : n.Everywhere Bare) :
    readCall? text n.uncommented = readCall? text n := by
  have args : ∀ list : Node, (list.uncommented.namedChildren.filter (!·.isComment)).map
        (fun arg => CallArgument.mk arg.span (stringOf? text arg)) =
      (list.namedChildren.filter (!·.isComment)).map
        fun arg => CallArgument.mk arg.span (stringOf? text arg) := by
    intro list
    rw [namedChildren_uncommented, filter_uncommented (by simp) (by simp), List.map_map]
    simp only [Function.comp_def, stringOf?_uncommented, span_uncommented]
  simp only [readCall?, hasForm_uncommented, child?_uncommented h, args, Option.bind_eq_bind,
    Option.bind_map, Option.map_map, Function.comp_def, nodeText_uncommented, span_uncommented]

theorem calls_of_isComment (h : n.Everywhere Bare) (comment : n.isComment = true) :
    n.preorder.filterMap (readCall? text) = [] := by
  have notCall := hasForm_of_isComment comment (f := .methodInvocation) (by decide) (by decide)
  obtain ⟨-, leaf⟩ := h.here comment
  cases n
  cases leaf
  simp [preorder_mk, readCall?, notCall]

theorem calls_uncommented : ∀ n : Node, n.Everywhere Bare →
    n.uncommented.preorder.filterMap (readCall? text) = n.preorder.filterMap (readCall? text)
  | .mk kind field span children, h => by
    have nested : ∀ c ∈ children, c.uncommented.preorder.filterMap (readCall? text) =
        c.preorder.filterMap (readCall? text) :=
      fun c hc => calls_uncommented c ((everywhere_mk.1 h).2 c hc)
    have here := readCall?_uncommented text h
    rw [uncommented, uncommentedAll_eq] at here ⊢
    rw [preorder_mk, preorder_mk, List.filterMap_cons, List.filterMap_cons, here,
      List.filterMap_flatMap, List.filterMap_flatMap, flatMap_uncommented nested]
    exact fun c hc comment => calls_of_isComment ((everywhere_mk.1 h).2 c hc) comment

/-! ### Whole trees -/

theorem imports_uncommented (text : String) (root : Node) :
    root.uncommented.namedChildren.filterMap (readImport? text) =
      root.namedChildren.filterMap (readImport? text) := by
  rw [namedChildren_uncommented, filterMap_uncommented fun n _ => readImport?_uncommented text n]
  intro n _ comment
  simp [readImport?, hasForm_of_isComment comment]

theorem types_uncommented (text : String) {α : Type} {f : TypeDecl → α} {root : Node}
    (h : root.Everywhere Bare)
    (same : ∀ n ∈ root.preorder,
      (readTypeDecl? text n.uncommented).map f = (readTypeDecl? text n).map f) :
    (root.uncommented.namedChildren.flatMap (readTypes text)).map f =
      (root.namedChildren.flatMap (readTypes text)).map f := by
  rw [namedChildren_uncommented, List.map_flatMap, List.map_flatMap, flatMap_uncommented]
  · intro n hn
    have inside := mem_preorder_of_mem_children (List.mem_filter.1 hn).1
    exact readTypes_uncommented n (h.namedChild hn) fun m hm =>
      same m (mem_preorder_trans hm inside)
  · intro n _ comment
    rw [readTypes_of_isComment comment, List.map_nil]

end Java

namespace CompilationUnit

open Java

/-- The unit with the superclasses left out. -/
def withoutSuperclasses (unit : CompilationUnit) : CompilationUnit :=
  { unit with types := unit.types.map fun t => { t with superclass := none } }

theorem bind_withoutSuperclasses (unit : CompilationUnit) :
    unit.bind.withoutSuperclasses = unit.withoutSuperclasses.bind := by
  have same : unit.withoutSuperclasses.bindTypeDecl = unit.bindTypeDecl := by
    refine bindTypeDecl_congr fun written => resolve?_congr (bindHead?_congr rfl ?_)
    exact @declaredAs?_map unit unit.withoutSuperclasses rfl
      (fun t => { t with superclass := none }) rfl (fun _ => rfl) (fun _ _ _ _ => rfl) _
  simp only [bind, same]
  simp only [withoutSuperclasses, List.map_map, Function.comp_def, bindTypeDecl, Option.map_none]

variable {uri text : String} {root : Node}

/-- Comments do not matter to the declarations of a tree, except that one in front of a superclass
is taken for it. -/
theorem ofTree_uncommented (uri text : String) (bare : root.Everywhere Node.Bare) :
    (ofTree uri text root.uncommented).withoutSuperclasses =
      (ofTree uri text root).withoutSuperclasses ∧
    ((∀ n ∈ root.preorder, OpensWithType n) →
      ofTree uri text root.uncommented = ofTree uri text root) := by
  constructor
  · have types := types_uncommented text (f := fun t => { t with superclass := none }) bare
      fun n hn => by
        rw [readTypeDecl?_uncommented (bare.inner hn), Option.map_map]
        rfl
    rw [ofTree, bind_withoutSuperclasses, ofTree, bind_withoutSuperclasses]
    congr 1
    simp only [withoutSuperclasses, unboundOfTree, packageOf?_uncommented, imports_uncommented,
      Node.toList_collect, calls_uncommented root bare, types]
  · intro opens
    have types := types_uncommented text (f := id) bare
      fun n hn => by rw [readTypeDecl?_uncommented_eq (bare.inner hn) (opens n hn)]
    rw [List.map_id, List.map_id] at types
    simp only [ofTree, unboundOfTree, packageOf?_uncommented, imports_uncommented,
      Node.toList_collect, calls_uncommented root bare, types]

/-- A source with comments everywhere but in front of the superclass. -/
theorem ofTree_uncommented_class :
    ∃ root, parse "/*a*/ class /*b*/ A extends B /*c*/ {}" = some root ∧
      root.uncommented.preorder.length < root.preorder.length ∧
      ofTree "file:///A.java" "/*a*/ class /*b*/ A extends B /*c*/ {}" root.uncommented =
        ofTree "file:///A.java" "/*a*/ class /*b*/ A extends B /*c*/ {}" root := by
  have facts : (parse "/*a*/ class /*b*/ A extends B /*c*/ {}").any fun root =>
      decide (root.uncommented.preorder.length < root.preorder.length) &&
        root.preorder.all fun n => (n.child? .superclass).all fun clause =>
          clause.namedChildren.head?.all fun c => !c.isComment := by
    decide +kernel
  obtain ⟨root, parsed, facts⟩ := (Option.any_eq_true _ _).1 facts
  simp only [Bool.and_eq_true, decide_eq_true_eq, List.all_eq_true, Option.all_eq_true] at facts
  obtain ⟨fewer, opens⟩ := facts
  have bare := (shaped_of_parse parsed).imp fun _ h => h.bare
  refine ⟨root, parsed, fewer, (ofTree_uncommented _ _ bare).2 fun n hn clause hc c first => ?_⟩
  simpa using opens n hn clause hc c first

/-- A comment in front of a superclass is taken for it. -/
theorem ofTree_reads_comment_as_superclass :
    ∃ root, parse "class A extends /*c*/ B {}" = some root ∧ root.Everywhere Node.Bare ∧
      ofTree "file:///A.java" "class A extends /*c*/ B {}" root.uncommented ≠
        ofTree "file:///A.java" "class A extends /*c*/ B {}" root := by
  have facts : (parse "class A extends /*c*/ B {}").map (fun root =>
      ((ofTree "file:///A.java" "class A extends /*c*/ B {}" root.uncommented).types.map fun t =>
          t.superclass.map (·.text),
        (ofTree "file:///A.java" "class A extends /*c*/ B {}" root).types.map fun t =>
          t.superclass.map (·.text))) = some ([some "B"], [some "/*c*/"]) := by
    decide +kernel
  obtain ⟨root, parsed, facts⟩ := Option.map_eq_some_iff.1 facts
  refine ⟨root, parsed, (shaped_of_parse parsed).imp fun _ h => h.bare, fun same => ?_⟩
  rw [same] at facts
  obtain ⟨clean, commented⟩ := Prod.mk.inj facts
  exact absurd (clean.symm.trans commented) (by decide)

end CompilationUnit

end JakartaCheck
