import JakartaCheck.Java.Reading
import JakartaCheck.Proofs.GrammarTransport
import Mathlib.Data.List.Basic

/-!
# Declarations at other places

Reading declarations out of a tree whose spans are replaced gives the same declarations with their
spans replaced, if every node keeps its text (`Keeps`).
-/

namespace JakartaCheck

/-! ### Declarations with other spans -/

section Relocation

variable (g : Span → Span)

def TypeRef.relocate (t : TypeRef) : TypeRef := { t with span := g t.span }

def Argument.relocate (a : Argument) : Argument :=
  { a with span := g a.span, valueSpan := g a.valueSpan }

def AnnotationUse.relocate (a : AnnotationUse) : AnnotationUse :=
  { a with
    span := g a.span
    nameSpan := g a.nameSpan
    args := a.args.map (Argument.relocate g)
    argsSpan := a.argsSpan.map g }

def Keyword.relocate (k : Keyword) : Keyword := { k with span := g k.span }

def Modifiers.relocate (m : Modifiers) : Modifiers where
  span := m.span.map g
  keywords := m.keywords.map (Keyword.relocate g)
  annotations := m.annotations.map (AnnotationUse.relocate g)

def Parameter.relocate (p : Parameter) : Parameter :=
  { p with
    span := g p.span
    nameSpan := g p.nameSpan
    modifiers := p.modifiers.relocate g
    type := p.type.relocate g }

def Declarator.relocate (d : Declarator) : Declarator := { d with nameSpan := g d.nameSpan }

def FieldDecl.relocate (f : FieldDecl) : FieldDecl where
  span := g f.span
  modifiers := f.modifiers.relocate g
  type := f.type.relocate g
  declarators := f.declarators.map (Declarator.relocate g)

def MethodDecl.relocate (m : MethodDecl) : MethodDecl :=
  { m with
    span := g m.span
    nameSpan := g m.nameSpan
    modifiers := m.modifiers.relocate g
    typeParamsSpan := m.typeParamsSpan.map g
    returnType := m.returnType.map (TypeRef.relocate g)
    params := m.params.map (Parameter.relocate g)
    paramsSpan := g m.paramsSpan
    throws := m.throws.map (TypeRef.relocate g) }

def TypeDecl.relocate (t : TypeDecl) : TypeDecl :=
  { t with
    nameSpan := g t.nameSpan
    span := g t.span
    bodySpan := g t.bodySpan
    modifiers := t.modifiers.relocate g
    typeParamsSpan := t.typeParamsSpan.map g
    superclass := t.superclass.map (TypeRef.relocate g)
    interfaces := t.interfaces.map (TypeRef.relocate g)
    fields := t.fields.map (FieldDecl.relocate g)
    methods := t.methods.map (MethodDecl.relocate g) }

def ImportDecl.relocate (i : ImportDecl) : ImportDecl := { i with span := g i.span }

def CallArgument.relocate (a : CallArgument) : CallArgument := { a with span := g a.span }

def MethodCall.relocate (c : MethodCall) : MethodCall :=
  { c with
    span := g c.span
    nameSpan := g c.nameSpan
    args := c.args.map (CallArgument.relocate g) }

end Relocation

namespace Java

variable {g : Span → Span} {text text' : String}

/-! ### Nodes and their children -/

namespace Node

@[simp] theorem isNamed_relocate (n : Node) : (n.relocate g).isNamed = n.isNamed := by
  simp only [isNamed, kind_relocate]

theorem filter_relocate {p : Node → Bool} (same : ∀ n : Node, p (n.relocate g) = p n)
    (ns : List Node) : (ns.map (relocate g)).filter p = (ns.filter p).map (relocate g) := by
  rw [List.filter_map]
  congr 1
  exact List.filter_congr fun n _ => same n

theorem find?_relocate {p : Node → Bool} (same : ∀ n : Node, p (n.relocate g) = p n)
    (ns : List Node) : (ns.map (relocate g)).find? p = (ns.find? p).map (relocate g) := by
  rw [List.find?_map, show p ∘ relocate g = p from funext same]

theorem namedChildren_relocate (n : Node) :
    (n.relocate g).namedChildren = n.namedChildren.map (relocate g) := by
  rw [namedChildren, children_relocate, filter_relocate isNamed_relocate, namedChildren]

theorem child?_relocate (n : Node) (f : Field) :
    (n.relocate g).child? f = (n.child? f).map (relocate g) := by
  rw [child?, children_relocate, find?_relocate (fun n => by simp), child?]

theorem childOf?_relocate (n : Node) (f : Form) :
    (n.relocate g).childOf? f = (n.childOf? f).map (relocate g) := by
  rw [childOf?, namedChildren_relocate, find?_relocate (fun n => by simp), childOf?]

end Node

open Node (child?_relocate childOf?_relocate namedChildren_relocate filter_relocate
  find?_relocate)

/-- The texts of the node and of everything in it stay as they are. -/
def Keeps (g : Span → Span) (text text' : String) (n : Node) : Prop :=
  ∀ m ∈ n.preorder, nodeText text' (m.relocate g) = nodeText text m

theorem keeps_mk {kind : Kind} {field : Option Field} {span : Span} {children : List Node} :
    Keeps g text text' (.mk kind field span children) ↔
      nodeText text' ((Node.mk kind field span children).relocate g) =
        nodeText text (.mk kind field span children) ∧
      ∀ c ∈ children, Keeps g text text' c := by
  simp only [Keeps, Node.preorder_mk, List.forall_mem_cons, List.mem_flatMap]
  exact ⟨fun h => ⟨h.1, fun c hc m hm => h.2 m ⟨c, hc, hm⟩⟩,
    fun h => ⟨h.1, fun m ⟨c, hc, hm⟩ => h.2 c hc m hm⟩⟩

theorem Keeps.same {n : Node} (h : Keeps g text text' n) :
    nodeText text' (n.relocate g) = nodeText text n := by
  cases n
  exact (keeps_mk.1 h).1

theorem Keeps.child {n c : Node} (h : Keeps g text text' n) (hc : c ∈ n.children) :
    Keeps g text text' c := by
  cases n
  exact (keeps_mk.1 h).2 c hc

theorem Keeps.namedChild {n c : Node} (h : Keeps g text text' n) (hc : c ∈ n.namedChildren) :
    Keeps g text text' c :=
  h.child (List.mem_filter.1 hc).1

theorem Keeps.child? {n c : Node} {f : Field} (h : Keeps g text text' n)
    (hc : n.child? f = some c) : Keeps g text text' c :=
  h.child (List.mem_of_find?_eq_some hc)

theorem Keeps.childOf? {n c : Node} {f : Form} (h : Keeps g text text' n)
    (hc : n.childOf? f = some c) : Keeps g text text' c :=
  h.namedChild (List.mem_of_find?_eq_some hc)

/-! ### Reading many nodes -/

section Many

variable {α : Type} {r : α → α} {ns : List Node}

theorem map_relocate {f f' : Node → α} (h : ∀ n ∈ ns, f' (n.relocate g) = r (f n)) :
    (ns.map (Node.relocate g)).map f' = (ns.map f).map r := by
  rw [List.map_map, List.map_map]
  exact List.map_congr_left h

theorem filterMap_relocate {f f' : Node → Option α}
    (h : ∀ n ∈ ns, f' (n.relocate g) = (f n).map r) :
    (ns.map (Node.relocate g)).filterMap f' = (ns.filterMap f).map r := by
  rw [List.filterMap_map, List.map_filterMap]
  exact List.filterMap_congr h

theorem flatMap_relocate {f f' : Node → List α}
    (h : ∀ n ∈ ns, f' (n.relocate g) = (f n).map r) :
    (ns.map (Node.relocate g)).flatMap f' = (ns.flatMap f).map r := by
  rw [List.flatMap_map, List.map_flatMap]
  exact List.flatMap_congr h

end Many

/-! ### Types and annotations -/

variable {n : Node}

theorem readTypeRef_relocate (h : Keeps g text text' n) :
    readTypeRef text' (n.relocate g) = (readTypeRef text n).relocate g := by
  simp only [readTypeRef, TypeRef.relocate, h.same, Node.hasForm_relocate, Node.span_relocate]

theorem readTypeRefs_relocate (h : Keeps g text text' n) :
    readTypeRefs text' (n.relocate g) = (readTypeRefs text n).map (TypeRef.relocate g) := by
  rw [readTypeRefs, namedChildren_relocate, filter_relocate (fun n => by simp)]
  exact map_relocate fun c hc =>
    readTypeRef_relocate (h.namedChild (List.mem_filter.1 hc).1)

theorem stringOf?_relocate (h : Keeps g text text' n) :
    stringOf? text' (n.relocate g) = stringOf? text n := by
  simp only [stringOf?, Node.hasForm_relocate, h.same]

theorem readArgument?_relocate (h : Keeps g text text' n) :
    readArgument? text' (n.relocate g) = (readArgument? text n).map (Argument.relocate g) := by
  simp only [readArgument?, Node.isComment_relocate, Node.hasForm_relocate, child?_relocate]
  split
  · rfl
  · split
    · cases hk : n.child? .key with
      | none => rfl
      | some key =>
        cases hv : n.child? .value with
        | none => rfl
        | some value =>
          simp [readArgument, Argument.relocate, (h.child? hk).same, (h.child? hv).same,
            stringOf?_relocate (h.child? hv)]
    · simp [readArgument, Argument.relocate, h.same, stringOf?_relocate h]

theorem readAnnotationUse?_relocate (h : Keeps g text text' n) :
    readAnnotationUse? text' (n.relocate g) =
      (readAnnotationUse? text n).map (AnnotationUse.relocate g) := by
  simp only [readAnnotationUse?, child?_relocate]
  cases hn : n.child? .name with
  | none => rfl
  | some name =>
    cases ha : n.child? .arguments with
    | none => simp [AnnotationUse.relocate, (h.child? hn).same]
    | some args =>
      have eq : (args.namedChildren.map (Node.relocate g)).filterMap (readArgument? text') =
          (args.namedChildren.filterMap (readArgument? text)).map (Argument.relocate g) :=
        filterMap_relocate fun c hc => readArgument?_relocate ((h.child? ha).namedChild hc)
      simp [AnnotationUse.relocate, (h.child? hn).same, namedChildren_relocate, eq]

theorem readModifiers_relocate {n : Option Node} (h : ∀ m ∈ n, Keeps g text text' m) :
    readModifiers text' (n.map (Node.relocate g)) = (readModifiers text n).relocate g := by
  cases n with
  | none => rfl
  | some n =>
    have h := h n rfl
    have keywords : ((n.children.map (Node.relocate g)).filter (!·.isNamed)).map
          (fun token => Keyword.mk (nodeText text' token) token.span) =
        ((n.children.filter (!·.isNamed)).map
          fun token => Keyword.mk (nodeText text token) token.span).map (Keyword.relocate g) := by
      rw [filter_relocate (fun n => by simp)]
      refine map_relocate fun c hc => ?_
      rw [(h.child (List.mem_filter.1 hc).1).same, Node.span_relocate, Keyword.relocate]
    have annotations : ((n.children.map (Node.relocate g)).filter isAnnotationNode).filterMap
          (readAnnotationUse? text') =
        ((n.children.filter isAnnotationNode).filterMap (readAnnotationUse? text)).map
          (AnnotationUse.relocate g) := by
      rw [filter_relocate (fun n => by simp [isAnnotationNode])]
      exact filterMap_relocate fun c hc =>
        readAnnotationUse?_relocate (h.child (List.mem_filter.1 hc).1)
    simp only [Option.map_some, readModifiers, Modifiers.relocate, Node.children_relocate,
      Node.span_relocate, keywords, annotations]

theorem modifiersNode?_relocate (n : Node) :
    modifiersNode? (n.relocate g) = (modifiersNode? n).map (Node.relocate g) := by
  rw [modifiersNode?, child?_relocate, childOf?_relocate, modifiersNode?]
  cases n.child? .modifiers <;> rfl

theorem Keeps.modifiersNode? (h : Keeps g text text' n) :
    ∀ m ∈ modifiersNode? n, Keeps g text text' m := by
  intro m hm
  rw [Java.modifiersNode?] at hm
  cases hc : n.child? .modifiers with
  | none =>
    rw [hc] at hm
    exact h.childOf? hm
  | some c =>
    rw [hc] at hm
    cases hm
    exact h.child? hc

theorem modifiers_relocate (h : Keeps g text text' n) :
    readModifiers text' (modifiersNode? (n.relocate g)) =
      (readModifiers text (modifiersNode? n)).relocate g := by
  rw [modifiersNode?_relocate, readModifiers_relocate h.modifiersNode?]

/-! ### Members -/

theorem readDeclarator?_relocate (h : Keeps g text text' n) :
    readDeclarator? text' (n.relocate g) = (readDeclarator? text n).map (Declarator.relocate g) := by
  simp only [readDeclarator?, Node.hasForm_relocate, child?_relocate]
  split
  · cases hn : n.child? .name with
    | none => rfl
    | some name => simp [Declarator.relocate, (h.child? hn).same]
  · rfl

theorem readField?_relocate (h : Keeps g text text' n) :
    readField? text' (n.relocate g) = (readField? text n).map (FieldDecl.relocate g) := by
  simp only [readField?, child?_relocate]
  cases ht : n.child? .type with
  | none => rfl
  | some type =>
    have declarators : (n.namedChildren.map (Node.relocate g)).filterMap (readDeclarator? text') =
        (n.namedChildren.filterMap (readDeclarator? text)).map (Declarator.relocate g) :=
      filterMap_relocate fun c hc => readDeclarator?_relocate (h.namedChild hc)
    simp [FieldDecl.relocate, modifiers_relocate h, readTypeRef_relocate (h.child? ht),
      namedChildren_relocate, declarators]

theorem readParameterAs_relocate {name : Node} {type : TypeRef} (h : Keeps g text text' n)
    (hn : Keeps g text text' name) :
    readParameterAs text' (n.relocate g) (name.relocate g) (type.relocate g) =
      (readParameterAs text n name type).relocate g := by
  simp [readParameterAs, Parameter.relocate, hn.same, modifiers_relocate h]

theorem readParameter?_relocate (h : Keeps g text text' n) :
    readParameter? text' (n.relocate g) = (readParameter? text n).map (Parameter.relocate g) := by
  simp only [readParameter?, Node.hasForm_relocate, child?_relocate, childOf?_relocate,
    namedChildren_relocate]
  split
  · cases ht : n.child? .type with
    | none => rfl
    | some type =>
      cases hn : n.child? .name with
      | none => rfl
      | some name =>
        simp [readTypeRef_relocate (h.child? ht), readParameterAs_relocate h (h.child? hn)]
  · split
    · rw [find?_relocate (fun n => by simp)]
      cases ht : n.namedChildren.find? _ with
      | none => rfl
      | some type =>
        cases hd : n.childOf? .variableDeclarator with
        | none => rfl
        | some declarator =>
          have keepsType := h.namedChild (List.mem_of_find?_eq_some ht)
          simp only [Option.map_some, Option.bind_eq_bind, Option.bind_some, child?_relocate]
          cases hn : declarator.child? .name with
          | none => rfl
          | some name =>
            simp only [Option.map_some, Option.bind_some, readTypeRef_relocate keepsType]
            rw [← readParameterAs_relocate h ((h.childOf? hd).child? hn)]
            rfl
    · rfl

theorem readMethodAs_relocate {name params : Node} {returnType : Option TypeRef}
    (h : Keeps g text text' n) (hn : Keeps g text text' name) (hp : Keeps g text text' params) :
    readMethodAs text' (n.relocate g) (name.relocate g) (params.relocate g)
        (returnType.map (TypeRef.relocate g)) =
      (readMethodAs text n name params returnType).relocate g := by
  have parameters : (params.namedChildren.map (Node.relocate g)).filterMap
        (readParameter? text') =
      (params.namedChildren.filterMap (readParameter? text)).map (Parameter.relocate g) :=
    filterMap_relocate fun c hc => readParameter?_relocate (hp.namedChild hc)
  have throws : ((n.childOf? .throws).map (Node.relocate g)).map (readTypeRefs text') =
      ((n.childOf? .throws).map (readTypeRefs text)).map (·.map (TypeRef.relocate g)) := by
    cases ht : n.childOf? .throws with
    | none => rfl
    | some clause => simp [readTypeRefs_relocate (h.childOf? ht)]
  simp only [readMethodAs, MethodDecl.relocate, hn.same, modifiers_relocate h, child?_relocate,
    childOf?_relocate, namedChildren_relocate, parameters, throws, Node.span_relocate,
    Option.isNone_map, Option.isSome_map, Option.map_map]
  cases n.childOf? .throws <;> simp [Function.comp_def]

theorem readMethod?_relocate (h : Keeps g text text' n) :
    readMethod? text' (n.relocate g) = (readMethod? text n).map (MethodDecl.relocate g) := by
  simp only [readMethod?, Node.hasForm_relocate, child?_relocate]
  split
  · cases hn : n.child? .name with
    | none => rfl
    | some name =>
      cases hp : n.child? .parameters with
      | none => rfl
      | some params =>
        cases ht : n.child? .type with
        | none => rfl
        | some type =>
          simp only [Option.map_some, Option.bind_eq_bind, Option.bind_some,
            readTypeRef_relocate (h.child? ht)]
          rw [← readMethodAs_relocate h (h.child? hn) (h.child? hp)]
          rfl
  · split
    · cases hn : n.child? .name with
      | none => rfl
      | some name =>
        cases hp : n.child? .parameters with
        | none => rfl
        | some params =>
          simp only [Option.map_some, Option.bind_eq_bind, Option.bind_some]
          rw [← readMethodAs_relocate h (h.child? hn) (h.child? hp)]
          rfl
    · rfl

mutual

theorem members_relocate : ∀ n : Node, members (n.relocate g) = (members n).map (Node.relocate g)
  | .mk kind field span children => by
    rw [Node.relocate_mk, members, members, membersAmong_relocate children]

theorem membersAmong_relocate : ∀ ns : List Node,
    membersAmong (ns.map (Node.relocate g)) = (membersAmong ns).map (Node.relocate g)
  | [] => rfl
  | n :: ns => by
    rw [List.map_cons, membersAmong, membersAmong, Node.hasForm_relocate, members_relocate n,
      membersAmong_relocate ns]
    split
    · rw [List.map_append]
    · rfl

end

mutual

theorem keeps_of_mem_members : ∀ n : Node, Keeps g text text' n →
    ∀ m ∈ members n, Keeps g text text' m
  | .mk kind field span children, h => by
    rw [members]
    exact keeps_of_mem_membersAmong children (keeps_mk.1 h).2

theorem keeps_of_mem_membersAmong : ∀ ns : List Node, (∀ n ∈ ns, Keeps g text text' n) →
    ∀ m ∈ membersAmong ns, Keeps g text text' m
  | [], _ => nofun
  | n :: ns, h => by
    obtain ⟨hn, hns⟩ := List.forall_mem_cons.1 h
    rw [membersAmong]
    intro m hm
    split at hm
    · rcases List.mem_append.1 hm with hm | hm
      · exact keeps_of_mem_members n hn m hm
      · exact keeps_of_mem_membersAmong ns hns m hm
    · rcases List.mem_cons.1 hm with rfl | hm
      · exact hn
      · exact keeps_of_mem_membersAmong ns hns m hm

end

/-! ### Types -/

theorem typeKind?_relocate (n : Node) : typeKind? (n.relocate g) = typeKind? n := by
  simp only [typeKind?, Node.kind_relocate]

theorem interfaceList?_relocate (kind : TypeKind) (n : Node) :
    interfaceList? kind (n.relocate g) = (interfaceList? kind n).map (Node.relocate g) := by
  simp only [interfaceList?, child?_relocate, childOf?_relocate]
  split
  · rfl
  · cases n.child? .interfaces <;> rfl

theorem Keeps.interfaceList? {kind : TypeKind} {clause : Node} (h : Keeps g text text' n)
    (hc : interfaceList? kind n = some clause) : Keeps g text text' clause := by
  rw [Java.interfaceList?.eq_def] at hc
  split at hc
  · exact h.childOf? hc
  · cases hi : n.child? .interfaces with
    | none =>
      rw [hi] at hc
      exact h.childOf? hc
    | some c =>
      rw [hi] at hc
      cases hc
      exact h.child? hi

theorem superclass_relocate (h : Keeps g text text' n) :
    ((((n.child? .superclass).map (Node.relocate g)).bind
        fun clause => clause.namedChildren.head?).map (readTypeRef text')) =
      (((n.child? .superclass).bind fun clause => clause.namedChildren.head?).map
        (readTypeRef text)).map (TypeRef.relocate g) := by
  cases hc : n.child? .superclass with
  | none => rfl
  | some clause =>
    simp only [Option.map_some, Option.bind_some, namedChildren_relocate, List.head?_map]
    cases ht : clause.namedChildren.head? with
    | none => rfl
    | some type =>
      simp [readTypeRef_relocate ((h.child? hc).namedChild (List.mem_of_head? ht))]

theorem interfaces_relocate (kind : TypeKind) (h : Keeps g text text' n) :
    ((((interfaceList? kind n).map (Node.relocate g)).bind
        fun clause => clause.childOf? .typeList).map (readTypeRefs text')).getD [] =
      ((((interfaceList? kind n).bind fun clause => clause.childOf? .typeList).map
        (readTypeRefs text)).getD []).map (TypeRef.relocate g) := by
  cases hc : interfaceList? kind n with
  | none => rfl
  | some clause =>
    simp only [Option.map_some, Option.bind_some, childOf?_relocate]
    cases hl : clause.childOf? .typeList with
    | none => rfl
    | some list => simp [readTypeRefs_relocate ((h.interfaceList? hc).childOf? hl)]

theorem readTypeDecl?_relocate (h : Keeps g text text' n) :
    readTypeDecl? text' (n.relocate g) = (readTypeDecl? text n).map (TypeDecl.relocate g) := by
  simp only [readTypeDecl?, typeKind?_relocate, child?_relocate, interfaceList?_relocate]
  cases hk : typeKind? n with
  | none => rfl
  | some kind =>
    cases hn : n.child? .name with
    | none => rfl
    | some name =>
      cases hb : n.child? .body with
      | none => rfl
      | some body =>
        have keepsMembers := keeps_of_mem_members body (h.child? hb)
        have fields : (((members body).map (Node.relocate g)).filter isFieldNode).filterMap
              (readField? text') =
            (((members body).filter isFieldNode).filterMap (readField? text)).map
              (FieldDecl.relocate g) := by
          rw [filter_relocate (fun n => by simp [isFieldNode])]
          exact filterMap_relocate fun c hc =>
            readField?_relocate (keepsMembers c (List.mem_filter.1 hc).1)
        have methods : ((members body).map (Node.relocate g)).filterMap (readMethod? text') =
            ((members body).filterMap (readMethod? text)).map (MethodDecl.relocate g) :=
          filterMap_relocate fun c hc => readMethod?_relocate (keepsMembers c hc)
        simp only [Option.map_some, Option.bind_eq_bind, Option.bind_some, TypeDecl.relocate,
          (h.child? hn).same, modifiers_relocate h, superclass_relocate h,
          interfaces_relocate kind h, members_relocate, fields, methods, Node.span_relocate,
          Option.map_map, Function.comp_def]

mutual

theorem readTypes_relocate : ∀ n : Node, Keeps g text text' n →
    readTypes text' (n.relocate g) = (readTypes text n).map (TypeDecl.relocate g)
  | .mk kind field span children, h => by
    have decl := readTypeDecl?_relocate h
    rw [Node.relocate_mk] at decl ⊢
    rw [readTypes, readTypes, decl,
      readTypesOfBody_relocate children (keeps_mk.1 h).2]
    cases readTypeDecl? text (.mk kind field span children) <;> rfl

theorem readTypesOfBody_relocate : ∀ ns : List Node, (∀ n ∈ ns, Keeps g text text' n) →
    readTypesOfBody text' (ns.map (Node.relocate g)) =
      (readTypesOfBody text ns).map (TypeDecl.relocate g)
  | [], _ => rfl
  | n :: ns, h => by
    obtain ⟨hn, hns⟩ := List.forall_mem_cons.1 h
    rw [List.map_cons, readTypesOfBody, readTypesOfBody, Node.field_relocate,
      readTypesIn_relocate n hn, readTypesOfBody_relocate ns hns]
    split <;> rfl

theorem readTypesIn_relocate : ∀ n : Node, Keeps g text text' n →
    readTypesIn text' (n.relocate g) = (readTypesIn text n).map (TypeDecl.relocate g)
  | .mk kind field span children, h => by
    rw [Node.relocate_mk, readTypesIn, readTypesIn,
      readTypesAmong_relocate children (keeps_mk.1 h).2]

theorem readTypesAmong_relocate : ∀ ns : List Node, (∀ n ∈ ns, Keeps g text text' n) →
    readTypesAmong text' (ns.map (Node.relocate g)) =
      (readTypesAmong text ns).map (TypeDecl.relocate g)
  | [], _ => rfl
  | n :: ns, h => by
    obtain ⟨hn, hns⟩ := List.forall_mem_cons.1 h
    rw [List.map_cons, readTypesAmong, readTypesAmong, Node.hasForm_relocate,
      readTypesIn_relocate n hn, readTypes_relocate n hn, readTypesAmong_relocate ns hns,
      List.map_append]
    split <;> rfl

end

/-! ### Packages, imports and calls -/

theorem isName_relocate (n : Node) : isName (n.relocate g) = isName n := by
  simp only [isName, Node.hasForm_relocate]

theorem readPackage?_relocate (h : Keeps g text text' n) :
    readPackage? text' (n.relocate g) = readPackage? text n := by
  rw [readPackage?, namedChildren_relocate, find?_relocate isName_relocate, readPackage?]
  cases hn : n.namedChildren.find? isName with
  | none => rfl
  | some name => simp [(h.namedChild (List.mem_of_find?_eq_some hn)).same]

theorem readImport?_relocate (h : Keeps g text text' n) :
    readImport? text' (n.relocate g) = (readImport? text n).map (ImportDecl.relocate g) := by
  simp only [readImport?, Node.hasForm_relocate, Node.children_relocate,
    filter_relocate isName_relocate, List.getLast?_map]
  split
  · cases hn : (n.children.filter isName).getLast? with
    | none => rfl
    | some path =>
      have keepsPath := h.child (List.mem_filter.1 (List.mem_of_getLast? hn)).1
      simp [ImportDecl.relocate, keepsPath.same, List.any_map, Function.comp_def]
  · rfl

theorem readCall?_relocate (h : Keeps g text text' n) :
    readCall? text' (n.relocate g) = (readCall? text n).map (MethodCall.relocate g) := by
  simp only [readCall?, Node.hasForm_relocate, child?_relocate]
  split
  · cases hn : n.child? .name with
    | none => rfl
    | some name =>
      cases ha : n.child? .arguments with
      | none => rfl
      | some args =>
        have receiver : ((n.child? .object).map (Node.relocate g)).map
              (fun object => TypeText.clean (nodeText text' object)) =
            (n.child? .object).map fun object => TypeText.clean (nodeText text object) := by
          cases ho : n.child? .object with
          | none => rfl
          | some object => simp [(h.child? ho).same]
        have arguments : ((args.namedChildren.map (Node.relocate g)).filter (!·.isComment)).map
              (fun arg => CallArgument.mk arg.span (stringOf? text' arg)) =
            ((args.namedChildren.filter (!·.isComment)).map
              fun arg => CallArgument.mk arg.span (stringOf? text arg)).map
                (CallArgument.relocate g) := by
          rw [filter_relocate (fun n => by simp)]
          refine map_relocate fun c hc => ?_
          have keepsArg := (h.child? ha).namedChild (List.mem_filter.1 hc).1
          rw [stringOf?_relocate keepsArg, Node.span_relocate, CallArgument.relocate]
        simp only [Option.map_some, Option.bind_eq_bind, Option.bind_some, MethodCall.relocate,
          receiver, namedChildren_relocate, arguments, (h.child? hn).same, Node.span_relocate]
  · rfl

end Java

end JakartaCheck
