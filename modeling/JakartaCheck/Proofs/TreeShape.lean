import JakartaCheck.Proofs.AddedImport

/-!
# The shape of syntax trees

What every concrete syntax tree of a Java source has in common: nodes cut pieces out of the text,
children follow each other inside their parent (`Node.Arranged`), comments are leaves
(`Node.Bare`), and a type declaration has a name and a body (`Node.Regular`). Each is said of one
node and asked everywhere in a tree (`Node.Everywhere`).
-/

namespace JakartaCheck.Java

theorem Node.mem_preorder_self (n : Node) : n ∈ n.preorder := by
  cases n
  rw [Node.preorder_mk]
  exact List.mem_cons_self

mutual

theorem mem_preorder_of_mem_members {m : Node} : ∀ n : Node, m ∈ members n → m ∈ n.preorder
  | .mk kind field span children, h => by
    rw [members] at h
    rw [Node.preorder_mk]
    exact List.mem_cons_of_mem _ (mem_preorder_of_mem_membersAmong children h)

theorem mem_preorder_of_mem_membersAmong {m : Node} : ∀ ns : List Node, m ∈ membersAmong ns →
    m ∈ ns.flatMap Node.preorder
  | [], h => by cases h
  | n :: ns, h => by
    rw [membersAmong] at h
    rw [List.flatMap_cons, List.mem_append]
    split at h
    · rcases List.mem_append.1 h with h | h
      · exact .inl (mem_preorder_of_mem_members n h)
      · exact .inr (mem_preorder_of_mem_membersAmong ns h)
    · rcases List.mem_cons.1 h with rfl | h
      · exact .inl (Node.mem_preorder_self _)
      · exact .inr (mem_preorder_of_mem_membersAmong ns h)

end

/-! ### Which children the readers take -/

variable {n c : Node}

theorem field_of_child? {f : Field} (h : n.child? f = some c) : c.field = some f := by
  simpa using List.find?_some h

theorem form_of_childOf? {form : Form} (h : n.childOf? form = some c) :
    c ∈ n.children ∧ c.hasForm form = true :=
  ⟨(List.mem_filter.1 (List.mem_of_find?_eq_some h)).1, by simpa using List.find?_some h⟩

theorem modifiersNode?_cases (h : modifiersNode? n = some c) :
    c ∈ n.children ∧ (c.field = some .modifiers ∨ c.hasForm .modifiers = true) := by
  rw [modifiersNode?] at h
  rcases Option.or_eq_some_iff.1 (Option.orElse_eq_or.symm.trans h) with h | ⟨-, h⟩
  · exact ⟨List.mem_of_find?_eq_some h, .inl (field_of_child? h)⟩
  · exact ⟨(form_of_childOf? h).1, .inr (form_of_childOf? h).2⟩

theorem interfaceList?_cases {kind : TypeKind} (h : interfaceList? kind n = some c) :
    c ∈ n.children ∧ (c.field = some .interfaces ∨
      ∃ form ∈ [Form.superInterfaces, Form.extendsInterfaces], c.hasForm form = true) := by
  rw [interfaceList?.eq_def] at h
  split at h
  · exact ⟨(form_of_childOf? h).1, .inr ⟨_, by simp, (form_of_childOf? h).2⟩⟩
  · rcases Option.or_eq_some_iff.1 (Option.orElse_eq_or.symm.trans h) with h | ⟨-, h⟩
    · exact ⟨List.mem_of_find?_eq_some h, .inl (field_of_child? h)⟩
    · exact ⟨(form_of_childOf? h).1, .inr ⟨_, by simp, (form_of_childOf? h).2⟩⟩

namespace Node

/-- The node and everything in it satisfy `Q`. -/
def Everywhere (Q : Node → Prop) (n : Node) : Prop := ∀ m ∈ n.preorder, Q m

section Everywhere

variable {Q : Node → Prop}

theorem everywhere_mk {kind : Kind} {field : Option Field} {span : Span} {children : List Node} :
    (mk kind field span children).Everywhere Q ↔
      Q (mk kind field span children) ∧ ∀ c ∈ children, c.Everywhere Q := by
  simp only [Everywhere, preorder_mk, List.forall_mem_cons, List.mem_flatMap]
  exact ⟨fun h => ⟨h.1, fun c hc m hm => h.2 m ⟨c, hc, hm⟩⟩,
    fun h => ⟨h.1, fun m ⟨c, hc, hm⟩ => h.2 c hc m hm⟩⟩

theorem Everywhere.here (h : n.Everywhere Q) : Q n := by
  cases n
  exact (everywhere_mk.1 h).1

theorem Everywhere.inner (h : n.Everywhere Q) (hc : c ∈ n.preorder) : c.Everywhere Q :=
  fun m hm => h m (mem_preorder_trans hm hc)

theorem Everywhere.child (h : n.Everywhere Q) (hc : c ∈ n.children) : c.Everywhere Q := by
  cases n
  exact (everywhere_mk.1 h).2 c hc

theorem Everywhere.namedChild (h : n.Everywhere Q) (hc : c ∈ n.namedChildren) : c.Everywhere Q :=
  h.child (List.mem_filter.1 hc).1

theorem Everywhere.child? {f : Field} (h : n.Everywhere Q) (hc : n.child? f = some c) :
    c.Everywhere Q :=
  h.child (List.mem_of_find?_eq_some hc)

theorem Everywhere.childOf? {f : Form} (h : n.Everywhere Q) (hc : n.childOf? f = some c) :
    c.Everywhere Q :=
  h.namedChild (List.mem_of_find?_eq_some hc)

theorem Everywhere.member (h : n.Everywhere Q) (hc : c ∈ members n) : c.Everywhere Q :=
  h.inner (mem_preorder_of_mem_members n hc)

theorem Everywhere.imp {R : Node → Prop} (hqr : ∀ m, Q m → R m) (h : n.Everywhere Q) :
    n.Everywhere R :=
  fun m hm => hqr m (h m hm)

end Everywhere

theorem isComment_iff {n : Node} :
    n.isComment = true ↔ n.kind = .form .lineComment ∨ n.kind = .form .blockComment := by
  simp [isComment, hasForm]

/-- A comment is a leaf, and its parent does not refer to it by a name. -/
def Bare (n : Node) : Prop := n.isComment = true → n.field = none ∧ n.children = []

/-- The children cut pieces out of the text; they follow each other inside the node. -/
structure Arranged (text : String) (n : Node) : Prop where
  fits : ∀ c ∈ n.children, c.span.Fits text
  inside : ∀ c ∈ n.children, n.span.contains c.span
  ordered : n.children.Pairwise fun a b => a.span.stop ≤ b.span.start

/-- The parts of a type that are found by their form. -/
def clauseForms : List Form := [.modifiers, .superInterfaces, .extendsInterfaces]

/-- A type declaration has a name and a body, and a body is none of the other parts of a type. -/
structure Regular (n : Node) : Prop where
  declares : (typeKind? n).isSome → (n.child? .name).isSome ∧ (n.child? .body).isSome
  body : n.field = some .body → ∀ form ∈ clauseForms, n.hasForm form = false

/-- A node as concrete syntax trees have it, whatever its comments look like. -/
structure Concrete (text : String) (n : Node) : Prop extends n.Arranged text, n.Regular

/-- A node as it stands in the tree of a source. -/
structure Shaped (text : String) (n : Node) : Prop extends n.Concrete text where
  bare : n.Bare

end Node

end JakartaCheck.Java
