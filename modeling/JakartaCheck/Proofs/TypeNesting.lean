import JakartaCheck.Proofs.DeclarationPlaces
import JakartaCheck.Proofs.ParsedTrees

/-!
# Types nested in types

The types of a unit are the type declarations that are reached in its tree from member to member
(`Node.Declares`), each once, in source order, with enclosing types first. Of two of them the later
one lies behind the earlier one or in its body, apart from its other members
(`CompilationUnit.Mirrors`).
-/

namespace JakartaCheck

open Java

variable {text : String}

/-- At the node a type is declared, or it is a member of the body of such a type, and so on. -/
inductive Java.Node.Declares : Node → Node → Prop
  | here {n : Node} (type : (typeKind? n).isSome) : Declares n n
  | member {n body c m : Node} (type : (typeKind? n).isSome) (hbody : n.child? .body = some body)
      (hc : c ∈ members body) (inner : Declares c m) : Declares n m

/-- The declaration is the one at the node. -/
structure Java.Node.Stands (n : Node) (t : TypeDecl) : Prop where
  kind : typeKind? n = some t.kind
  span : t.span = n.span
  name : ∃ name, n.child? .name = some name ∧ t.nameSpan = name.span
  body : ∃ body, n.child? .body = some body ∧ t.bodySpan = body.span

/-- The types of a unit stand in its text as they do in the tree. -/
structure CompilationUnit.Mirrors (unit : CompilationUnit) (root : Node) : Prop where
  /-- The types are the declarations that can be reached, each once. -/
  declared : ∃ ns : List Node, ns.Nodup ∧ (∀ m, m ∈ ns ↔ ∃ n ∈ root.namedChildren, n.Declares m) ∧
    List.Forall₂ Node.Stands ns unit.types
  /-- What stands in the body of a declaration, nested types included, follows each other inside
  it. -/
  bodies : ∀ n ∈ root.namedChildren, ∀ m body, n.Declares m → m.child? .body = some body →
    Row (members body) ∧ ∀ c ∈ members body, body.span.contains c.span
  /-- They are in source order, enclosing types first. -/
  order : unit.types.Pairwise fun t u =>
    t.span.stop ≤ u.span.start ∨ t.bodySpan.contains u.span
  faithful : ∀ t ∈ unit.types, t.Faithful unit.text root
  /-- The members of a type do not overlap with the types nested in it. -/
  members : ∀ t ∈ unit.types, ∀ u ∈ unit.types, t.bodySpan.contains u.span →
    ∀ s ∈ t.memberSpans, s.Disjoint u.span

namespace Java

variable {n m c : Node}

/-! ### Reaching declarations -/

namespace Node.Declares

theorem isType (h : n.Declares m) : (typeKind? n).isSome := by
  cases h with
  | here type => exact type
  | member type _ _ _ => exact type

theorem placed {place : Span → Bool} (inward : Inward place) (h : n.Declares m)
    (hn : Placed text place n) : Placed text place m := by
  induction h with
  | here => exact hn
  | member type hbody hc _ ih =>
    have body := hn.inner inward (placed_child? hn.concrete hbody)
    exact ih (body.inner inward ((members_placed _ body.concrete).2 _ hc))

theorem mem_preorder (h : n.Declares m) : m ∈ n.preorder := by
  induction h with
  | here => exact Node.mem_preorder_self _
  | member _ hbody hc _ ih =>
    exact Node.mem_preorder_trans ih (Node.mem_preorder_trans (mem_preorder_of_mem_members _ hc)
      (Node.mem_preorder_of_mem_children (List.mem_of_find?_eq_some hbody)))

end Node.Declares

/-- The second declaration is nested in the first. -/
def Node.Surrounds (n m : Node) : Prop :=
  ∃ body c, n.child? .body = some body ∧ c ∈ members body ∧ c.Declares m

/-- The second declaration comes later, behind the first or nested in it. -/
def Node.Precedes (n m : Node) : Prop := n.span.stop ≤ m.span.start ∨ n.Surrounds m

/-! ### Listing declarations -/

theorem stands_of_readTypeDecl? {t : TypeDecl} (read : readTypeDecl? text n = some t) :
    n.Stands t := by
  simp only [readTypeDecl?, Option.bind_eq_bind, Option.bind_eq_some_iff] at read
  obtain ⟨kind, hkind, name, hname, body, hbody, eq⟩ := read
  obtain rfl := Option.some.inj eq
  exact ⟨hkind, rfl, ⟨name, hname, rfl⟩, body, hbody, rfl⟩

/-- `ps` are the nodes of the types that are declared at `tops` and in them, with what is read. -/
structure Listing (text : String) (tops : List Node) (types : List TypeDecl)
    (ps : List (Node × TypeDecl)) : Prop where
  types : ps.map Prod.snd = types
  read : ∀ p ∈ ps, readTypeDecl? text p.1 = some p.2
  nodes : ∀ m, m ∈ ps.map Prod.fst ↔ ∃ n ∈ tops, n.Declares m
  order : ps.Pairwise fun p q => p.1.Precedes q.1

namespace Listing

variable {tops tops' : List Node} {types types' : List TypeDecl} {ps ps' : List (Node × TypeDecl)}
  {p : Node × TypeDecl}

theorem nil : Listing text [] [] [] := ⟨rfl, List.forall_mem_nil _, by simp, .nil⟩

theorem declares (h : Listing text tops types ps) (hp : p ∈ ps) : ∃ n ∈ tops, n.Declares p.1 :=
  (h.nodes p.1).1 (List.mem_map_of_mem hp)

theorem append (h : Listing text tops types ps) (h' : Listing text tops' types' ps')
    (row : Row (tops ++ tops')) (placed : ∀ n ∈ tops ++ tops', Placed text n.span.contains n) :
    Listing text (tops ++ tops') (types ++ types') (ps ++ ps') := by
  refine ⟨by rw [List.map_append, h.types, h'.types], ?_, fun m => ?_, ?_⟩
  · exact fun p hp => (List.mem_append.1 hp).elim (h.read p) (h'.read p)
  · rw [List.map_append, List.mem_append, h.nodes, h'.nodes]
    simp only [List.mem_append, or_and_right, exists_or]
  · refine List.pairwise_append.2 ⟨h.order, h'.order, fun p hp q hq => .inl ?_⟩
    obtain ⟨n, hn, declares⟩ := h.declares hp
    obtain ⟨n', hn', declares'⟩ := h'.declares hq
    have inside := declares.placed (inward_contains _) (placed n (List.mem_append_left _ hn))
    have inside' := declares'.placed (inward_contains _) (placed n' (List.mem_append_right _ hn'))
    have before := (List.pairwise_append.1 row).2.2 n hn n' hn'
    have := (Span.contains_iff.1 inside.placed).2
    have := (Span.contains_iff.1 inside'.placed).1
    omega

theorem none (h : typeKind? n = none) : Listing text [n] [] [] := by
  refine ⟨rfl, List.forall_mem_nil _, fun m => ?_, .nil⟩
  constructor
  · nofun
  · rintro ⟨n', hn', declares⟩
    rw [List.mem_singleton.1 hn'] at declares
    have type := declares.isType
    rw [h] at type
    cases type

theorem decl {body : Node} {t : TypeDecl} (read : readTypeDecl? text n = some t)
    (hbody : n.child? .body = some body) (h : Listing text (members body) types ps) :
    Listing text [n] (t :: types) ((n, t) :: ps) := by
  have type : (typeKind? n).isSome := by
    rw [(stands_of_readTypeDecl? read).kind]
    rfl
  refine ⟨by rw [List.map_cons, h.types], List.forall_mem_cons.2 ⟨read, h.read⟩, fun m => ?_,
    List.pairwise_cons.2 ⟨fun p hp => ?_, h.order⟩⟩
  · rw [List.map_cons, List.mem_cons, h.nodes]
    constructor
    · rintro (rfl | ⟨c, hc, declares⟩)
      · exact ⟨m, List.mem_singleton_self _, .here type⟩
      · exact ⟨n, List.mem_singleton_self _, .member type hbody hc declares⟩
    · rintro ⟨n', hn', declares⟩
      rw [List.mem_singleton.1 hn'] at declares
      cases declares with
      | here => exact .inl rfl
      | member _ hbody' hc declares =>
        obtain rfl := Option.some.inj (hbody.symm.trans hbody')
        exact .inr ⟨_, hc, declares⟩
  · obtain ⟨c, hc, declares⟩ := h.declares hp
    exact .inr ⟨body, c, hbody, hc, declares⟩

end Listing

theorem exists_readTypeDecl?_of_isSome (h : n.Everywhere (Node.Concrete text))
    (type : (typeKind? n).isSome) :
    ∃ t body, readTypeDecl? text n = some t ∧ n.child? .body = some body := by
  obtain ⟨kind, hkind⟩ := Option.isSome_iff_exists.1 type
  obtain ⟨name, body⟩ := h.here.declares type
  obtain ⟨name, hname⟩ := Option.isSome_iff_exists.1 name
  obtain ⟨body, hbody⟩ := Option.isSome_iff_exists.1 body
  simp only [readTypeDecl?, hkind, hname, hbody, Option.bind_eq_bind, Option.bind_some]
  exact ⟨_, body, rfl, rfl⟩

theorem membersAmong_row (ns : List Node) (h : ∀ n ∈ ns, Placed text n.span.contains n)
    (row : Row ns) :
    Row (membersAmong ns) ∧ ∀ m ∈ membersAmong ns, Placed text m.span.contains m := by
  obtain ⟨rowMembers, inside⟩ := membersAmong_placed ns h row
  refine ⟨rowMembers, fun m hm => ?_⟩
  obtain ⟨c, -, placed⟩ := inside m hm
  exact placed.self

mutual

theorem listing_readTypes : ∀ n : Node, n.Everywhere (Node.Concrete text) →
    ∃ ps, Listing text [n] (readTypes text n) ps
  | .mk kind field span children, h => by
    rw [readTypes]
    cases type : typeKind? (.mk kind field span children) with
    | none =>
      have read : readTypeDecl? text (.mk kind field span children) = none := by
        simp [readTypeDecl?, type]
      rw [read]
      exact ⟨_, .none type⟩
    | some k =>
      obtain ⟨t, body, read, hbody⟩ := exists_readTypeDecl?_of_isSome h (by rw [type]; rfl)
      rw [read]
      obtain ⟨ps, listing⟩ := listing_readTypesOfBody children
        (fun c hc => h.child hc) body hbody
      exact ⟨_, .decl read hbody listing⟩

theorem listing_readTypesOfBody : ∀ ns : List Node,
    (∀ n ∈ ns, n.Everywhere (Node.Concrete text)) →
    ∀ body, ns.find? (·.field == some .body) = some body →
      ∃ ps, Listing text (members body) (readTypesOfBody text ns) ps
  | [], _, _, found => by cases found
  | n :: ns, h, body, found => by
    obtain ⟨hn, hns⟩ := List.forall_mem_cons.1 h
    rw [readTypesOfBody]
    split
    · rename_i here
      simp only [List.find?_cons, here, Option.some.injEq] at found
      rw [← found]
      exact listing_readTypesIn n hn
    · rename_i other
      simp only [List.find?_cons, other] at found
      exact listing_readTypesOfBody ns hns body found

theorem listing_readTypesIn : ∀ n : Node, n.Everywhere (Node.Concrete text) →
    ∃ ps, Listing text (members n) (readTypesIn text n) ps
  | .mk kind field span children, h => by
    rw [members, readTypesIn]
    exact listing_readTypesAmong children (fun c hc => (placed_child h hc).self) h.here.ordered

theorem listing_readTypesAmong : ∀ ns : List Node, (∀ n ∈ ns, Placed text n.span.contains n) →
    Row ns → ∃ ps, Listing text (membersAmong ns) (readTypesAmong text ns) ps
  | [], _, _ => ⟨[], .nil⟩
  | n :: ns, h, row => by
    obtain ⟨rowMembers, placed⟩ := membersAmong_row (n :: ns) h row
    obtain ⟨hn, hns⟩ := List.forall_mem_cons.1 h
    obtain ⟨ps', rest⟩ := listing_readTypesAmong ns hns (List.pairwise_cons.1 row).2
    rw [membersAmong] at rowMembers placed ⊢
    rw [readTypesAmong]
    split
    · rename_i inner
      rw [if_pos inner] at rowMembers placed
      obtain ⟨ps, here⟩ := listing_readTypesIn n hn.concrete
      exact ⟨_, here.append rest rowMembers placed⟩
    · rename_i single
      rw [if_neg single] at rowMembers placed
      obtain ⟨ps, here⟩ := listing_readTypes n hn.concrete
      exact ⟨_, here.append rest rowMembers placed⟩

end

/-- The types of nodes that follow each other. -/
theorem listing_flatMap (ns : List Node) (h : ∀ n ∈ ns, Placed text n.span.contains n)
    (row : Row ns) : ∃ ps, Listing text ns (ns.flatMap (readTypes text)) ps := by
  induction ns with
  | nil => exact ⟨[], .nil⟩
  | cons n ns ih =>
    obtain ⟨hn, hns⟩ := List.forall_mem_cons.1 h
    obtain ⟨ps, here⟩ := listing_readTypes n hn.concrete
    obtain ⟨ps', rest⟩ := ih hns (List.pairwise_cons.1 row).2
    rw [List.flatMap_cons]
    exact ⟨_, here.append rest row h⟩

/-- The types of a tree are read at the nodes that declare them. -/
theorem exists_declares_of_mem {root : Node} (h : root.Everywhere (Node.Concrete text))
    {t : TypeDecl} (ht : t ∈ root.namedChildren.flatMap (readTypes text)) :
    ∃ n ∈ root.children, ∃ m, n.Declares m ∧ readTypeDecl? text m = some t := by
  obtain ⟨ps, listing⟩ := listing_flatMap root.namedChildren
    (fun n hn => (placed_namedChild h hn).self) (h.here.ordered.filter Node.isNamed)
  rw [← listing.types] at ht
  obtain ⟨p, hp, rfl⟩ := List.mem_map.1 ht
  obtain ⟨n, hn, declares⟩ := listing.declares hp
  exact ⟨n, (List.mem_filter.1 hn).1, p.1, declares, listing.read p hp⟩

/-! ### Places of listed declarations -/

/-- A type is larger than its body, as its name stands outside. -/
theorem not_contains_body {name body : Node} (h : n.Everywhere (Node.Concrete text))
    (hname : n.child? .name = some name) (hbody : n.child? .body = some body) :
    body.span.contains n.span = false := by
  have ne := ne_of_field (field_of_child? hname) (field_of_child? hbody) (by decide)
  have apart := Row.disjoint h.here.ordered (List.mem_of_find?_eq_some hname)
    (List.mem_of_find?_eq_some hbody) ne
  obtain ⟨fits, inside, -⟩ := placed_child? h hname
  have outside := Span.not_contains_of_disjoint apart (Span.contains_self _) fits.nonempty
  refine Bool.eq_false_iff.2 fun covers => ?_
  rw [Span.contains_trans covers inside] at outside
  cases outside

/-- A type that is nested in another lies in its body. -/
theorem Node.Surrounds.inside (h : n.Surrounds m) (concrete : n.Everywhere (Node.Concrete text))
    {body : Node} (hbody : n.child? .body = some body) :
    ∃ c ∈ members body, c.span.contains m.span ∧ (typeKind? c).isSome ∧
      body.span.contains m.span := by
  obtain ⟨body', c, hbody', hc, declares⟩ := h
  obtain rfl := Option.some.inj (hbody.symm.trans hbody')
  have placed := (members_placed body (placed_child? concrete hbody).concrete).2 c hc
  have inner := declares.placed (inward_contains _) placed.self
  exact ⟨c, hc, inner.placed, declares.isType, Span.contains_trans placed.placed inner.placed⟩

/-- A listed declaration with its node: it cuts a piece out of the text that is larger than its
body. -/
structure Listed (text : String) (root : Node) (p : Node × TypeDecl) : Prop where
  mem : p.1 ∈ root.preorder
  fits : p.1.span.Fits text
  concrete : p.1.Everywhere (Node.Concrete text)
  read : readTypeDecl? text p.1 = some p.2

namespace Listed

variable {root : Node} {p q : Node × TypeDecl}

theorem body (h : Listed text root p) : ∃ body, p.1.child? .body = some body ∧
    p.2.bodySpan = body.span ∧ body.span.contains p.1.span = false := by
  obtain ⟨-, -, ⟨name, hname, -⟩, body, hbody, span⟩ := stands_of_readTypeDecl? h.read
  exact ⟨body, hbody, span, not_contains_body h.concrete hname hbody⟩

theorem span (h : Listed text root p) : p.2.span = p.1.span := (stands_of_readTypeDecl? h.read).span

theorem body_inside (h : Listed text root p) : p.2.span.contains p.2.bodySpan :=
  (readTypeDecl?_faithful h.concrete h.mem h.read).body_inside

/-- The later one lies behind the earlier one or in its body. -/
theorem order (h : Listed text root p) (before : p.1.Precedes q.1) (hq : Listed text root q) :
    p.2.span.stop ≤ q.2.span.start ∨ p.2.bodySpan.contains q.2.span := by
  rw [h.span, hq.span]
  obtain ⟨body, hbody, bodySpan, -⟩ := h.body
  rcases before with behind | surrounds
  · exact .inl behind
  · obtain ⟨-, -, -, -, inside⟩ := surrounds.inside h.concrete hbody
    rw [bodySpan]
    exact .inr inside

theorem ne (h : Listed text root p) (before : p.1.Precedes q.1) : p.1 ≠ q.1 := by
  intro same
  rw [← same] at before
  obtain ⟨body, hbody, -, outside⟩ := h.body
  rcases before with behind | surrounds
  · exact absurd h.fits.nonempty (Nat.not_lt.2 behind)
  · obtain ⟨-, -, -, -, inside⟩ := surrounds.inside h.concrete hbody
    rw [inside] at outside
    cases outside

/-- A type that lies in the body of another is nested in it. -/
theorem surrounds (h : Listed text root p) (hq : Listed text root q)
    (either : p = q ∨ p.1.Precedes q.1 ∨ q.1.Precedes p.1)
    (inside : p.2.bodySpan.contains q.2.span) : p.1.Surrounds q.1 := by
  obtain ⟨body, hbody, bodySpan, outside⟩ := h.body
  have within := Span.contains_trans h.body_inside inside
  rw [bodySpan, hq.span] at inside
  rw [h.span, hq.span] at within
  obtain ⟨start, stop⟩ := Span.contains_iff.1 within
  have nonempty := hq.fits.nonempty
  rcases either with rfl | (behind | surrounds) | (behind | surrounds)
  · rw [inside] at outside
    cases outside
  · omega
  · exact surrounds
  · omega
  · obtain ⟨body', hbody', -, outside'⟩ := hq.body
    obtain ⟨-, -, -, -, inside'⟩ := surrounds.inside hq.concrete hbody'
    rw [Span.contains_trans inside' within] at outside'
    cases outside'

end Listed

theorem Listing.listed {root : Node} {types : List TypeDecl} {ps : List (Node × TypeDecl)}
    {p : Node × TypeDecl} (listing : Listing text root.namedChildren types ps)
    (h : root.Everywhere (Node.Concrete text)) (hp : p ∈ ps) : Listed text root p := by
  obtain ⟨n, hn, declares⟩ := listing.declares hp
  have placed := declares.placed (inward_contains _) (placed_namedChild h hn)
  exact ⟨Node.mem_preorder_trans declares.mem_preorder
    (Node.mem_preorder_of_mem_children (List.mem_filter.1 hn).1), placed.fits, placed.concrete,
    listing.read p hp⟩

end Java

namespace CompilationUnit

variable {unit : CompilationUnit} {root : Node} {ps : List (Node × TypeDecl)}

theorem mirrors_of_listing (h : root.Everywhere (Node.Concrete unit.text))
    (listing : Listing unit.text root.namedChildren unit.types ps) : unit.Mirrors root := by
  have listed : ∀ p ∈ ps, Listed unit.text root p := fun p hp => listing.listed h hp
  have symmetric : Std.Symm fun p q : Node × TypeDecl => p.1.Precedes q.1 ∨ q.1.Precedes p.1 :=
    ⟨fun _ _ => Or.symm⟩
  have either : ∀ p ∈ ps, ∀ q ∈ ps, p = q ∨ p.1.Precedes q.1 ∨ q.1.Precedes p.1 := by
    intro p hp q hq
    by_cases same : p = q
    · exact .inl same
    · have comparable : ps.Pairwise fun p q => p.1.Precedes q.1 ∨ q.1.Precedes p.1 :=
        listing.order.imp .inl
      exact .inr (comparable.forall hp hq same)
  have ofType : ∀ t ∈ unit.types, ∃ p ∈ ps, p.2 = t := by
    intro t ht
    rw [← listing.types] at ht
    exact List.mem_map.1 ht
  refine ⟨⟨ps.map Prod.fst, ?_, listing.nodes, ?_⟩, fun n hn m body declares hbody => ?_,
    ?_, ?_, ?_⟩
  · exact List.pairwise_map.2 (listing.order.imp_of_mem fun hp _ before => (listed _ hp).ne before)
  · rw [← listing.types, List.forall₂_map_left_iff, List.forall₂_map_right_iff, List.forall₂_same]
    exact fun p hp => stands_of_readTypeDecl? (listed p hp).read
  · have placed := declares.placed (inward_contains _) (placed_namedChild h hn)
    obtain ⟨row, inside⟩ := members_placed body (placed_child? placed.concrete hbody).concrete
    exact ⟨row, fun c hc => (inside c hc).placed⟩
  · rw [← listing.types, List.pairwise_map]
    exact listing.order.imp_of_mem fun hp hq before => (listed _ hp).order before (listed _ hq)
  · intro t ht
    obtain ⟨p, hp, rfl⟩ := ofType t ht
    exact readTypeDecl?_faithful (listed p hp).concrete (listed p hp).mem (listed p hp).read
  · intro t ht u hu inside s hs
    obtain ⟨p, hp, rfl⟩ := ofType t ht
    obtain ⟨q, hq, rfl⟩ := ofType u hu
    have surrounds := (listed p hp).surrounds (listed q hq) (either p hp q hq) inside
    obtain ⟨body, hbody, -, -⟩ := (listed p hp).body
    obtain ⟨c, hc, within, type, -⟩ := surrounds.inside (listed p hp).concrete hbody
    obtain ⟨c', hc', notType, rfl⟩ := mem_memberSpans (listed p hp).read hbody hs
    have ne : c' ≠ c := by
      rintro rfl
      rw [notType] at type
      cases type
    have row := (members_placed body (placed_child? (listed p hp).concrete hbody).concrete).1
    rw [(listed q hq).span]
    exact (row.disjoint hc' hc ne).mono (Span.contains_self _) within

/-! ### Bound declarations -/

section Binding

variable {text : String} {place : Span → Bool}

theorem bindModifiers_faithful {m : Modifiers} (h : m.Faithful text place) :
    (unit.bindModifiers m).Faithful text place := by
  refine ⟨h.placed, h.keywords, fun a ha => ?_⟩
  obtain ⟨a, mem, rfl⟩ := List.mem_map.1 ha
  obtain ⟨faithful, inside⟩ := h.annotations a mem
  exact ⟨⟨faithful.name, faithful.name_inside, faithful.args_inside, faithful.args⟩, inside⟩

theorem bindType_faithful {r : TypeRef} (h : r.Faithful text place) :
    (unit.bindType r).Faithful text place :=
  ⟨h.written, h.placed⟩

theorem bindTypes_faithful {rs : List TypeRef} (h : ∀ r ∈ rs, r.Faithful text place) :
    ∀ r ∈ rs.map unit.bindType, r.Faithful text place := by
  intro r hr
  obtain ⟨r, mem, rfl⟩ := List.mem_map.1 hr
  exact bindType_faithful (h r mem)

theorem bindField_faithful {f : FieldDecl} (h : f.Faithful text) :
    (unit.bindField f).Faithful text :=
  ⟨bindModifiers_faithful h.modifiers, bindType_faithful h.type, h.names⟩

theorem bindParameter_faithful {p : Parameter} (h : p.Faithful text root) :
    (unit.bindParameter p).Faithful text root :=
  ⟨h.name, h.name_inside, bindModifiers_faithful h.modifiers, h.type_inside, h.type⟩

theorem bindMethod_faithful {m : MethodDecl} (h : m.Faithful text root) :
    (unit.bindMethod m).Faithful text root := by
  refine ⟨h.name, h.name_inside, bindModifiers_faithful h.modifiers, h.type_params, fun r hr => ?_,
    bindTypes_faithful h.throws, h.params_inside, fun p hp => ?_⟩
  · obtain ⟨r, mem, rfl⟩ := Option.map_eq_some_iff.1 hr
    exact bindType_faithful (h.returns r mem)
  · obtain ⟨p, mem, rfl⟩ := List.mem_map.1 hp
    exact ⟨bindParameter_faithful (h.params p mem).1, (h.params p mem).2⟩

theorem memberSpans_bind (t : TypeDecl) : (unit.bindTypeDecl t).memberSpans = t.memberSpans := by
  simp only [TypeDecl.memberSpans, bindTypeDecl, List.map_map]
  rfl

theorem supertypes_bind (t : TypeDecl) :
    (unit.bindTypeDecl t).supertypes = t.supertypes.map unit.bindType := by
  cases h : t.superclass <;> simp [TypeDecl.supertypes, bindTypeDecl, h]

theorem bindTypeDecl_faithful {t : TypeDecl} (h : t.Faithful text root) :
    (unit.bindTypeDecl t).Faithful text root := by
  refine ⟨h.name, h.name_placed, bindModifiers_faithful h.modifiers, h.type_params, ?_,
    h.body_inside, fun f hf => ?_, fun m hm => ?_, ?_, ?_⟩
  · rw [supertypes_bind]
    exact bindTypes_faithful h.supertypes
  · obtain ⟨f, mem, rfl⟩ := List.mem_map.1 hf
    exact bindField_faithful (h.fields f mem)
  · obtain ⟨m, mem, rfl⟩ := List.mem_map.1 hm
    exact bindMethod_faithful (h.methods m mem)
  · rw [memberSpans_bind]
    exact h.members_inside
  · rw [memberSpans_bind]
    exact h.members_disjoint

end Binding

theorem Mirrors.bind (h : unit.Mirrors root) : unit.bind.Mirrors root := by
  obtain ⟨⟨ns, nodup, nodes, stands⟩, bodies, order, faithful, members⟩ := h
  refine ⟨⟨ns, nodup, nodes, ?_⟩, bodies, List.pairwise_map.2 order, fun t ht => ?_, ?_⟩
  · refine List.forall₂_map_right_iff.2 (stands.imp fun n t here => ?_)
    exact ⟨here.kind, here.span, here.name, here.body⟩
  · obtain ⟨t, mem, rfl⟩ := List.mem_map.1 ht
    exact bindTypeDecl_faithful (faithful t mem)
  · intro t ht u hu inside
    obtain ⟨t, memT, rfl⟩ := List.mem_map.1 ht
    obtain ⟨u, memU, rfl⟩ := List.mem_map.1 hu
    rw [memberSpans_bind]
    exact members t memT u memU inside

/-- The types of a concrete syntax tree and everything in them are read where they stand. -/
theorem ofTree_mirrors (uri : String) {text : String}
    (concrete : root.Everywhere (Node.Concrete text)) :
    (ofTree uri text root).Mirrors root := by
  have placed : ∀ n ∈ root.namedChildren, Placed text n.span.contains n :=
    fun n hn => (placed_namedChild concrete hn).self
  obtain ⟨ps, listing⟩ := listing_flatMap root.namedChildren placed
    (concrete.here.ordered.filter Node.isNamed)
  have unbound : (unboundOfTree uri text root).Mirrors root := mirrors_of_listing concrete listing
  exact unbound.bind

/-- An enumeration among the members of a class, with a method behind its constants. -/
theorem ofTree_mirrors_nested_enum :
    ∃ root, parse "class A { int x; enum E { P; void f(int... a) {} } }" = some root ∧
      ((ofTree "file:///A" "class A { int x; enum E { P; void f(int... a) {} } }" root).types.map
        fun t => (t.name, t.memberSpans.length)) = [("A", 1), ("E", 1)] ∧
      (ofTree "file:///A" "class A { int x; enum E { P; void f(int... a) {} } }" root).Mirrors
        root := by
  have facts : (parse "class A { int x; enum E { P; void f(int... a) {} } }").map (fun root =>
      (ofTree "file:///A" "class A { int x; enum E { P; void f(int... a) {} } }" root).types.map
        fun t => (t.name, t.memberSpans.length)) = some [("A", 1), ("E", 1)] := by
    decide +kernel
  obtain ⟨root, parsed, types⟩ := Option.map_eq_some_iff.1 facts
  have concrete := (shaped_of_parse parsed).imp fun _ h => h.toConcrete
  exact ⟨root, parsed, types, ofTree_mirrors _ concrete⟩

end CompilationUnit

end JakartaCheck
