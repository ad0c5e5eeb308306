import JakartaCheck.Proofs.DraftedEdits
import JakartaCheck.Proofs.NameBinding
import JakartaCheck.Proofs.SourceInsertion
import JakartaCheck.Proofs.TreeWalk

/-!
# Importing a name into a source

`Imports.importEdit?` puts a new import behind another one, behind the package or in front of the
first type. The edited source declares what it declared before, a little further down, and one import
more (`Imports.Adds`). Since a new import is there to bind a name, names that begin with the simple
name of the imported type may be bound to it now, and all other names stay bound as they were.
-/

namespace JakartaCheck

/-- What starts at an offset or behind it moves. -/
def Span.moveFrom (offset δ : Nat) (s : Span) : Span :=
  if offset ≤ s.start then s.shift δ else s

/-- The span lies on one side of an offset. -/
def Span.Parted (offset : Nat) (s : Span) : Prop :=
  (s.start < offset ∧ s.stop ≤ offset) ∨ (offset ≤ s.start ∧ offset < s.stop)

/-- Spans on one side of the offset move together, and of two on different sides none lies in the
other. -/
theorem Span.contains_moveFrom {offset δ : Nat} {s t : Span} (hs : s.Parted offset)
    (ht : t.Parted offset) :
    (s.moveFrom offset δ).contains (t.moveFrom offset δ) = s.contains t := by
  rw [Bool.eq_iff_iff, Span.contains_iff, Span.contains_iff]
  unfold Span.moveFrom Span.shift
  rcases hs with hs | hs <;> rcases ht with ht | ht
  · rw [if_neg (by omega), if_neg (by omega)]
  · rw [if_neg (by omega), if_pos ht.1]
    dsimp only
    omega
  · rw [if_pos hs.1, if_neg (by omega)]
    dsimp only
    omega
  · rw [if_pos hs.1, if_pos ht.1]
    dsimp only
    omega

theorem Text.slice?_append_left {a b : List Char} {start stop : Nat}
    (h : stop ≤ Text.byteLen a) :
    Text.slice? (String.ofList (a ++ b)) start stop = Text.slice? (String.ofList a) start stop := by
  ext piece
  simp only [Text.slice?_eq_some_iff, String.toList_ofList]
  constructor
  · rintro ⟨x, y, eq, hx, hlen⟩
    obtain ⟨m, rfl, -⟩ := Text.exists_append_of_byteLen_le eq.symm
      (by rw [Text.byteLen_append, ← Text.length_eq]; omega)
    exact ⟨x, m, rfl, hx, hlen⟩
  · rintro ⟨x, y, rfl, hx, hlen⟩
    exact ⟨x, y ++ b, by simp, hx, hlen⟩

namespace Java

theorem Node.preorder_relocate (g : Span → Span) (n : Node) :
    (n.relocate g).preorder = n.preorder.map (Node.relocate g) := by
  cases n with
  | mk kind field span children =>
    have nested : ∀ c ∈ children, (c.relocate g).preorder = c.preorder.map (Node.relocate g) :=
      fun c _ => preorder_relocate g c
    rw [Node.relocate_mk, Node.preorder_mk, Node.preorder_mk, List.map_cons, Node.relocate_mk,
      List.flatMap_map, List.map_flatMap]
    congr 1
    exact List.flatMap_congr nested

/-! ### Nodes on both sides of the new import -/

section Sides

variable {text text' : String} {a b ins : List Char} {n : Node}

theorem keeps_front (eq : text.toList = a ++ b) (eq' : text'.toList = a ++ (ins ++ b))
    (h : n.Within fun s => s.start < Text.byteLen a ∧ s.stop ≤ Text.byteLen a) :
    Keeps (Span.moveFrom (Text.byteLen a) (Text.byteLen ins)) text text' n := by
  intro m hm
  obtain ⟨start, stop⟩ := h m hm
  have stays : Span.moveFrom (Text.byteLen a) (Text.byteLen ins) m.span = m.span := by
    unfold Span.moveFrom
    rw [if_neg (by omega)]
  unfold nodeText
  rw [Node.span_relocate, stays, ← String.ofList_toList (s := text), eq,
    ← String.ofList_toList (s := text'), eq', Text.slice?_append_left stop,
    Text.slice?_append_left stop]

theorem keeps_back (eq : text.toList = a ++ b) (eq' : text'.toList = a ++ (ins ++ b))
    (h : n.Within fun s => Text.byteLen a ≤ s.start ∧ Text.byteLen a < s.stop) :
    Keeps (Span.moveFrom (Text.byteLen a) (Text.byteLen ins)) text text' n := by
  intro m hm
  obtain ⟨start, stop⟩ := h m hm
  have moves : Span.moveFrom (Text.byteLen a) (Text.byteLen ins) m.span =
      m.span.shift (Text.byteLen ins) := by
    unfold Span.moveFrom
    rw [if_pos start]
  obtain ⟨i, hi⟩ : ∃ i, m.span.start = Text.byteLen a + i := ⟨_, (Nat.add_sub_of_le start).symm⟩
  obtain ⟨j, hj⟩ : ∃ j, m.span.stop = Text.byteLen a + j :=
    ⟨_, (Nat.add_sub_of_le (Nat.le_of_lt stop)).symm⟩
  have before := Text.slice?_append a b i j
  have behind := Text.slice?_append (a ++ ins) b i j
  unfold nodeText
  rw [Node.span_relocate, moves, ← String.ofList_toList (s := text), eq,
    ← String.ofList_toList (s := text'), eq', hi, hj, before, ← behind, List.append_assoc,
    Text.byteLen_append]
  unfold Span.shift
  dsimp only
  rw [hi, hj]
  congr 2 <;> omega

theorem Divides.parted {offset : Nat} {front back : List Node} (h : Divides offset front back) :
    ∀ n ∈ front ++ back, n.Within (Span.Parted offset) := by
  intro n hn
  rcases List.mem_append.1 hn with hn | hn
  · exact (h.front n hn).imp fun _ => .inl
  · exact (h.back n hn).imp fun _ => .inr

theorem relocate_back {offset δ : Nat} (h : n.Within fun s => offset ≤ s.start ∧ offset < s.stop) :
    n.relocate (Span.shift δ) = n.relocate (Span.moveFrom offset δ) := by
  refine Node.relocate_congr n (h.imp fun s hs => ?_)
  unfold Span.moveFrom
  rw [if_pos hs.1]

theorem relocate_front {offset δ : Nat} (h : n.Within fun s => s.start < offset ∧ s.stop ≤ offset) :
    n = n.relocate (Span.moveFrom offset δ) := by
  refine (Node.relocate_id n (h.imp fun s hs => ?_)).symm
  unfold Span.moveFrom
  rw [if_neg (by omega)]

end Sides

/-! ### What the node of the new import says -/

section NewNode

variable {text : String} {pos : Nat} {name : Span} {n : Node}

theorem ImportedAt.hasForm (h : ImportedAt pos name n) (f : Form) :
    n.hasForm f = (f == .importDeclaration) := by
  unfold Node.hasForm
  rw [h.kind, Bool.eq_iff_iff, beq_iff_eq, beq_iff_eq, Kind.form.injEq, eq_comm]

theorem ImportedAt.isNamed (h : ImportedAt pos name n) : n.isNamed = true := by
  unfold Node.isNamed
  rw [h.kind]

theorem ImportedAt.noTypes (h : ImportedAt pos name n) : readTypes text n = [] := by
  obtain ⟨kind, field, span, children⟩ := n
  obtain rfl : kind = .form .importDeclaration := h.kind
  rfl

theorem ImportedAt.noCalls (h : ImportedAt pos name n) :
    n.preorder.filterMap (readCall? text) = [] := by
  have other : ∀ m : Node, m.hasForm .methodInvocation = false → readCall? text m = none := by
    intro m hm
    unfold readCall?
    rw [hm]
    rfl
  obtain ⟨path, named, children⟩ := h.children
  obtain ⟨kind, field, span, ns⟩ := n
  obtain rfl : kind = .form .importDeclaration := h.kind
  obtain rfl : ns = _ := children
  refine List.filterMap_eq_nil_iff.2 fun m hm => other m ?_
  simp only [Node.preorder_mk, List.flatMap_cons, List.flatMap_nil, List.mem_cons, List.mem_append,
    List.not_mem_nil, or_false] at hm
  rcases hm with rfl | rfl | hm | rfl
  · rfl
  · rfl
  · exact named.noCall m hm
  · rfl

theorem ImportedAt.reads (h : ImportedAt pos name n) {fqn : String} (dotted : isDottedName fqn)
    (written : Text.slice? text name.start name.stop = some fqn) :
    readImport? text n = some ⟨fqn, false, false, n.span⟩ := by
  obtain ⟨path, named, children⟩ := h.children
  have form : path.kind = .form .identifier ∨ path.kind = .form .scopedIdentifier := by
    simpa [isName, Node.hasForm] using named.form
  have names : n.children.filter isName = [path] := by
    rw [children, List.filter_cons_of_neg (by simp [isName, Node.hasForm, Node.kind]),
      List.filter_cons_of_pos named.form,
      List.filter_cons_of_neg (by simp [isName, Node.hasForm, Node.kind]), List.filter_nil]
  have spelled : nodeText text path = fqn := by
    unfold nodeText
    rw [named.place, written]
    rfl
  have notStatic : n.children.any (·.kind == .token "static") = false := by
    rw [children]
    rcases form with form | form
    all_goals
      simp only [List.any_cons, List.any_nil, form]
      rfl
  have noWildcard : n.children.any (·.hasForm .asterisk) = false := by
    rw [children]
    rcases form with form | form
    all_goals
      simp only [List.any_cons, List.any_nil, Node.hasForm, form]
      rfl
  unfold readImport?
  rw [h.hasForm, if_pos (by rfl), names, notStatic, noWildcard]
  simp [spelled, clean_eq_self dotted]

end NewNode

/-! ### Types inside a tree -/

mutual

theorem mem_readTypes {text : String} {t : TypeDecl} : ∀ n : Node, t ∈ readTypes text n →
    ∃ m ∈ n.preorder, readTypeDecl? text m = some t
  | .mk kind field span children, h => by
    rw [readTypes] at h
    rw [Node.preorder_mk]
    cases decl : readTypeDecl? text (.mk kind field span children) with
    | none =>
      rw [decl] at h
      cases h
    | some d =>
      rw [decl] at h
      rcases List.mem_cons.1 h with rfl | h
      · exact ⟨_, List.mem_cons_self, decl⟩
      · obtain ⟨c, hc, m, hm, hd⟩ := mem_readTypesOfBody children h
        exact ⟨m, List.mem_cons_of_mem _ (List.mem_flatMap.2 ⟨c, hc, hm⟩), hd⟩

theorem mem_readTypesOfBody {text : String} {t : TypeDecl} : ∀ ns : List Node,
    t ∈ readTypesOfBody text ns → ∃ n ∈ ns, ∃ m ∈ n.preorder, readTypeDecl? text m = some t
  | [], h => by cases h
  | n :: ns, h => by
    rw [readTypesOfBody] at h
    split at h
    · exact ⟨n, List.mem_cons_self, mem_readTypesIn n h⟩
    · obtain ⟨c, hc, found⟩ := mem_readTypesOfBody ns h
      exact ⟨c, List.mem_cons_of_mem _ hc, found⟩

theorem mem_readTypesIn {text : String} {t : TypeDecl} : ∀ n : Node, t ∈ readTypesIn text n →
    ∃ m ∈ n.preorder, readTypeDecl? text m = some t
  | .mk kind field span children, h => by
    rw [readTypesIn] at h
    rw [Node.preorder_mk]
    obtain ⟨c, hc, m, hm, hd⟩ := mem_readTypesAmong children h
    exact ⟨m, List.mem_cons_of_mem _ (List.mem_flatMap.2 ⟨c, hc, hm⟩), hd⟩

theorem mem_readTypesAmong {text : String} {t : TypeDecl} : ∀ ns : List Node,
    t ∈ readTypesAmong text ns → ∃ n ∈ ns, ∃ m ∈ n.preorder, readTypeDecl? text m = some t
  | [], h => by cases h
  | n :: ns, h => by
    rw [readTypesAmong] at h
    rcases List.mem_append.1 h with h | h
    · refine ⟨n, List.mem_cons_self, ?_⟩
      split at h
      · exact mem_readTypesIn n h
      · exact mem_readTypes n h
    · obtain ⟨c, hc, found⟩ := mem_readTypesAmong ns h
      exact ⟨c, List.mem_cons_of_mem _ hc, found⟩

end

theorem readTypeDecl?_places {text : String} {n : Node} {t : TypeDecl}
    (h : readTypeDecl? text n = some t) :
    t.span = n.span ∧ ∃ body ∈ n.children, t.bodySpan = body.span := by
  simp only [readTypeDecl?, Option.bind_eq_bind, Option.bind_eq_some_iff] at h
  obtain ⟨kind, -, name, -, body, hbody, eq⟩ := h
  obtain rfl := Option.some.inj eq
  exact ⟨rfl, body, List.mem_of_find?_eq_some hbody, rfl⟩

theorem Node.mem_preorder_of_mem_children {n c : Node} (h : c ∈ n.children) : c ∈ n.preorder := by
  obtain ⟨kind, field, span, children⟩ := n
  obtain ⟨kind', field', span', children'⟩ := c
  rw [Node.preorder_mk]
  refine List.mem_cons_of_mem _ (List.mem_flatMap.2 ⟨_, h, ?_⟩)
  rw [Node.preorder_mk]
  exact List.mem_cons_self

theorem Node.mem_preorder_trans {m k : Node} (hk : k ∈ m.preorder) : ∀ {n : Node},
    m ∈ n.preorder → k ∈ n.preorder
  | .mk kind field span children, hm => by
    rw [Node.preorder_mk] at hm ⊢
    rcases List.mem_cons.1 hm with rfl | hm
    · rwa [Node.preorder_mk] at hk
    · obtain ⟨c, hc, hm⟩ := List.mem_flatMap.1 hm
      exact List.mem_cons_of_mem _ (List.mem_flatMap.2 ⟨c, hc, mem_preorder_trans hk hm⟩)

/-- The declared types lie where the nodes of the tree do. -/
theorem readTypes_places {text : String} {n : Node} {Q : Span → Prop} (h : n.Within Q) {t : TypeDecl}
    (ht : t ∈ readTypes text n) : Q t.span ∧ Q t.bodySpan := by
  obtain ⟨m, hm, decl⟩ := mem_readTypes n ht
  obtain ⟨span, body, hbody, bodySpan⟩ := readTypeDecl?_places decl
  rw [span, bodySpan]
  exact ⟨h m hm, h body (Node.mem_preorder_trans (Node.mem_preorder_of_mem_children hbody) hm)⟩

/-! ### The declarations of the tree with the new import -/

section Tree

variable {uri text text' : String} {g : Span → Span} {front back : List Node} {new : Node}
  {pos : Nat} {name : Span}

/-- The tree of `front ++ back` with a node in between, and the other nodes moved. -/
def treeWith (place : Span) (g : Span → Span) (front back : List Node) (new : Node) : Node :=
  programOf place (front.map (Node.relocate g) ++ new :: back.map (Node.relocate g))

theorem namedChildren_treeWith {place : Span} (named : new.isNamed = true) :
    (treeWith place g front back new).namedChildren =
      (front.filter Node.isNamed).map (Node.relocate g) ++
        new :: (back.filter Node.isNamed).map (Node.relocate g) := by
  show List.filter _ (_ ++ _) = _
  rw [List.filter_append, List.filter_cons_of_pos named,
    Node.filter_relocate Node.isNamed_relocate, Node.filter_relocate Node.isNamed_relocate]

theorem namedChildren_programOf (place : Span) (front back : List Node) :
    (programOf place (front ++ back)).namedChildren =
      front.filter Node.isNamed ++ back.filter Node.isNamed :=
  List.filter_append ..

variable (place place' : Span) (keeps : ∀ n ∈ front ++ back, Keeps g text text' n)
  (imported : ImportedAt pos name new)

include keeps imported

theorem package_treeWith :
    packageOf? text' (treeWith place' g front back new) =
      packageOf? text (programOf place (front ++ back)) := by
  have keepsNamed : ∀ n ∈ (programOf place (front ++ back)).namedChildren, Keeps g text text' n :=
    fun n hn => keeps n (List.mem_filter.1 hn).1
  have filtered : (treeWith place' g front back new).namedChildren.filter
        (·.hasForm .packageDeclaration) =
      ((programOf place (front ++ back)).namedChildren.filter
        (·.hasForm .packageDeclaration)).map (Node.relocate g) := by
    rw [namedChildren_treeWith imported.isNamed, namedChildren_programOf, List.filter_append,
      List.filter_append, List.map_append, List.filter_cons_of_neg (by rw [imported.hasForm]; decide)]
    have same : ∀ n : Node, (n.relocate g).hasForm .packageDeclaration =
        n.hasForm .packageDeclaration := fun n => Node.hasForm_relocate n _
    rw [Node.filter_relocate same, Node.filter_relocate same]
  unfold packageOf?
  rw [filtered, List.getLast?_map]
  cases last : ((programOf place (front ++ back)).namedChildren.filter
      (·.hasForm .packageDeclaration)).getLast? with
  | none => rfl
  | some n =>
    have mem := (List.mem_filter.1 (List.mem_of_getLast? last)).1
    exact readPackage?_relocate (keepsNamed n mem)

theorem imports_treeWith {fqn : String} (dotted : isDottedName fqn)
    (written : Text.slice? text' name.start name.stop = some fqn) :
    (treeWith place' g front back new).namedChildren.filterMap (readImport? text') =
      ((front.filter Node.isNamed).filterMap (readImport? text)).map (ImportDecl.relocate g) ++
        ⟨fqn, false, false, new.span⟩ ::
          ((back.filter Node.isNamed).filterMap (readImport? text)).map (ImportDecl.relocate g) := by
  have moved : ∀ ns : List Node, (∀ n ∈ ns, Keeps g text text' n) →
      ((ns.filter Node.isNamed).map (Node.relocate g)).filterMap (readImport? text') =
        ((ns.filter Node.isNamed).filterMap (readImport? text)).map (ImportDecl.relocate g) :=
    fun ns h => filterMap_relocate fun n hn => readImport?_relocate (h n (List.mem_filter.1 hn).1)
  rw [namedChildren_treeWith imported.isNamed, List.filterMap_append, List.filterMap_cons,
    imported.reads dotted written, moved front fun n hn => keeps n (List.mem_append_left _ hn),
    moved back fun n hn => keeps n (List.mem_append_right _ hn)]

theorem types_treeWith :
    (treeWith place' g front back new).namedChildren.flatMap (readTypes text') =
      ((programOf place (front ++ back)).namedChildren.flatMap (readTypes text)).map
        (TypeDecl.relocate g) := by
  have moved : ∀ ns : List Node, (∀ n ∈ ns, Keeps g text text' n) →
      ((ns.filter Node.isNamed).map (Node.relocate g)).flatMap (readTypes text') =
        ((ns.filter Node.isNamed).flatMap (readTypes text)).map (TypeDecl.relocate g) :=
    fun ns h => flatMap_relocate fun n hn => readTypes_relocate n (h n (List.mem_filter.1 hn).1)
  rw [namedChildren_treeWith imported.isNamed, namedChildren_programOf, List.flatMap_append,
    List.flatMap_append, List.flatMap_cons, imported.noTypes, List.map_append, List.nil_append,
    moved front fun n hn => keeps n (List.mem_append_left _ hn),
    moved back fun n hn => keeps n (List.mem_append_right _ hn)]

theorem calls_treeWith :
    (treeWith place' g front back new).preorder.filterMap (readCall? text') =
      ((programOf place (front ++ back)).preorder.filterMap (readCall? text)).map
        (MethodCall.relocate g) := by
  have moved : ∀ ns : List Node, (∀ n ∈ ns, Keeps g text text' n) →
      ((ns.map (Node.relocate g)).flatMap Node.preorder).filterMap (readCall? text') =
        ((ns.flatMap Node.preorder).filterMap (readCall? text)).map (MethodCall.relocate g) := by
    intro ns h
    have eq : (ns.map (Node.relocate g)).flatMap Node.preorder =
        (ns.flatMap Node.preorder).map (Node.relocate g) := by
      rw [List.flatMap_map, List.map_flatMap]
      exact List.flatMap_congr fun n _ => Node.preorder_relocate g n
    rw [eq]
    refine filterMap_relocate fun m hm => ?_
    obtain ⟨n, hn, hm⟩ := List.mem_flatMap.1 hm
    exact readCall?_relocate fun k hk => h n hn k (Node.mem_preorder_trans hk hm)
  have inside : ∀ (t : String) (s : Span) (ns : List Node),
      (programOf s ns).preorder.filterMap (readCall? t) =
        (ns.flatMap Node.preorder).filterMap (readCall? t) := by
    intro t s ns
    unfold programOf
    rw [Node.preorder_mk, List.filterMap_cons]
    rfl
  unfold treeWith
  rw [inside, inside, List.flatMap_append, List.flatMap_append, List.flatMap_cons,
    List.filterMap_append, List.filterMap_append, List.filterMap_append, imported.noCalls,
    List.nil_append, List.map_append, moved front fun n hn => keeps n (List.mem_append_left _ hn),
    moved back fun n hn => keeps n (List.mem_append_right _ hn)]

end Tree

end Java

namespace Imports

open CompilationUnit Java

/-! ### Units with one import more -/

/-- `unit'` declares what `unit` does, moved by `g`, and imports `fqn` in addition. The simple name of
`fqn` is bound to it, and other names are bound as before. -/
structure Adds (unit unit' : CompilationUnit) (fqn : String) (g : Span → Span) : Prop where
  uri : unit'.uri = unit.uri
  package : unit'.package = unit.package
  imports : ∃ before after span, unit.imports = before ++ after ∧
    unit'.imports = before.map (ImportDecl.relocate g) ++
      ⟨fqn, false, false, span⟩ :: after.map (ImportDecl.relocate g)
  types : unit'.types = (unit.types.map (TypeDecl.relocate g)).map unit'.bindTypeDecl
  calls : unit'.calls = unit.calls.map (MethodCall.relocate g)
  bound : unit'.resolve? (TypeText.lastName fqn) = some fqn
  others : ∀ written, leadingName written ≠ TypeText.lastName fqn →
    unit'.resolve? written = unit.resolve? written

/-- An import behind which all imports are static binds its simple name, and no other. -/
theorem importedAs?_added {unit unit' : CompilationUnit} {fqn : String} {g : Span → Span}
    {span : Span} {before after : List ImportDecl} (old : unit.imports = before ++ after)
    (new : unit'.imports = before.map (ImportDecl.relocate g) ++
      ⟨fqn, false, false, span⟩ :: after.map (ImportDecl.relocate g))
    (static : ∀ i ∈ after, i.isStatic = true) (simple : String) :
    unit'.importedAs? simple =
      if simple = TypeText.lastName fqn then some fqn else unit.importedAs? simple := by
  have behind : after.reverse.filter (fun i => !i.isStatic && !i.isWildcard) = [] := by
    refine List.filter_eq_nil_iff.2 fun i hi => ?_
    simp [static i (List.mem_reverse.1 hi)]
  have behind' : (after.map (ImportDecl.relocate g)).reverse.filter
      (fun i => !i.isStatic && !i.isWildcard) = [] := by
    rw [← List.map_reverse, List.filter_map]
    exact List.map_eq_nil_iff.2 behind
  unfold importedAs?
  rw [old, new, List.reverse_append, List.reverse_append, List.reverse_cons, List.filter_append,
    List.filter_append, List.filter_append, behind, behind', List.nil_append, List.nil_append,
    ← List.map_reverse, List.filter_map, List.find?_append, List.find?_map, Option.map_or,
    Option.map_map]
  have alone : ([⟨fqn, false, false, span⟩].filter fun i : ImportDecl =>
        !i.isStatic && !i.isWildcard).find? (fun i => TypeText.lastName i.path == simple) =
      if simple = TypeText.lastName fqn then some ⟨fqn, false, false, span⟩ else none := by
    rw [List.filter_cons_of_pos (by rfl), List.filter_nil, List.find?_cons, List.find?_nil]
    by_cases same : simple = TypeText.lastName fqn
    · rw [if_pos same, same, beq_self_eq_true]
    · rw [if_neg same, beq_false_of_ne (Ne.symm same)]
  rw [alone]
  split
  · rfl
  · rfl

theorem slice?_importText {text fqn : String} {a b first : List Char} {parts : List (List Char)}
    (spelled : fqn.toList = first ++ parts.flatMap ('.' :: ·))
    (eq : text.toList = a ++ (importText first parts ++ b)) :
    Text.slice? text (importedName (Text.byteLen a) first parts).start
      (importedName (Text.byteLen a) first parts).stop = some fqn := by
  have heading : Text.byteLen "import ".toList = 7 := by decide
  unfold importText at eq
  generalize "import ".toList = word at heading eq
  have split : text.toList = (a ++ word) ++ fqn.toList ++ (';' :: b) := by
    rw [eq, spelled]
    simp
  rw [Text.slice?_eq_some_iff]
  refine ⟨a ++ word, ';' :: b, split, ?_, ?_⟩
  · rw [Text.byteLen_append, heading]
    rfl
  · rw [Text.length_eq, spelled]
    rfl

theorem readImport?_place {text : String} {n : Node} {i : ImportDecl}
    (h : readImport? text n = some i) : n.kind = .form .importDeclaration ∧ i.span = n.span := by
  unfold readImport? at h
  split at h
  · rename_i form
    obtain ⟨path, -, rfl⟩ := Option.map_eq_some_iff.1 h
    exact ⟨by simpa [Node.hasForm] using form, rfl⟩
  · cases h

theorem imports_programOf (uri text : String) (place : Span) (front back : List Node) :
    (ofTree uri text (programOf place (front ++ back))).imports =
      (front.filter Node.isNamed).filterMap (readImport? text) ++
        (back.filter Node.isNamed).filterMap (readImport? text) := by
  show List.filterMap _ _ = _
  rw [namedChildren_programOf, List.filterMap_append]

/-- A tree with a new import gives a unit with a new import. -/
theorem adds_of_treeWith {uri text text' fqn : String} {place place' : Span} {g : Span → Span}
    {front back : List Node} {new : Node} {pos : Nat} {name : Span}
    (keeps : ∀ n ∈ front ++ back, Keeps g text text' n)
    (imported : ImportedAt pos name new) (dotted : isDottedName fqn)
    (written : Text.slice? text' name.start name.stop = some fqn)
    (static : ∀ n ∈ back, ∀ i, readImport? text n = some i → i.isStatic = true)
    (nested : ∀ t ∈ (unboundOfTree uri text (programOf place (front ++ back))).types,
      ∀ u ∈ (unboundOfTree uri text (programOf place (front ++ back))).types,
        (g t.bodySpan).contains (g u.span) = t.bodySpan.contains u.span) :
    Adds (ofTree uri text (programOf place (front ++ back)))
      (ofTree uri text' (treeWith place' g front back new)) fqn g := by
  have package := package_treeWith place place' keeps imported
  have imports := imports_treeWith place' keeps imported dotted written
  have types := types_treeWith place place' keeps imported
  have calls := calls_treeWith place place' keeps imported
  have old := imports_programOf uri text place front back
  change (unboundOfTree uri text (programOf place (front ++ back))).imports = _ at old
  have behind : ∀ i ∈ (back.filter Node.isNamed).filterMap (readImport? text), i.isStatic = true := by
    intro i hi
    obtain ⟨n, hn, reads⟩ := List.mem_filterMap.1 hi
    exact static n (List.mem_filter.1 hn).1 i reads
  unfold ofTree
  change (unboundOfTree uri text' (treeWith place' g front back new)).package = _ at package
  change (unboundOfTree uri text' (treeWith place' g front back new)).imports = _ at imports
  change (unboundOfTree uri text' (treeWith place' g front back new)).types =
    (unboundOfTree uri text (programOf place (front ++ back))).types.map _ at types
  rw [← calls_unboundOfTree uri, ← calls_unboundOfTree uri] at calls
  have sameUri : (unboundOfTree uri text' (treeWith place' g front back new)).uri =
    (unboundOfTree uri text (programOf place (front ++ back))).uri := rfl
  -- names are bound in units, so the trees are of no more use
  generalize eqUnit : unboundOfTree uri text (programOf place (front ++ back)) = unit at *
  generalize eqUnit' : unboundOfTree uri text' (treeWith place' g front back new) = unit' at *
  have importedAs := importedAs?_added old imports behind
  have declared := @declaredAs?_map unit unit' (by rw [package, ← eqUnit]; rfl)
    (TypeDecl.relocate g) types (fun _ => rfl) nested
  refine ⟨sameUri, ?_, ⟨_, _, _, old, imports⟩, ?_, ?_, ?_, ?_⟩
  · show unit'.package = unit.package
    rw [package, ← eqUnit]
    rfl
  · show unit'.types.map unit'.bindTypeDecl = _
    rw [bindTypeDecl_congr (resolve?_bind unit'), types]
    show _ = ((unit.types.map unit.bindTypeDecl).map _).map _
    rw [List.map_map, List.map_map, List.map_map]
    exact List.map_congr_left fun t _ => (bindTypeDecl_relocate g t).symm
  · show unit'.calls = unit.calls.map _
    exact calls
  · rw [resolve?_bind, resolve?_identifier (isIdentifier_lastName dotted), bindHead?, importedAs,
      if_pos rfl]
    rfl
  · intro other hother
    rw [resolve?_bind, resolve?_bind]
    refine resolve?_congr (bindHead?_congr ?_ (declared _))
    rw [importedAs, if_neg hother]

/-- Putting a new import into a source adds it to the unit, if only static imports come behind. -/
theorem adds_of_addsImport {parser : Parser} {uri text fqn new : String} {edit : Edit} {root : Node}
    {offset : Nat} {pre post first : List Char} {parts : List (List Char)}
    (edited : edit = .insert (offset % ByteRange.modulus) new)
    (program : ∃ place ns, root = programOf place ns) (small : Text.length text < ByteRange.modulus)
    (dotted : isDottedName fqn)
    (spelled : fqn.toList = first ++ parts.flatMap ('.' :: ·))
    (added : parser.AddsImport text root offset (pre ++ (importText first parts ++ post))
      (offset + Text.byteLen pre) first parts)
    (eqNew : new.toList = pre ++ (importText first parts ++ post))
    (static : ∀ before after, (ofTree uri text root).imports = before ++ after →
      (∀ i ∈ after, offset < i.span.stop) → ∀ i ∈ after, i.isStatic = true) :
    ∃ text' unit', Edit.applyAll text [edit] = .ok text' ∧ lower? parser uri text' = some unit' ∧
      Adds (ofTree uri text root) unit' fqn
        (Span.moveFrom edit.range.start (Text.length edit.replacement)) := by
  obtain ⟨a, b, front, back, eq, rfl, children, divides, gives⟩ := added
  have inside : Text.byteLen a ≤ Text.length text := by
    rw [Text.length_eq, eq, Text.byteLen_append]
    exact Nat.le_add_right _ _
  rw [Nat.mod_eq_of_lt (Nat.lt_of_le_of_lt inside small)] at edited
  have start : edit.range.start = Text.byteLen a := by
    rw [edited]
    rfl
  have replacement : edit.replacement = new := by
    rw [edited]
    rfl
  rw [start, replacement, edited, Text.length_eq, eqNew]
  generalize eqIns : pre ++ (importText first parts ++ post) = ins at gives eqNew ⊢
  obtain ⟨place, ns, rfl⟩ := program
  obtain rfl : ns = front ++ back := children
  have eq' : (String.ofList (a ++ (ins ++ b))).toList = a ++ (ins ++ b) := String.toList_ofList
  obtain ⟨new, place', imported, parsed'⟩ := gives _ eq'
  -- one movement for all nodes: it leaves those in front where they are
  have moved : ∀ n ∈ front, n.relocate (Span.moveFrom (Text.byteLen a) (Text.byteLen ins)) = n :=
    fun n hn => (relocate_front (divides.front n hn)).symm
  have moved' : ∀ n ∈ back, n.relocate (Span.shift (Text.byteLen ins)) =
      n.relocate (Span.moveFrom (Text.byteLen a) (Text.byteLen ins)) :=
    fun n hn => relocate_back (divides.back n hn)
  have keeps : ∀ n ∈ front ++ back, Keeps (Span.moveFrom (Text.byteLen a) (Text.byteLen ins)) text
      (String.ofList (a ++ (ins ++ b))) n := by
    intro n hn
    rcases List.mem_append.1 hn with hn | hn
    · exact keeps_front eq eq' (divides.front n hn)
    · exact keeps_back eq eq' (divides.back n hn)
  generalize eqMove : Span.moveFrom (Text.byteLen a) (Text.byteLen ins) = g at moved moved' keeps ⊢
  generalize eqText : String.ofList (a ++ (ins ++ b)) = text' at eq' parsed' keeps
  rw [List.map_congr_left moved', ← List.map_id' front, ← List.map_congr_left moved] at parsed'
  change parser text' = some ⟨treeWith place' g front back new, false⟩ at parsed'
  have written : Text.slice? text' (importedName (Text.byteLen a + Text.byteLen pre) first parts).start
      (importedName (Text.byteLen a + Text.byteLen pre) first parts).stop = some fqn := by
    rw [← Text.byteLen_append]
    refine slice?_importText (b := post ++ b) spelled ?_
    rw [eq', ← eqIns]
    simp
  refine ⟨text', ofTree uri text' (treeWith place' g front back new), ?_, ?_, ?_⟩
  · rw [Edit.applyAll_insert eq, eqNew, eqText]
  · rw [lower?, parsed']
    rfl
  · refine adds_of_treeWith keeps imported dotted written ?_ ?_
    · intro n hn i reads
      obtain ⟨kind, -⟩ := readImport?_place reads
      refine static _ _ (imports_programOf uri text place front back) (fun i hi => ?_) i
        (List.mem_filterMap.2 ⟨n, List.mem_filter.2 ⟨hn, by rw [Node.isNamed, kind]⟩, reads⟩)
      obtain ⟨m, hm, reads⟩ := List.mem_filterMap.1 hi
      rw [(readImport?_place reads).2]
      exact (divides.back m (List.mem_filter.1 hm).1).span.2
    · have places : ∀ t ∈ (unboundOfTree uri text (programOf place (front ++ back))).types,
          t.span.Parted (Text.byteLen a) ∧ t.bodySpan.Parted (Text.byteLen a) := by
        intro t ht
        obtain ⟨n, hn, ht⟩ := List.mem_flatMap.1 ht
        exact readTypes_places (divides.parted n (List.mem_filter.1 hn).1) ht
      intro t ht u hu
      rw [← eqMove]
      exact Span.contains_moveFrom (places t ht).2 (places u hu).1

end Imports

end JakartaCheck
