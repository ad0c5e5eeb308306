import JakartaCheck.Java.Reading

/-!
# What a walk through a tree visits

Cursors that move as they should in a tree (`Cursors.Lawful`) find their way through it. The invariant
says where the cursor stands: a walk that comes to a node calls its function on the node and everything
in it, in this order, and is then on its way up from that same node (`Cursors.Lawful.visits`). For the
children of a node this is repeated from sibling to sibling (`visitsAmong`), and the last one is left for
the parent. At the node where the walk began the way up ends.

Nodes are told apart by their places. A place is read from the node up to the root, so the order of a
walk is that of the reversed places: whatever is in a node has its place as a front part.
-/

namespace JakartaCheck

namespace Java

/-! ### Places in a tree -/

namespace Node

/-- The node at a place. -/
def at? (root : Node) : List Nat → Option Node
  | [] => some root
  | i :: place => (root.at? place).bind fun parent => parent.children[i]?

/-- The node at a place, with its place. -/
def spot? (root : Node) (place : List Nat) : Option Spot := (root.at? place).map (Spot.mk place)

theorem at?_append (root : Node) (way place : List Nat) :
    root.at? (way ++ place) = (root.at? place).bind (at? · way) := by
  induction way with
  | nil => simp [at?]
  | cons i way ih =>
    rw [List.cons_append, at?, ih, Option.bind_assoc]
    rfl

mutual

/-- The node, which has that place, and everything in it, each before its own children. -/
def spots (place : List Nat) : Node → List Spot
  | mk kind field span children =>
    ⟨place, mk kind field span children⟩ :: spotsAmong place 0 children

/-- Likewise for the children from number `i` on. -/
def spotsAmong (place : List Nat) (i : Nat) : List Node → List Spot
  | [] => []
  | n :: ns => n.spots (i :: place) ++ spotsAmong place (i + 1) ns

end

mutual

theorem map_node_spots (place : List Nat) : ∀ n : Node, (n.spots place).map Spot.node = n.preorder
  | mk kind field span children => by
    rw [spots, preorder, List.map_cons, map_node_spotsAmong place 0 children]

theorem map_node_spotsAmong (place : List Nat) (i : Nat) : ∀ ns : List Node,
    (spotsAmong place i ns).map Spot.node = preorderAll ns
  | [] => rfl
  | n :: ns => by
    rw [spotsAmong, preorderAll, List.map_append, map_node_spots _ n, map_node_spotsAmong _ _ ns]

end

mutual

theorem mem_spots {a : Spot} (place : List Nat) : ∀ n : Node, a ∈ n.spots place ↔
    ∃ way, a.place = way ++ place ∧ n.at? way = some a.node
  | mk kind field span children => by
    rw [spots, List.mem_cons, mem_spotsAmong place 0 children]
    constructor
    · rintro (rfl | ⟨j, m, way, hm, hplace, hway⟩)
      · exact ⟨[], rfl, rfl⟩
      · refine ⟨way ++ [j], by simpa using hplace, ?_⟩
        rw [at?_append]
        show (children[j]?.bind (at? · way)) = _
        rw [hm]
        exact hway
    · rintro ⟨way, hplace, hway⟩
      rcases List.eq_nil_or_concat way with rfl | ⟨way, j, rfl⟩
      · obtain ⟨place', node⟩ := a
        exact .inl (by simp_all [at?])
      · rw [List.concat_eq_append, at?_append] at hway
        obtain ⟨m, hm, hway⟩ := Option.bind_eq_some_iff.1 hway
        exact .inr ⟨j, m, way, hm, by simpa using hplace, hway⟩

theorem mem_spotsAmong {a : Spot} (place : List Nat) (i : Nat) : ∀ ns : List Node,
    a ∈ spotsAmong place i ns ↔
      ∃ j m way, ns[j]? = some m ∧ a.place = way ++ (i + j) :: place ∧ m.at? way = some a.node
  | [] => by simp [spotsAmong]
  | n :: ns => by
    rw [spotsAmong, List.mem_append, mem_spots _ n, mem_spotsAmong _ _ ns]
    constructor
    · rintro (⟨way, hplace, hway⟩ | ⟨j, m, way, hm, hplace, hway⟩)
      · exact ⟨0, n, way, rfl, hplace, hway⟩
      · exact ⟨j + 1, m, way, hm, by rwa [Nat.add_assoc, Nat.add_comm 1 j] at hplace, hway⟩
    · rintro ⟨_ | j, m, way, hm, hplace, hway⟩
      · obtain rfl := Option.some.inj hm
        exact .inl ⟨way, hplace, hway⟩
      · exact .inr ⟨j, m, way, hm, by rwa [Nat.add_assoc, Nat.add_comm 1 j], hway⟩

end

mutual

theorem pairwise_spots (place : List Nat) : ∀ n : Node,
    (n.spots place).Pairwise fun a b => a.place.reverse < b.place.reverse
  | mk kind field span children => by
    rw [spots]
    refine List.pairwise_cons.2 ⟨fun b hb => ?_, pairwise_spotsAmong place 0 children⟩
    obtain ⟨j, m, way, -, hplace, -⟩ := (mem_spotsAmong place 0 children).1 hb
    have : place.reverse ++ [] < place.reverse ++ (0 + j) :: way.reverse :=
      List.append_left_lt (List.nil_lt_cons ..)
    simpa [hplace] using this

theorem pairwise_spotsAmong (place : List Nat) (i : Nat) : ∀ ns : List Node,
    (spotsAmong place i ns).Pairwise fun a b => a.place.reverse < b.place.reverse
  | [] => .nil
  | n :: ns => by
    rw [spotsAmong]
    refine List.pairwise_append.2 ⟨pairwise_spots _ n, pairwise_spotsAmong _ _ ns, fun a ha b hb => ?_⟩
    obtain ⟨way, ha, -⟩ := (mem_spots _ n).1 ha
    obtain ⟨j, m, way', -, hb, -⟩ := (mem_spotsAmong _ _ ns).1 hb
    -- the places part at the two siblings
    have : place.reverse ++ i :: way.reverse < place.reverse ++ (i + 1 + j) :: way'.reverse :=
      List.append_left_lt (List.cons_lt_cons_iff.2 (.inl (by omega)))
    simpa [ha, hb] using this

end

end Node

/-! ### Cursors in a tree -/

namespace Spot

/-- The spot is one of the tree. -/
def In (root : Node) (a : Spot) : Prop := root.at? a.place = some a.node

def firstChild? (a : Spot) : Option Spot := a.node.children.head?.map (Spot.mk (0 :: a.place))

def nextSibling? (root : Node) (a : Spot) : Option Spot :=
  match a.place with
  | i :: place => root.spot? ((i + 1) :: place)
  | [] => none

def parent? (root : Node) (a : Spot) : Option Spot :=
  match a.place with
  | _ :: place => root.spot? place
  | [] => none

variable {i : Nat} {place : List Nat} {n : Node}

theorem nextSibling?_mk {root : Node} : nextSibling? root ⟨i :: place, n⟩ =
    (root.at? ((i + 1) :: place)).map (Spot.mk ((i + 1) :: place)) := rfl

theorem parent?_mk {root : Node} :
    parent? root ⟨i :: place, n⟩ = (root.at? place).map (Spot.mk place) := rfl

end Spot

namespace Cursors

/-- The cursors that moves make of a new cursor on `start`. -/
inductive From {γ α : Type} (cursors : Cursors γ α) (start : α) : γ → Prop where
  | walk : From cursors start (cursors.walk start)
  | firstChild {c c' : γ} (h : From cursors start c) (move : cursors.firstChild? c = some c') :
      From cursors start c'
  | nextSibling {c c' : γ} (h : From cursors start c) (move : cursors.nextSibling? c = some c') :
      From cursors start c'
  | parent {c c' : γ} (h : From cursors start c) (move : cursors.parent? c = some c') :
      From cursors start c'

variable {γ α σ : Type} {cursors : Cursors γ α} {root : Node} {spot : α → Spot} {start : α}

/-- What is expected of cursors in the tree `root`, if `spot` tells which node of it is meant by an `α`.
A cursor moves to the first child, the next sibling and the parent, unless it would leave the node that
it was created on. -/
structure Lawful (cursors : Cursors γ α) (root : Node) (spot : α → Spot) : Prop where
  same_iff : ∀ a b, (spot a).In root → (spot b).In root →
    (cursors.same a b ↔ (spot a).place = (spot b).place)
  node_walk : ∀ a, cursors.node (cursors.walk a) = a
  firstChild? : ∀ start c, (spot start).In root → cursors.From start c →
    (cursors.firstChild? c).map (fun c => spot (cursors.node c)) =
      (spot (cursors.node c)).firstChild?
  nextSibling? : ∀ start c, (spot start).In root → cursors.From start c →
    (cursors.nextSibling? c).map (fun c => spot (cursors.node c)) =
      if (spot (cursors.node c)).place = (spot start).place then none
      else (spot (cursors.node c)).nextSibling? root
  parent? : ∀ start c, (spot start).In root → cursors.From start c →
    (cursors.parent? c).map (fun c => spot (cursors.node c)) =
      if (spot (cursors.node c)).place = (spot start).place then none
      else (spot (cursors.node c)).parent? root

/-- A cursor from `start` that stands on the node `a`. -/
structure Stands (cursors : Cursors γ α) (spot : α → Spot) (start : α) (c : γ) (a : Spot) : Prop where
  reached : cursors.From start c
  eq : spot (cursors.node c) = a

namespace Lawful

variable {c : γ} {i : Nat} {place : List Nat} {n : Node}

theorem walk (laws : cursors.Lawful root spot) :
    cursors.Stands spot start (cursors.walk start) (spot start) :=
  ⟨.walk, by rw [laws.node_walk]⟩

theorem firstChild?_of_cons (laws : cursors.Lawful root spot) (inside : (spot start).In root)
    {m : Node} {ms : List Node} (h : cursors.Stands spot start c ⟨place, n⟩)
    (hchildren : n.children = m :: ms) : ∃ child, cursors.firstChild? c = some child ∧
      cursors.Stands spot start child ⟨0 :: place, m⟩ := by
  have hmove := laws.firstChild? start c inside h.reached
  rw [h.eq, Spot.firstChild?, hchildren] at hmove
  obtain ⟨child, hchild, heq⟩ := Option.map_eq_some_iff.1 hmove
  exact ⟨child, hchild, h.reached.firstChild hchild, heq⟩

theorem firstChild?_of_nil (laws : cursors.Lawful root spot) (inside : (spot start).In root)
    (h : cursors.Stands spot start c ⟨place, n⟩) (hchildren : n.children = []) :
    cursors.firstChild? c = none := by
  have hmove := laws.firstChild? start c inside h.reached
  rw [h.eq, Spot.firstChild?, hchildren] at hmove
  exact Option.map_eq_none_iff.1 hmove

theorem nextSibling?_of_some (laws : cursors.Lawful root spot) (inside : (spot start).In root)
    {m : Node} (h : cursors.Stands spot start c ⟨i :: place, n⟩)
    (hne : i :: place ≠ (spot start).place) (hnext : root.at? ((i + 1) :: place) = some m) :
    ∃ next, cursors.nextSibling? c = some next ∧
      cursors.Stands spot start next ⟨(i + 1) :: place, m⟩ := by
  have hmove := laws.nextSibling? start c inside h.reached
  rw [h.eq, if_neg hne, Spot.nextSibling?_mk, hnext] at hmove
  obtain ⟨next, hnext, heq⟩ := Option.map_eq_some_iff.1 hmove
  exact ⟨next, hnext, h.reached.nextSibling hnext, heq⟩

theorem nextSibling?_of_none (laws : cursors.Lawful root spot) (inside : (spot start).In root)
    (h : cursors.Stands spot start c ⟨i :: place, n⟩) (hne : i :: place ≠ (spot start).place)
    (hnext : root.at? ((i + 1) :: place) = none) : cursors.nextSibling? c = none := by
  have hmove := laws.nextSibling? start c inside h.reached
  rw [h.eq, if_neg hne, Spot.nextSibling?_mk, hnext] at hmove
  exact Option.map_eq_none_iff.1 hmove

theorem parent?_of_ne (laws : cursors.Lawful root spot) (inside : (spot start).In root)
    {parent : Node} (h : cursors.Stands spot start c ⟨i :: place, n⟩)
    (hne : i :: place ≠ (spot start).place) (hparent : root.at? place = some parent) :
    ∃ up, cursors.parent? c = some up ∧ cursors.Stands spot start up ⟨place, parent⟩ := by
  have hmove := laws.parent? start c inside h.reached
  rw [h.eq, if_neg hne, Spot.parent?_mk, hparent] at hmove
  obtain ⟨up, hup, heq⟩ := Option.map_eq_some_iff.1 hmove
  exact ⟨up, hup, h.reached.parent hup, heq⟩

theorem same_iff_of_stands (laws : cursors.Lawful root spot) (inside : (spot start).In root)
    (h : cursors.Stands spot start c ⟨place, n⟩) (hplace : root.at? place = some n) :
    cursors.same (cursors.node c) start ↔ place = (spot start).place := by
  have := laws.same_iff (cursors.node c) start (by rw [h.eq]; exact hplace) inside
  rwa [h.eq] at this

end Lawful

/-! ### Walks -/

/-- What is left of a walk when the node under the cursor and everything in it are done. -/
def rest (cursors : Cursors γ α) (start : α) (f : σ → α → σ) (c : γ) (s : σ) : Option σ :=
  match cursors.onward start c with
  | some (some next) => cursors.visitFrom start f next s
  | some none => some s
  | none => none

section Steps

variable {f : σ → α → σ} {s : σ} {c next : γ}

theorem visitFrom_of_some (h : cursors.firstChild? c = some next) :
    cursors.visitFrom start f c s = cursors.visitFrom start f next (f s (cursors.node c)) := by
  rw [visitFrom, h]

theorem visitFrom_of_none (h : cursors.firstChild? c = none) :
    cursors.visitFrom start f c s = cursors.rest start f c (f s (cursors.node c)) := by
  rw [visitFrom, h]
  rfl

theorem rest_of_same (h : cursors.same (cursors.node c) start) :
    cursors.rest start f c s = some s := by
  rw [rest, onward, if_pos h]

theorem rest_of_nextSibling? (h : ¬ cursors.same (cursors.node c) start)
    (hnext : cursors.nextSibling? c = some next) :
    cursors.rest start f c s = cursors.visitFrom start f next s := by
  rw [rest, onward, if_neg h, hnext]

theorem rest_of_parent? (h : ¬ cursors.same (cursors.node c) start)
    (hnext : cursors.nextSibling? c = none) (hparent : cursors.parent? c = some next) :
    cursors.rest start f c s = cursors.rest start f next s := by
  rw [rest, onward, if_neg h, hnext, hparent]
  rfl

end Steps

/-- From the cursor `c` on, a walk calls its function on the nodes at these spots and is then on its way
up from the node `a`. -/
def Visits (cursors : Cursors γ α) (spot : α → Spot) (start : α) (c : γ) (spots : List Spot)
    (a : Spot) : Prop :=
  ∃ (visited : List α) (c' : γ), visited.map spot = spots ∧ cursors.Stands spot start c' a ∧
    ∀ {σ : Type} (f : σ → α → σ) (s : σ),
      cursors.visitFrom start f c s = cursors.rest start f c' (visited.foldl f s)

namespace Lawful

/-- Nothing in `start` has its place. -/
theorem ne_place {i : Nat} {place start : List Nat} (h : start <:+ place) : i :: place ≠ start := by
  rintro rfl
  exact Nat.not_succ_le_self _ h.length_le

mutual

/-- A walk calls its function on the node under the cursor and everything in it, and goes on from this
node. -/
theorem visits (laws : cursors.Lawful root spot) (inside : (spot start).In root) : ∀ (n : Node) {c : γ}
    {place : List Nat}, cursors.Stands spot start c ⟨place, n⟩ → root.at? place = some n →
    (spot start).place <:+ place → cursors.Visits spot start c (n.spots place) ⟨place, n⟩
  | .mk kind field span [], c, place, h, _, _ => by
    have hmove := laws.firstChild?_of_nil inside h rfl
    exact ⟨[cursors.node c], c, by rw [List.map_singleton, h.eq]; rfl, h,
      fun f s => visitFrom_of_none hmove⟩
  | .mk kind field span (m :: ms), c, place, h, hplace, hstart => by
    obtain ⟨child, hmove, hchild⟩ := laws.firstChild?_of_cons inside h rfl
    obtain ⟨visited, c', hvisited, hc', hvisit⟩ :=
      visitsAmong laws inside (m :: ms) rfl hchild hplace rfl hstart
    refine ⟨cursors.node c :: visited, c', ?_, hc', fun f s => ?_⟩
    · rw [List.map_cons, h.eq, hvisited]
      rfl
    · rw [visitFrom_of_some hmove, hvisit, List.foldl_cons]

/-- A walk calls its function on the node under the cursor, its siblings to the right and everything in
them, and goes on from their parent. -/
theorem visitsAmong (laws : cursors.Lawful root spot) (inside : (spot start).In root) :
    ∀ (ns : List Node) {c : γ} {i : Nat} {place : List Nat} {n parent : Node}, ns.head? = some n →
    cursors.Stands spot start c ⟨i :: place, n⟩ → root.at? place = some parent →
    parent.children.drop i = ns → (spot start).place <:+ place →
    cursors.Visits spot start c (Node.spotsAmong place i ns) ⟨place, parent⟩
  | n :: ns, c, i, place, _, parent, rfl, h, hparent, hdrop, hstart => by
    have hat : ∀ j, root.at? ((i + j) :: place) = (n :: ns)[j]? := by
      intro j
      rw [Node.at?, hparent, ← hdrop, List.getElem?_drop]
      rfl
    have hne := ne_place (i := i) hstart
    obtain ⟨visited, c', hvisited, hc', hvisit⟩ :=
      visits laws inside n h (hat 0) (hstart.trans (List.suffix_cons ..))
    have hsame := mt (laws.same_iff_of_stands inside hc' (hat 0)).1 hne
    cases ns with
    | nil =>
      have hnext := laws.nextSibling?_of_none inside hc' hne (hat 1)
      obtain ⟨up, hmove, hup⟩ := laws.parent?_of_ne inside hc' hne hparent
      refine ⟨visited, up, ?_, hup, fun f s => ?_⟩
      · rw [hvisited, Node.spotsAmong, Node.spotsAmong, List.append_nil]
      · rw [hvisit, rest_of_parent? hsame hnext hmove]
    | cons m ms =>
      obtain ⟨next, hmove, hnext⟩ := laws.nextSibling?_of_some inside hc' hne (hat 1)
      have hdrop' : parent.children.drop (i + 1) = m :: ms := by
        rw [← List.drop_drop, hdrop]
        rfl
      obtain ⟨visited', up, hvisited', hup, hvisit'⟩ :=
        visitsAmong laws inside (m :: ms) rfl hnext hparent hdrop' hstart
      refine ⟨visited ++ visited', up, ?_, hup, fun f s => ?_⟩
      · rw [List.map_append, hvisited, hvisited']
        rfl
      · rw [hvisit, rest_of_nextSibling? hsame hmove, hvisit', List.foldl_append]

end

end Lawful

/-- A walk comes to its end, and what it visits is the node and everything in it. -/
theorem Lawful.visit_eq (laws : cursors.Lawful root spot) (inside : (spot start).In root) :
    ∃ visited : List α, visited.map spot = (spot start).node.spots (spot start).place ∧
      ∀ {σ : Type} (f : σ → α → σ) (s : σ), cursors.visit start f s = some (visited.foldl f s) := by
  obtain ⟨visited, c, hvisited, hc, hvisit⟩ :=
    laws.visits inside (spot start).node laws.walk inside (List.suffix_refl _)
  refine ⟨visited, hvisited, fun f s => ?_⟩
  rw [visit, hvisit, rest_of_same ((laws.same_iff_of_stands inside hc inside).2 rfl)]

end Cursors

/-! ### The cursor that has with it what is above it -/

namespace TreeCursor

variable {root : Node} {start : Spot} {c c' : TreeCursor}

/-- The cursor stands in the node `start`, and what it has with it leads there. -/
inductive Within (start : Spot) : TreeCursor → Prop where
  | start : Within start ⟨start, []⟩
  | child {parent : Spot} {above : List (Spot × List Node)} {front behind : List Node} {n : Node}
      (up : Within start ⟨parent, above⟩) (children : parent.node.children = front ++ n :: behind) :
      Within start ⟨⟨front.length :: parent.place, n⟩, (parent, behind) :: above⟩

theorem Within.suffix (h : Within start c) : start.place <:+ c.spot.place := by
  induction h with
  | start => exact List.suffix_refl _
  | child _ _ ih => exact ih.trans (List.suffix_cons ..)

theorem Within.spot_in (h : Within start c) (inside : start.In root) : c.spot.In root := by
  induction h with
  | start => exact inside
  | @child parent above front behind n _ children ih =>
    have hparent : root.at? parent.place = some parent.node := ih
    show root.at? (front.length :: parent.place) = some n
    simp [Node.at?, hparent, children]

theorem Within.firstChild? (h : Within start c) (move : c.firstChild? = some c') :
    Within start c' := by
  unfold TreeCursor.firstChild? at move
  split at move
  · rename_i child behind hchildren
    obtain rfl := Option.some.inj move
    exact .child h (show _ = [] ++ child :: behind from hchildren)
  · cases move

theorem Within.nextSibling? (h : Within start c) (move : c.nextSibling? = some c') :
    Within start c' := by
  cases h with
  | start => simp [TreeCursor.nextSibling?] at move
  | @child parent above front behind n up children =>
    cases behind with
    | nil => simp [TreeCursor.nextSibling?] at move
    | cons next behind =>
      obtain rfl := Option.some.inj move
      have hlen : (front ++ [n]).length = front.length + 1 := List.length_append
      rw [← hlen]
      exact .child up (by simpa using children)

theorem Within.parent? (h : Within start c) (move : c.parent? = some c') : Within start c' := by
  cases h with
  | start => cases move
  | child up _ =>
    obtain rfl := Option.some.inj move
    exact up

theorem within_of_from (h : cursors.From start c) : Within start c := by
  induction h with
  | walk => exact .start
  | firstChild _ move ih => exact ih.firstChild? move
  | nextSibling _ move ih => exact ih.nextSibling? move
  | parent _ move ih => exact ih.parent? move

theorem lawful (root : Node) : cursors.Lawful root id where
  same_iff a b _ _ := by simp [cursors]
  node_walk _ := rfl
  firstChild? start c _ _ := by
    show c.firstChild?.map spot = c.spot.firstChild?
    unfold TreeCursor.firstChild? Spot.firstChild?
    cases c.spot.node.children <;> rfl
  nextSibling? start c inside h := by
    show c.nextSibling?.map spot = if c.spot.place = start.place then none else c.spot.nextSibling? root
    cases within_of_from h with
    | start => simp [TreeCursor.nextSibling?]
    | @child parent above front behind n up children =>
      have hparent : root.at? parent.place = some parent.node := up.spot_in inside
      rw [if_neg (Cursors.Lawful.ne_place up.suffix), Spot.nextSibling?_mk, Node.at?, hparent]
      cases behind <;> simp [TreeCursor.nextSibling?, children]
  parent? start c inside h := by
    show c.parent?.map spot = if c.spot.place = start.place then none else c.spot.parent? root
    cases within_of_from h with
    | start => simp [TreeCursor.parent?]
    | @child parent above front behind n up children =>
      have hparent : root.at? parent.place = some parent.node := up.spot_in inside
      rw [if_neg (Cursors.Lawful.ne_place up.suffix), Spot.parent?_mk, hparent]
      rfl

end TreeCursor

/-- A walk through a tree calls its function on the nodes in preorder. -/
theorem Node.visit_eq {σ : Type} (n : Node) (f : σ → Node → σ) (s : σ) :
    n.visit f s = n.preorder.foldl f s := by
  have inside : (id (⟨[], n⟩ : Spot)).In n := rfl
  obtain ⟨visited, hvisited, hvisit⟩ := (TreeCursor.lawful n).visit_eq inside
  rw [List.map_id] at hvisited
  obtain rfl : visited = n.spots [] := hvisited
  rw [visit, hvisit, ← Node.map_node_spots [] n, List.foldl_map]
  rfl

/-- What is found in a tree comes in preorder. -/
theorem Node.toList_collect {α : Type} (n : Node) (read? : Node → Option α) :
    (n.collect read?).toList = n.preorder.filterMap read? := by
  have add : ∀ (ns : List Node) (found : Array α),
      (ns.foldl (fun (found : Array α) m => found ++ (read? m).toList) found).toList =
        found.toList ++ ns.filterMap read? := by
    intro ns
    induction ns with
    | nil => simp
    | cons m ns ih =>
      intro found
      rw [List.foldl_cons, ih, List.filterMap_cons]
      cases read? m <;> simp
  rw [collect, visit_eq, add]
  rfl

/-- A walk through a node of a tree comes to its end, with any cursor that moves as it should. It has
called its function once on the node and on each node in it, and on no other: each in front of what is in
it, and what is in it in front of its next sibling. -/
theorem Cursors.visit_preorder {γ α : Type} {cursors : Cursors γ α} {root : Node} {spot : α → Spot}
    (laws : cursors.Lawful root spot) {start : α} (inside : (spot start).In root) :
    ∃ visited : List α,
      (∀ {σ : Type} (f : σ → α → σ) (s : σ), cursors.visit start f s = some (visited.foldl f s)) ∧
      visited.map (fun a => (spot a).node) = (spot start).node.preorder ∧
      (∀ a : Spot, a ∈ visited.map spot ↔ a.In root ∧ (spot start).place <:+ a.place) ∧
      (visited.map fun a => (spot a).place).Nodup ∧
      visited.Pairwise fun a b => (spot a).place.reverse < (spot b).place.reverse := by
  obtain ⟨visited, hvisited, hvisit⟩ := laws.visit_eq inside
  have hordered := Node.pairwise_spots (spot start).place (spot start).node
  rw [← hvisited, List.pairwise_map] at hordered
  refine ⟨visited, hvisit, ?_, fun a => ?_, ?_, hordered⟩
  · rw [← Node.map_node_spots (spot start).place, ← hvisited, List.map_map]
    rfl
  · rw [hvisited, Node.mem_spots]
    constructor
    · rintro ⟨way, hplace, hway⟩
      refine ⟨?_, way, hplace.symm⟩
      rw [Spot.In, hplace, Node.at?_append, inside]
      exact hway
    · rintro ⟨hin, way, hplace⟩
      rw [Spot.In, ← hplace, Node.at?_append, inside] at hin
      exact ⟨way, hplace.symm, hin⟩
  · refine List.pairwise_map.2 (hordered.imp fun hlt heq => ?_)
    rw [heq] at hlt
    exact List.lt_irrefl _ hlt

/-- The first of the classes `class A {}` and `class B {}`. -/
def firstClass : Node :=
  .mk (.form .classDeclaration) none ⟨0, 10⟩ [
    .mk (.token "class") none ⟨0, 5⟩ [],
    .mk (.form .identifier) (some .name) ⟨6, 7⟩ [],
    .mk (.form .classBody) (some .body) ⟨8, 10⟩ [
      .mk (.token "\x7b") none ⟨8, 9⟩ [], .mk (.token "\x7d") none ⟨9, 10⟩ []]]

def twoClasses : Node :=
  .mk (.form .program) none ⟨0, 21⟩ [firstClass, .mk (.form .classDeclaration) none ⟨11, 21⟩ []]

/-- A walk through a class does not go on to the next one. -/
theorem Cursors.visit_preorder_class : (⟨[0], firstClass⟩ : Spot).In twoClasses ∧
    TreeCursor.cursors.visit ⟨[0], firstClass⟩ (fun spans a => spans ++ [a.node.span]) [] =
      some [⟨0, 10⟩, ⟨0, 5⟩, ⟨6, 7⟩, ⟨8, 10⟩, ⟨8, 9⟩, ⟨9, 10⟩] := by
  have inside : (id (⟨[0], firstClass⟩ : Spot)).In twoClasses := rfl
  obtain ⟨visited, hvisit, hnodes, -⟩ := Cursors.visit_preorder (TreeCursor.lawful twoClasses) inside
  have hspans := congrArg (List.foldl (fun spans n => spans ++ [n.span]) []) hnodes
  rw [List.foldl_map] at hspans
  exact ⟨inside, (hvisit _ _).trans (congrArg some hspans)⟩

end Java

namespace CompilationUnit

theorem calls_unboundOfTree (uri text : String) (root : Java.Node) :
    (unboundOfTree uri text root).calls = root.preorder.filterMap (Java.readCall? text) :=
  root.toList_collect _

/-- In this form the calls of a source can be computed without a cursor. -/
theorem ofText?_eq_map (uri text : String) : ofText? uri text = (Java.parse text).map fun root =>
    { unboundOfTree uri text root with
      calls := root.preorder.filterMap (Java.readCall? text) : CompilationUnit }.bind := by
  rw [ofText?_eq]
  unfold ofTree
  simp only [← calls_unboundOfTree uri]

end CompilationUnit

end JakartaCheck
