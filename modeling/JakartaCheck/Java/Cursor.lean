import JakartaCheck.Java.Node

/-!
# Walking a tree with a cursor

A cursor stands on a node of a tree. It is moved to the first child, to the next sibling or to the
parent, and it does not leave the node that it was created on. `Cursors.visit` calls a function on a
node and on everything in it, with nothing but one cursor to keep its place, so that deep trees take no
room on the call stack. It asks of a cursor what `Cursors` lists, and no more; `TreeCursor` is a cursor
that has with it what is above it.

A walk with a cursor that goes round in circles has no end. Its result is `none`.
-/

namespace JakartaCheck.Java

/-- What can be done with cursors `γ` on nodes `α`. Where a move does not lead anywhere there is no new
cursor. -/
structure Cursors (γ α : Type) where
  /-- A new cursor on the node. -/
  walk : α → γ
  /-- The node that the cursor stands on. -/
  node : γ → α
  /-- Are both the same node? -/
  same : α → α → Bool
  firstChild? : γ → Option γ
  nextSibling? : γ → Option γ
  parent? : γ → Option γ

namespace Cursors

variable {γ α σ : Type}

/-- Where a walk through `start` goes on when a node and everything in it are done: to the next sibling,
or else on from the parent. It goes nowhere when `start` is done. -/
def onward (cursors : Cursors γ α) (start : α) (c : γ) : Option (Option γ) :=
  if cursors.same (cursors.node c) start then some none
  else
    match cursors.nextSibling? c with
    | some next => some (some next)
    | none =>
      match cursors.parent? c with
      | some parent => cursors |>.onward start parent
      | none => some none
partial_fixpoint

/-- The part of a walk through `start` from the node under the cursor on. -/
def visitFrom (cursors : Cursors γ α) (start : α) (f : σ → α → σ) (c : γ) (s : σ) : Option σ :=
  match cursors.firstChild? c with
  | some child => cursors |>.visitFrom start f child (f s (cursors.node c))
  | none =>
    match cursors.onward start c with
    | some (some next) => cursors |>.visitFrom start f next (f s (cursors.node c))
    | some none => some (f s (cursors.node c))
    | none => none
partial_fixpoint

/-- Calls `f` on the node and on everything in it. -/
def visit (cursors : Cursors γ α) (start : α) (f : σ → α → σ) (s : σ) : Option σ :=
  cursors.visitFrom start f (cursors.walk start) s

end Cursors

/-- A node and its place in a tree: its number among its siblings, then that of its parent, and so on. -/
structure Spot where
  place : List Nat
  node : Node

/-- A cursor on a node. -/
structure TreeCursor where
  spot : Spot
  /-- The nodes above, the parent first, up to the one that the cursor was created on. With each comes
  what is behind the child that was entered. -/
  above : List (Spot × List Node)

namespace TreeCursor

def firstChild? (c : TreeCursor) : Option TreeCursor :=
  match c.spot.node.children with
  | child :: behind => some ⟨⟨0 :: c.spot.place, child⟩, (c.spot, behind) :: c.above⟩
  | [] => none

def nextSibling? (c : TreeCursor) : Option TreeCursor :=
  match c.spot.place, c.above with
  | i :: place, (parent, next :: behind) :: above =>
    some ⟨⟨(i + 1) :: place, next⟩, (parent, behind) :: above⟩
  | _, _ => none

def parent? (c : TreeCursor) : Option TreeCursor :=
  match c.above with
  | (parent, _) :: above => some ⟨parent, above⟩
  | [] => none

/-- Nodes are the same if they have the same place. -/
def cursors : Cursors TreeCursor Spot where
  walk spot := ⟨spot, []⟩
  node := spot
  same a b := a.place == b.place
  firstChild? := firstChild?
  nextSibling? := nextSibling?
  parent? := parent?

end TreeCursor

namespace Node

/-- Calls `f` on the node and on everything in it. -/
def visit {σ : Type} (n : Node) (f : σ → Node → σ) (s : σ) : σ :=
  (TreeCursor.cursors.visit ⟨[], n⟩ (fun s spot => f s spot.node) s).getD s

/-- What a reader makes of the node and of everything in it. -/
def collect {α : Type} (n : Node) (read? : Node → Option α) : Array α :=
  n.visit (fun found m => found ++ (read? m).toList) #[]

end Node

end JakartaCheck.Java
