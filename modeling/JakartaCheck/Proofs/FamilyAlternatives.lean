import JakartaCheck.Fixes.Family

/-!
# Families side by side

What answers in a row come to is read off the whole row (`combine_eq`): the first crash, or else all
that is proposed, or else the first reason.

Families that are offered side by side may themselves offer families side by side. Wherever they do,
the answers of the inner ones can stand in place of what those come to together
(`combineFrom_combine`), and so any nesting answers as the families at its leaves do in one row,
whatever these are. An inner group that proposes something hides why some of its members declined; in
the row these reasons come back, but then there is a proposal, and no reason is looked at.
-/

namespace JakartaCheck.Family

/-! ### What answers come to together -/

/-- What is proposed. -/
def proposed : FixResult (List Proposal) → List Proposal
  | .ok proposals => proposals
  | .error _ => []

/-- The reason of an answer that declines. -/
def reason? : FixResult (List Proposal) → Option FixError
  | .error (.declined reason) => some reason
  | _ => none

/-- The fault of an answer that crashes. -/
def fault? : FixResult (List Proposal) → Option Fault
  | .error (.crash fault) => some fault
  | _ => none

/-- What is found on the way is what the answers propose so far, and the reason the first so far. -/
theorem combineFrom_eq (answers : List (FixResult (List Proposal))) (found : List Proposal)
    (reason : Option FixError) : combineFrom found reason answers =
      match answers.findSome? fault? with
      | some fault => .error (.crash fault)
      | none =>
        combineFrom (found ++ answers.flatMap proposed) (reason.or (answers.findSome? reason?)) [] := by
  induction answers generalizing found reason with
  | nil => simp
  | cons answer answers ih =>
    rcases answer with (other | fault) | more
    case ok =>
      rw [combineFrom, ih]
      simp [List.findSome?_cons, fault?, proposed, reason?]
    case error.declined =>
      rw [combineFrom, ih]
      cases reason <;> simp [List.findSome?_cons, fault?, proposed, reason?]
    case error.crash => rfl

theorem combineFrom_nil (found : List Proposal) (reason : Option FixError) :
    combineFrom found reason [] =
      match reason with
      | some reason => if found = [] then decline reason else .ok found
      | none => .ok found := by
  cases reason with
  | none => rfl
  | some reason => simp [combineFrom]

/-- Answers crash with the first that does; without one, they come to all that is proposed, unless
that is nothing and some decline: then to the first reason. -/
theorem combine_eq (answers : List (FixResult (List Proposal))) : combine answers =
    match answers.findSome? fault?, answers.findSome? reason? with
    | some fault, _ => .error (.crash fault)
    | none, some reason =>
      if answers.flatMap proposed = [] then decline reason else .ok (answers.flatMap proposed)
    | none, none => .ok (answers.flatMap proposed) := by
  rw [combine, combineFrom_eq]
  cases answers.findSome? fault? with
  | some fault => rfl
  | none =>
    rw [combineFrom_nil]
    simp only [List.nil_append, Option.none_or]
    cases answers.findSome? reason? <;> rfl

theorem combine_eq_ok {answers : List (FixResult (List Proposal))} {proposals : List Proposal}
    (h : combine answers = .ok proposals) : proposals = answers.flatMap proposed := by
  rw [combine_eq] at h
  split at h
  · cases h
  · split at h
    · cases h
    · exact (Except.ok.inj h).symm
  · exact (Except.ok.inj h).symm

/-- Who declines does not matter if something is proposed. -/
theorem combine_of_proposed {answers : List (FixResult (List Proposal))}
    (hnone : ∀ answer ∈ answers, fault? answer = none) (hfound : answers.flatMap proposed ≠ []) :
    combine answers = .ok (answers.flatMap proposed) := by
  rw [combine_eq, List.findSome?_eq_none_iff.2 hnone]
  cases answers.findSome? reason? with
  | none => rfl
  | some reason => exact if_neg hfound

theorem combineFrom_nil_of_ne_nil {found : List Proposal} (h : found ≠ []) (reason : Option FixError) :
    combineFrom found reason [] = .ok found := by
  rw [combineFrom_nil]
  cases reason with
  | none => rfl
  | some reason => exact if_neg h

/-- In place of what some answers come to, they can stand in the row themselves. -/
theorem combineFrom_combine (inner after : List (FixResult (List Proposal))) (found : List Proposal)
    (reason : Option FixError) :
    combineFrom found reason (combine inner :: after) =
      combineFrom found reason (inner ++ after) := by
  rw [combineFrom_eq (inner ++ after), List.findSome?_append, List.findSome?_append,
    List.flatMap_append, combine_eq, combineFrom_eq (_ :: after), List.findSome?_cons,
    List.findSome?_cons, List.flatMap_cons]
  cases inner.findSome? fault? with
  | some fault => rfl
  | none =>
    cases inner.findSome? reason? with
    | none => rfl
    | some first =>
      by_cases hnothing : inner.flatMap proposed = []
      · simp only [hnothing, if_true]
        rfl
      · -- the reason is lost here, but with a proposal none is asked for
        have hfound : found ++ (inner.flatMap proposed ++ after.flatMap proposed) ≠ [] := by
          simp [hnothing]
        simp only [if_neg hnothing, fault?, reason?, proposed, combineFrom_nil_of_ne_nil hfound]
        rfl

theorem combine_single (answer : FixResult (List Proposal)) : combine [answer] = answer := by
  rcases answer with (other | fault) | proposals <;> rfl

theorem combineFrom_cons_congr {after others : List (FixResult (List Proposal))}
    (h : ∀ found reason, combineFrom found reason after = combineFrom found reason others)
    (answer : FixResult (List Proposal)) (found : List Proposal) (reason : Option FixError) :
    combineFrom found reason (answer :: after) = combineFrom found reason (answer :: others) := by
  rcases answer with (other | fault) | proposals
  case ok => exact h _ _
  case error.declined => exact h _ _
  case error.crash => rfl

/-! ### Leaves -/

theorem proposeEach_eq (d : Diagnostic) (unit : CompilationUnit) (families : List Family) :
    proposeEach d unit families = families.map (propose d unit) := by
  induction families with
  | nil => rw [proposeEach]; rfl
  | cons family families ih => rw [proposeEach, ih]; rfl

mutual

/-- The families that are asked in the end, from left to right. -/
def leaves : Family → List Family
  | .alternatives families => leavesOfEach families
  | family => [family]

def leavesOfEach : List Family → List Family
  | [] => []
  | family :: families => leaves family ++ leavesOfEach families

end

/-- The family does not offer others side by side. -/
def IsLeaf : Family → Prop
  | .alternatives _ => False
  | _ => True

theorem leaves_of_isLeaf {family : Family} (h : family.IsLeaf) : leaves family = [family] := by
  cases family with
  | alternatives families => exact h.elim
  | _ => rfl

theorem leavesOfEach_eq (families : List Family) : leavesOfEach families = families.flatMap leaves := by
  induction families with
  | nil => rfl
  | cons family families ih => rw [leavesOfEach, ih, List.flatMap_cons]

mutual

/-- Whatever holds of leaves, and of families side by side if it holds of each, holds of all. -/
theorem nesting_induction {motive : Family → Prop}
    (leaf : ∀ family : Family, family.IsLeaf → motive family)
    (alternatives : ∀ families : List Family, (∀ family ∈ families, motive family) →
      motive (.alternatives families)) : ∀ family : Family, motive family
  | .alternatives families => alternatives families (nesting_induction_each leaf alternatives families)
  | .annotate .. | .removeAnnotations | .replaceScope .. | .addAttributes _ | .addModifier _
  | .removeModifier _ | .addSupertype .. | .addNoArgConstructor _ | .removeParameters
  | .changeReturnType _ | .foreign _ => leaf _ trivial

theorem nesting_induction_each {motive : Family → Prop}
    (leaf : ∀ family : Family, family.IsLeaf → motive family)
    (alternatives : ∀ families : List Family, (∀ family ∈ families, motive family) →
      motive (.alternatives families)) : ∀ families : List Family, ∀ family ∈ families, motive family
  | [] => List.forall_mem_nil _
  | family :: families => List.forall_mem_cons.2
    ⟨nesting_induction leaf alternatives family, nesting_induction_each leaf alternatives families⟩

end

theorem isLeaf_of_mem_leaves (family : Family) : ∀ leaf ∈ leaves family, leaf.IsLeaf := by
  induction family using nesting_induction with
  | leaf family hfamily =>
    intro leaf hleaf
    rw [leaves_of_isLeaf hfamily] at hleaf
    obtain rfl := List.mem_singleton.1 hleaf
    exact hfamily
  | alternatives families ih =>
    intro leaf hleaf
    rw [leaves, leavesOfEach_eq] at hleaf
    obtain ⟨family, hfamily, hleaf⟩ := List.mem_flatMap.1 hleaf
    exact ih family hfamily leaf hleaf

variable {d : Diagnostic} {unit : CompilationUnit}

/-- If each family answers as its leaves in a row, so do all of them behind what was answered. -/
theorem combineFrom_leaves {families : List Family}
    (h : ∀ family ∈ families, combine ((leaves family).map (propose d unit)) = propose d unit family)
    (found : List Proposal) (reason : Option FixError) :
    combineFrom found reason ((families.flatMap leaves).map (propose d unit)) =
      combineFrom found reason (families.map (propose d unit)) := by
  induction families generalizing found reason with
  | nil => rfl
  | cons family families ih =>
    obtain ⟨hfamily, hfamilies⟩ := List.forall_mem_cons.1 h
    rw [List.flatMap_cons, List.map_append, ← combineFrom_combine, hfamily, List.map_cons]
    exact combineFrom_cons_congr (ih hfamilies) _ found reason

theorem combine_leaves (family : Family) :
    combine ((leaves family).map (propose d unit)) = propose d unit family := by
  induction family using nesting_induction with
  | leaf family hfamily =>
    rw [leaves_of_isLeaf hfamily]
    exact combine_single _
  | alternatives families ih =>
    rw [leaves, leavesOfEach_eq, propose, proposeEach_eq]
    exact combineFrom_leaves ih [] none

/-- However families are nested, they answer as those at the leaves do in one row: they crash with the
first of these that does; without one they propose all that these propose, in order, if that is
something or none of them declines; and otherwise they decline with the reason of the first that
does. -/
theorem propose_eq_alternatives_leaves (d : Diagnostic) (unit : CompilationUnit) (family : Family) :
    let answers := (leaves family).map (propose d unit)
    let found := answers.flatMap proposed
    propose d unit family = propose d unit (.alternatives (leaves family)) ∧
      (∀ leaf ∈ leaves family, leaf.IsLeaf) ∧
      propose d unit family =
        match answers.findSome? fault?, answers.findSome? reason? with
        | some fault, _ => .error (.crash fault)
        | none, some reason => if found = [] then decline reason else .ok found
        | none, none => .ok found := by
  intro answers found
  have hcombine : combine answers = propose d unit family := combine_leaves family
  refine ⟨?_, isLeaf_of_mem_leaves family, ?_⟩
  · rw [propose, proposeEach_eq]
    exact hcombine.symm
  · rw [← hcombine]
    exact combine_eq answers

/-- A group within that proposes nothing declines for its own first reason. -/
example (d : Diagnostic) (unit : CompilationUnit) (later : FixError) :
    propose d unit (.alternatives [
      .alternatives [.foreign fun _ _ => .ok [], .foreign fun _ _ => decline .nothingToChange],
      .alternatives [], .foreign fun _ _ => decline later]) = decline .nothingToChange := rfl

end JakartaCheck.Family
