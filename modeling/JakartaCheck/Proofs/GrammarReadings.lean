import JakartaCheck.Java.Grammar
import Mathlib.Data.List.TakeWhile

/-!
# What a phrase reads

`Reads rules p used items` says that the phrase `p` can take in exactly the tokens `used` and build
`items` from them. It forgets the order of alternatives and the fuel, so it holds of every
successful run (`reads_of_run`), and a fact about what successful runs take in is an induction over
its derivations.

The analyses of phrases are computed from the phrase alone: whether it can be empty, with which
tokens it starts, and which nodes it can build at its outermost level.
-/

namespace JakartaCheck.Java.Phrase

variable {σ : Type} {rules : σ → Phrase σ}

/-! ### Readings -/

inductive Reads (rules : σ → Phrase σ) : Phrase σ → List Token → List Node → Prop
  | empty : Reads rules .empty [] []
  | token {kind : Kind} {pattern : Pattern} {t : Token} (h : pattern.accepts t.shape) :
      Reads rules (.token kind pattern) [t] (t.comments ++ [.mk kind none t.span []])
  | glued {parts : List String} {used : List Token} {items : List Node}
      (h : runGlued parts used = some (items, [])) : Reads rules (.glued parts) used items
  | seq {a b : Phrase σ} {us vs : List Token} {is js : List Node}
      (first : Reads rules a us is) (second : Reads rules b vs js) :
      Reads rules (.seq a b) (us ++ vs) (is ++ js)
  | first {a b : Phrase σ} {us : List Token} {is : List Node} (h : Reads rules a us is) :
      Reads rules (.alt a b) us is
  | second {a b : Phrase σ} {us : List Token} {is : List Node} (h : Reads rules b us is) :
      Reads rules (.alt a b) us is
  | done {p : Phrase σ} : Reads rules (.many p) [] []
  | more {p : Phrase σ} {us vs : List Token} {is js : List Node}
      (head : Reads rules p us is) (tail : Reads rules (.many p) vs js) :
      Reads rules (.many p) (us ++ vs) (is ++ js)
  | absent {p : Phrase σ} : Reads rules (.absent p) [] []
  | field {label : Field} {p : Phrase σ} {us : List Token} {is : List Node}
      (h : Reads rules p us is) : Reads rules (.field label p) us (Node.setField label is)
  | node {form : Form} {p : Phrase σ} {us : List Token} {is : List Node}
      (h : Reads rules p us is) : Reads rules (.node form p) us (Node.enclose form is)
  | rule {s : σ} {us : List Token} {is : List Node} (h : Reads rules (rules s) us is) :
      Reads rules (.rule s) us is
  | fork {base step : Phrase σ} {steps : List (Form × Option Field × Phrase σ)} {form : Form}
      {label : Option Field} {us vs : List Token} {is js : List Node}
      (start : Reads rules base us is) (mem : (form, label, step) ∈ steps)
      (next : Reads rules step vs js) :
      Reads rules (.fork base steps) (us ++ vs) (Node.enclose form (named label is ++ js))
  | base {base : Phrase σ} {steps : List (Form × Option Field × Phrase σ)} {us : List Token}
      {is : List Node} (start : Reads rules base us is) : Reads rules (.chain base steps) us is
  | grown {base step : Phrase σ} {steps : List (Form × Option Field × Phrase σ)} {form : Form}
      {label : Option Field} {us vs : List Token} {is js : List Node}
      (start : Reads rules (.chain base steps) us is) (mem : (form, label, step) ∈ steps)
      (next : Reads rules step vs js) :
      Reads rules (.chain base steps) (us ++ vs) (Node.enclose form (named label is ++ js))

theorem takeGlued_append {stop stop' : Nat} {parts : List String} {tokens rest : List Token}
    (h : takeGlued stop parts tokens = some (stop', rest)) :
    ∃ used, tokens = used ++ rest ∧ takeGlued stop parts used = some (stop', []) := by
  induction parts generalizing stop tokens with
  | nil =>
    cases h
    exact ⟨[], rfl, rfl⟩
  | cons part parts ih =>
    cases tokens with
    | nil => simp [takeGlued] at h
    | cons t tokens =>
      simp only [takeGlued] at h
      split at h
      · rename_i fits
        obtain ⟨used, rfl, taken⟩ := ih h
        refine ⟨t :: used, rfl, ?_⟩
        simp only [takeGlued]
        rw [if_pos fits]
        exact taken
      · cases h

theorem runGlued_cases {parts : List String} {tokens rest : List Token} {items : List Node}
    (h : runGlued parts tokens = some (items, rest)) :
    ∃ part parts' t tokens' stop, parts = part :: parts' ∧ tokens = t :: tokens' ∧
      (Pattern.text part).accepts t.shape ∧
      takeGlued t.span.stop parts' tokens' = some (stop, rest) ∧
      items = t.comments ++
        [.mk (.token (String.join (part :: parts'))) none ⟨t.span.start, stop⟩ []] := by
  match parts, tokens with
  | [], _ => simp [runGlued] at h
  | _ :: _, [] => simp [runGlued] at h
  | part :: parts, t :: tokens =>
    simp only [runGlued] at h
    split at h
    · rename_i accepted
      obtain ⟨⟨stop, rest'⟩, taken, eq⟩ := Option.map_eq_some_iff.1 h
      cases eq
      exact ⟨part, parts, t, tokens, stop, rfl, rfl, accepted, taken, rfl⟩
    · cases h

theorem runGlued_append {parts : List String} {tokens rest : List Token} {items : List Node}
    (h : runGlued parts tokens = some (items, rest)) :
    ∃ used, tokens = used ++ rest ∧ runGlued parts used = some (items, []) := by
  obtain ⟨part, parts, t, tokens, stop, rfl, rfl, accepted, taken, rfl⟩ := runGlued_cases h
  obtain ⟨used, rfl, alone⟩ := takeGlued_append taken
  refine ⟨t :: used, rfl, ?_⟩
  simp only [runGlued]
  rw [if_pos accepted, alone]
  rfl

theorem runStep_cases {fuel : Nat} {steps : List (Form × Option Field × Phrase σ)}
    {items out : List Node} {tokens rest : List Token}
    (h : runStep rules fuel steps items tokens = some (out, rest)) :
    ∃ form label step more fuel', fuel' < fuel ∧ (form, label, step) ∈ steps ∧
      run rules fuel' step tokens = some (more, rest) ∧
      out = Node.enclose form (named label items ++ more) := by
  induction fuel generalizing steps with
  | zero => simp [runStep] at h
  | succ fuel ih =>
    match steps with
    | [] => simp [runStep] at h
    | (form, label, step) :: steps =>
      simp only [runStep] at h
      split at h
      · rename_i more rest' ran
        cases h
        exact ⟨form, label, step, more, fuel, Nat.lt_succ_self _, List.mem_cons_self, ran, rfl⟩
      · obtain ⟨form', label', step', more, fuel', less, mem, ran, eq⟩ := ih h
        exact ⟨form', label', step', more, fuel', Nat.lt_succ_of_lt less,
          List.mem_cons_of_mem _ mem, ran, eq⟩

/-- Every successful run is a reading, also if it goes on from what a chain has read before. -/
theorem reads_of_run_aux (fuel : Nat) :
    (∀ p tokens items rest, run rules fuel p tokens = some (items, rest) →
      ∃ used, tokens = used ++ rest ∧ Reads rules p used items) ∧
    (∀ base steps before items tokens out rest, Reads rules (.chain base steps) before items →
      grow rules fuel steps items tokens = some (out, rest) →
      ∃ used, tokens = used ++ rest ∧ Reads rules (.chain base steps) (before ++ used) out) := by
  -- the step that fits ran with as much less fuel as there were steps before it
  induction fuel using Nat.strongRecOn with
  | _ fuel ih =>
    match fuel with
    | 0 => exact ⟨fun _ _ _ _ h => by simp [run] at h, fun _ _ _ _ _ _ _ _ h => by simp [grow] at h⟩
    | fuel + 1 =>
      have ihRun := (ih fuel (Nat.lt_succ_self _)).1
      have ihGrow := (ih fuel (Nat.lt_succ_self _)).2
      constructor
      · intro p tokens items rest h
        cases p with
        | empty =>
          cases h
          exact ⟨[], rfl, .empty⟩
        | token kind pattern =>
          simp only [run] at h
          split at h
          · rename_i t rest'
            split at h
            · rename_i accepted
              cases h
              exact ⟨[t], rfl, .token accepted⟩
            · cases h
          · cases h
        | glued parts =>
          simp only [run] at h
          obtain ⟨used, rfl, ran⟩ := runGlued_append h
          exact ⟨used, rfl, .glued ran⟩
        | seq a b =>
          simp only [run] at h
          split at h
          · cases h
          · rename_i is mid ranA
            split at h
            · cases h
            · rename_i js rest' ranB
              cases h
              obtain ⟨us, rfl, readA⟩ := ihRun _ _ _ _ ranA
              obtain ⟨vs, rfl, readB⟩ := ihRun _ _ _ _ ranB
              exact ⟨us ++ vs, by rw [List.append_assoc], .seq readA readB⟩
        | alt a b =>
          simp only [run] at h
          split at h
          · rename_i result ranA
            cases h
            obtain ⟨us, rfl, readA⟩ := ihRun _ _ _ _ ranA
            exact ⟨us, rfl, .first readA⟩
          · obtain ⟨us, rfl, readB⟩ := ihRun _ _ _ _ h
            exact ⟨us, rfl, .second readB⟩
        | many item =>
          simp only [run] at h
          split at h
          · cases h
            exact ⟨[], rfl, .done⟩
          · rename_i is mid ran
            split at h
            · cases h
            · rename_i js rest' ranMany
              cases h
              obtain ⟨us, rfl, head⟩ := ihRun _ _ _ _ ran
              obtain ⟨vs, rfl, tail⟩ := ihRun _ _ _ _ ranMany
              exact ⟨us ++ vs, by rw [List.append_assoc], .more head tail⟩
        | absent item =>
          simp only [run] at h
          split at h
          · cases h
            exact ⟨[], rfl, .absent⟩
          · cases h
        | field label item =>
          simp only [run] at h
          split at h
          · cases h
          · rename_i is rest' ran
            cases h
            obtain ⟨us, rfl, read⟩ := ihRun _ _ _ _ ran
            exact ⟨us, rfl, .field read⟩
        | node form item =>
          simp only [run] at h
          split at h
          · cases h
          · rename_i is rest' ran
            cases h
            obtain ⟨us, rfl, read⟩ := ihRun _ _ _ _ ran
            exact ⟨us, rfl, .node read⟩
        | rule target =>
          simp only [run] at h
          obtain ⟨us, rfl, read⟩ := ihRun _ _ _ _ h
          exact ⟨us, rfl, .rule read⟩
        | fork base steps =>
          simp only [run] at h
          split at h
          · cases h
          · rename_i is mid ran
            obtain ⟨us, rfl, read⟩ := ihRun _ _ _ _ ran
            obtain ⟨form, label, step, more, fuel', less, mem, ranStep, rfl⟩ := runStep_cases h
            obtain ⟨vs, rfl, readStep⟩ :=
              (ih fuel' (Nat.lt_succ_of_lt less)).1 _ _ _ _ ranStep
            exact ⟨us ++ vs, by rw [List.append_assoc], .fork read mem readStep⟩
        | chain base steps =>
          simp only [run] at h
          split at h
          · cases h
          · rename_i is mid ran
            obtain ⟨us, rfl, read⟩ := ihRun _ _ _ _ ran
            obtain ⟨vs, rfl, grown⟩ := ihGrow _ _ us _ _ _ _ (.base read) h
            exact ⟨us ++ vs, by rw [List.append_assoc], grown⟩
      · intro base steps before items tokens out rest read h
        simp only [grow] at h
        split at h
        · cases h
          exact ⟨[], rfl, by rwa [List.append_nil]⟩
        · rename_i items' mid ranStep
          obtain ⟨form, label, step, more, fuel', less, mem, ran, rfl⟩ := runStep_cases ranStep
          obtain ⟨vs, rfl, readStep⟩ :=
            (ih fuel' (Nat.lt_succ_of_lt less)).1 _ _ _ _ ran
          obtain ⟨ws, rfl, grown⟩ := ihGrow _ _ (before ++ vs) _ _ _ _ (.grown read mem readStep) h
          refine ⟨vs ++ ws, by rw [List.append_assoc], ?_⟩
          rwa [← List.append_assoc]

theorem reads_of_run {fuel : Nat} {p : Phrase σ} {tokens rest : List Token} {items : List Node}
    (h : run rules fuel p tokens = some (items, rest)) :
    ∃ used, tokens = used ++ rest ∧ Reads rules p used items :=
  (reads_of_run_aux fuel).1 _ _ _ _ h

/-! ### Phrases that can be empty -/

mutual

/-- Can the phrase fit without reading a token? No rule can. -/
def nullable : Phrase σ → Bool
  | .empty => true
  | .token _ _ => false
  | .glued _ => false
  | .seq a b => a.nullable && b.nullable
  | .alt a b => a.nullable || b.nullable
  | .many _ => true
  | .absent _ => true
  | .field _ p => p.nullable
  | .node _ p => p.nullable
  | .rule _ => false
  | .fork base steps => base.nullable && nullableAny steps
  | .chain base _ => base.nullable

def nullableAny : List (Form × Option Field × Phrase σ) → Bool
  | [] => false
  | (_, _, p) :: steps => p.nullable || nullableAny steps

end

theorem nullableAny_of_mem {form : Form} {label : Option Field} {p : Phrase σ}
    {steps : List (Form × Option Field × Phrase σ)} (mem : (form, label, p) ∈ steps)
    (h : p.nullable) : nullableAny steps := by
  induction steps with
  | nil => cases mem
  | cons step steps ih =>
    rcases List.mem_cons.1 mem with rfl | mem
    · simp only [nullableAny, h, Bool.true_or]
    · simp only [nullableAny, ih mem, Bool.or_true]

theorem Reads.nullable (solid : ∀ s, (rules s).nullable = false) {p : Phrase σ}
    {used : List Token} {items : List Node} (h : Reads rules p used items) (none : used = []) :
    p.nullable = true ∧ items = [] := by
  induction h with
  | empty => exact ⟨rfl, rfl⟩
  | token => cases none
  | @glued parts used items ran =>
    obtain ⟨part, parts, t, tokens, stop, -, rfl, -⟩ := runGlued_cases ran
    cases none
  | seq _ _ ihA ihB =>
    obtain ⟨ha, rfl⟩ := ihA (List.append_eq_nil_iff.1 none).1
    obtain ⟨hb, rfl⟩ := ihB (List.append_eq_nil_iff.1 none).2
    exact ⟨by simp [Phrase.nullable, ha, hb], rfl⟩
  | first _ ih => exact ⟨by simp [Phrase.nullable, (ih none).1], (ih none).2⟩
  | second _ ih => exact ⟨by simp [Phrase.nullable, (ih none).1], (ih none).2⟩
  | done => exact ⟨rfl, rfl⟩
  | more _ _ ihHead ihTail =>
    obtain ⟨-, rfl⟩ := ihHead (List.append_eq_nil_iff.1 none).1
    obtain ⟨-, rfl⟩ := ihTail (List.append_eq_nil_iff.1 none).2
    exact ⟨rfl, rfl⟩
  | absent => exact ⟨rfl, rfl⟩
  | field _ ih =>
    obtain ⟨h, rfl⟩ := ih none
    exact ⟨h, rfl⟩
  | node _ ih =>
    obtain ⟨h, rfl⟩ := ih none
    exact ⟨h, rfl⟩
  | @rule s _ _ _ ih =>
    have := (ih none).1
    rw [solid s] at this
    cases this
  | @fork _ _ _ _ label _ _ _ _ _ mem _ ihBase ihStep =>
    obtain ⟨hBase, rfl⟩ := ihBase (List.append_eq_nil_iff.1 none).1
    obtain ⟨hStep, rfl⟩ := ihStep (List.append_eq_nil_iff.1 none).2
    refine ⟨by simp [Phrase.nullable, hBase, nullableAny_of_mem mem hStep], ?_⟩
    cases label <;> rfl
  | base _ ih => exact ih none
  | @grown _ _ _ _ label _ _ _ _ _ _ _ ihChain ihStep =>
    obtain ⟨hChain, rfl⟩ := ihChain (List.append_eq_nil_iff.1 none).1
    obtain ⟨-, rfl⟩ := ihStep (List.append_eq_nil_iff.1 none).2
    refine ⟨hChain, ?_⟩
    cases label <;> rfl

/-- A phrase that cannot be empty makes the rest shorter. -/
theorem length_rest_lt (solid : ∀ s, (rules s).nullable = false) {fuel : Nat} {p : Phrase σ}
    {tokens rest : List Token} {items : List Node} (hp : p.nullable = false)
    (h : run rules fuel p tokens = some (items, rest)) : rest.length < tokens.length := by
  obtain ⟨used, rfl, reads⟩ := reads_of_run h
  have : used ≠ [] := by
    rintro rfl
    rw [(reads.nullable solid rfl).1] at hp
    cases hp
  have := List.length_pos_iff.2 this
  rw [List.length_append]
  omega

theorem length_rest_le {fuel : Nat} {p : Phrase σ} {tokens rest : List Token}
    {items : List Node} (h : run rules fuel p tokens = some (items, rest)) :
    rest.length ≤ tokens.length := by
  obtain ⟨used, rfl, -⟩ := reads_of_run h
  rw [List.length_append]
  omega

/-! ### First tokens -/

mutual

/-- Can the phrase start with a token of a pattern that `hit` names, if the rules that can are
those in `known`? -/
def mayStart (hit : Pattern → Bool) (known : σ → Bool) : Phrase σ → Bool
  | .empty => false
  | .token _ pattern => hit pattern
  | .glued parts => parts.head?.any fun part => hit (.text part)
  | .seq a b => a.mayStart hit known || (a.nullable && b.mayStart hit known)
  | .alt a b => a.mayStart hit known || b.mayStart hit known
  | .many p => p.mayStart hit known
  | .absent _ => false
  | .field _ p => p.mayStart hit known
  | .node _ p => p.mayStart hit known
  | .rule s => known s
  | .fork base steps =>
    base.mayStart hit known || (base.nullable && mayStartAny hit known steps)
  | .chain base steps =>
    base.mayStart hit known || (base.nullable && mayStartAny hit known steps)

def mayStartAny (hit : Pattern → Bool) (known : σ → Bool) :
    List (Form × Option Field × Phrase σ) → Bool
  | [] => false
  | (_, _, p) :: steps => p.mayStart hit known || mayStartAny hit known steps

end

/-- The rules that can start so, as far as following rules `depth` times tells. -/
def ruleStarts (rules : σ → Phrase σ) (hit : Pattern → Bool) : Nat → σ → Bool
  | 0, _ => true
  | depth + 1, s => (rules s).mayStart hit (ruleStarts rules hit depth)

theorem mayStartAny_of_mem {hit : Pattern → Bool} {known : σ → Bool} {form : Form}
    {label : Option Field} {p : Phrase σ} {steps : List (Form × Option Field × Phrase σ)}
    (mem : (form, label, p) ∈ steps) (h : p.mayStart hit known) :
    mayStartAny hit known steps := by
  induction steps with
  | nil => cases mem
  | cons step steps ih =>
    rcases List.mem_cons.1 mem with rfl | mem
    · simp only [mayStartAny, h, Bool.true_or]
    · simp only [mayStartAny, ih mem, Bool.or_true]

/-- The first token of what a phrase reads fits a pattern that the phrase can start with. -/
theorem Reads.mayStart (solid : ∀ s, (rules s).nullable = false) {hit : Pattern → Bool}
    {t : Token} (all : ∀ pattern : Pattern, pattern.accepts t.shape → hit pattern)
    {p : Phrase σ} {used tail : List Token} {items : List Node} (h : Reads rules p used items)
    (start : used = t :: tail) (depth : Nat) :
    p.mayStart hit (ruleStarts rules hit depth) = true := by
  induction h generalizing depth tail with
  | empty => cases start
  | token accepted =>
    cases start
    exact all _ accepted
  | @glued parts used items ran =>
    obtain ⟨part, parts, u, tokens, stop, rfl, rfl, accepted, -⟩ := runGlued_cases ran
    cases start
    simpa [Phrase.mayStart] using all _ accepted
  | @seq a b us vs is js readA _ ihA ihB =>
    cases us with
    | nil =>
      simp [Phrase.mayStart, (readA.nullable solid rfl).1, ihB start depth]
    | cons u us =>
      cases start
      simp [Phrase.mayStart, ihA rfl depth]
  | first _ ih => simp [Phrase.mayStart, ih start depth]
  | second _ ih => simp [Phrase.mayStart, ih start depth]
  | done => cases start
  | @more p us vs is js _ _ ihHead ihTail =>
    cases us with
    | nil => exact ihTail start depth
    | cons u us =>
      cases start
      exact ihHead rfl depth
  | absent => cases start
  | field _ ih => exact ih start depth
  | node _ ih => exact ih start depth
  | rule _ ih =>
    -- where the depth is used up, every rule counts as one that can start so
    cases depth with
    | zero => rfl
    | succ depth => exact ih start depth
  | @fork base step steps form label us vs is js readBase mem _ ihBase ihStep =>
    cases us with
    | nil =>
      simp [Phrase.mayStart, (readBase.nullable solid rfl).1,
        mayStartAny_of_mem mem (ihStep start depth)]
    | cons u us =>
      cases start
      simp [Phrase.mayStart, ihBase rfl depth]
  | base _ ih => simp [Phrase.mayStart, ih start depth]
  | @grown base step steps form label us vs is js readChain mem _ ihChain ihStep =>
    cases us with
    | nil =>
      have : base.nullable = true := (readChain.nullable solid rfl).1
      simp [Phrase.mayStart, this, mayStartAny_of_mem mem (ihStep start depth)]
    | cons u us =>
      cases start
      exact ihChain rfl depth

theorem run_eq_none_of_mayStart (solid : ∀ s, (rules s).nullable = false) {hit : Pattern → Bool}
    {t : Token} (all : ∀ pattern : Pattern, pattern.accepts t.shape → hit pattern) (depth : Nat)
    {p : Phrase σ} (hp : p.nullable = false)
    (h : p.mayStart hit (ruleStarts rules hit depth) = false) (fuel : Nat) (tokens : List Token) :
    run rules fuel p (t :: tokens) = none := by
  cases ran : run rules fuel p (t :: tokens) with
  | none => rfl
  | some result =>
    obtain ⟨items, rest⟩ := result
    obtain ⟨used, split, reads⟩ := reads_of_run ran
    cases used with
    | nil =>
      rw [(reads.nullable solid rfl).1] at hp
      cases hp
    | cons u used =>
      cases split
      rw [reads.mayStart solid all rfl depth] at h
      cases h

/-! ### Outermost nodes -/

/-- Are the leaves that the phrase builds at its outermost level of the kinds that `leaf` names and
the enclosed nodes of the forms that `inner` names, if those of the rules in `known` are? -/
def yieldsOnly (leaf : Kind → Bool) (inner : Form → Bool) (known : σ → Bool) : Phrase σ → Bool
  | .empty => true
  | .token kind _ => leaf kind
  | .glued parts => leaf (.token (String.join parts))
  | .seq a b => a.yieldsOnly leaf inner known && b.yieldsOnly leaf inner known
  | .alt a b => a.yieldsOnly leaf inner known && b.yieldsOnly leaf inner known
  | .many p => p.yieldsOnly leaf inner known
  | .absent _ => true
  | .field _ p => p.yieldsOnly leaf inner known
  | .node form _ => inner form
  | .rule s => known s
  | .fork _ steps => steps.all fun step => inner step.1
  | .chain base steps =>
    base.yieldsOnly leaf inner known && steps.all fun step => inner step.1

/-- The rules that build only such nodes, as far as following rules `depth` times tells. -/
def ruleYieldsOnly (rules : σ → Phrase σ) (leaf : Kind → Bool) (inner : Form → Bool) :
    Nat → σ → Bool
  | 0, _ => false
  | depth + 1, s => (rules s).yieldsOnly leaf inner (ruleYieldsOnly rules leaf inner depth)

mutual

/-- Can the phrase build a node of the form `f` at its outermost level, if the rules that can are
those in `known`? -/
def mayYield (f : Form) (known : σ → Bool) : Phrase σ → Bool
  | .empty => false
  | .token kind _ => kind == .form f
  | .glued _ => false
  | .seq a b => a.mayYield f known || b.mayYield f known
  | .alt a b => a.mayYield f known || b.mayYield f known
  | .many p => p.mayYield f known
  | .absent _ => false
  | .field _ p => p.mayYield f known
  | .node form _ => form == f
  | .rule s => known s
  | .fork _ steps => mayYieldAny f steps
  | .chain base steps => base.mayYield f known || mayYieldAny f steps

def mayYieldAny (f : Form) : List (Form × Option Field × Phrase σ) → Bool
  | [] => false
  | (form, _, _) :: steps => form == f || mayYieldAny f steps

end

/-- The rules that can build such a node, as far as following rules `depth` times tells. -/
def ruleYields (rules : σ → Phrase σ) (f : Form) : Nat → σ → Bool
  | 0, _ => true
  | depth + 1, s => (rules s).mayYield f (ruleYields rules f depth)

/-- Comments and one node, or only comments. -/
theorem enclose_cases (form : Form) (items : List Node) :
    (∃ front span children, Node.enclose form items =
        front ++ [.mk (.form form) none span children] ∧ (∀ c ∈ front, c.isComment = true) ∧
        children ≠ []) ∨
      ∀ c ∈ Node.enclose form items, c.isComment = true := by
  simp only [Node.enclose]
  split
  · rename_i first last hfirst hlast
    refine .inl ⟨_, _, _, rfl, fun c hc => List.mem_takeWhile_imp hc, fun none => ?_⟩
    rw [none] at hfirst
    cases hfirst
  · rename_i body
    -- without a token inside there is nothing to enclose
    have : items.dropWhile Node.isComment = [] := by
      cases eq : items.dropWhile Node.isComment with
      | nil => rfl
      | cons first tail =>
        obtain ⟨last, hl⟩ : ∃ last, (first :: tail).getLast? = some last :=
          ⟨_, List.getLast?_eq_some_getLast (List.cons_ne_nil _ _)⟩
        exact absurd hl (body first last (by rw [eq]; rfl) ∘ (eq ▸ ·))
    exact .inr (List.dropWhile_eq_nil_iff.1 this)

theorem enclose_single {form : Form} {items : List Node} {n : Node}
    (h : n ∈ Node.enclose form items) (hn : n.isComment = false) :
    ∃ front, Node.enclose form items = front ++ [n] ∧ ∀ c ∈ front, c.isComment = true := by
  rcases enclose_cases form items with ⟨front, span, children, eq, comments, -⟩ | comments
  · rw [eq] at h
    rcases List.mem_append.1 h with h | h
    · rw [comments n h] at hn
      cases hn
    · rw [List.mem_singleton.1 h]
      exact ⟨front, eq, comments⟩
  · rw [comments n h] at hn
    cases hn

theorem enclosed_of_mem {form : Form} {items : List Node} {n : Node}
    (h : n ∈ Node.enclose form items) (hn : n.isComment = false) :
    n.kind = .form form ∧ n.children ≠ [] := by
  rcases enclose_cases form items with ⟨front, span, children, eq, comments, some⟩ | comments
  · rw [eq] at h
    rcases List.mem_append.1 h with h | h
    · rw [comments n h] at hn
      cases hn
    · rw [List.mem_singleton.1 h]
      exact ⟨rfl, some⟩
  · rw [comments n h] at hn
    cases hn

/-- The nodes at the outermost level are of the kinds that the phrase builds there, or comments. -/
theorem Reads.yieldsOnly {leaf : Kind → Bool} {inner : Form → Bool} {p : Phrase σ}
    {used : List Token} {items : List Node} {depth : Nat} (h : Reads rules p used items)
    (hp : p.yieldsOnly leaf inner (ruleYieldsOnly rules leaf inner depth) = true)
    (comments : ∀ t ∈ used, ∀ c ∈ t.comments, c.isComment = true) {n : Node} (mem : n ∈ items)
    (hn : n.isComment = false) :
    n.children = [] ∧ leaf n.kind = true ∨
      n.children ≠ [] ∧ ∃ form, n.kind = .form form ∧ inner form = true := by
  induction h generalizing n depth with
  | empty => cases mem
  | @token kind pattern t accepted =>
    rcases List.mem_append.1 mem with mem | mem
    · rw [comments t List.mem_cons_self n mem] at hn
      cases hn
    · obtain rfl := List.mem_singleton.1 mem
      exact .inl ⟨rfl, hp⟩
  | @glued parts used items ran =>
    obtain ⟨part, parts, t, tokens, stop, rfl, rfl, -, -, rfl⟩ := runGlued_cases ran
    rcases List.mem_append.1 mem with mem | mem
    · rw [comments t List.mem_cons_self n mem] at hn
      cases hn
    · obtain rfl := List.mem_singleton.1 mem
      exact .inl ⟨rfl, hp⟩
  | seq _ _ ihA ihB =>
    simp only [Phrase.yieldsOnly, Bool.and_eq_true] at hp
    rcases List.mem_append.1 mem with mem | mem
    · exact ihA hp.1 (fun t ht => comments t (List.mem_append_left _ ht)) mem hn
    · exact ihB hp.2 (fun t ht => comments t (List.mem_append_right _ ht)) mem hn
  | first _ ih =>
    simp only [Phrase.yieldsOnly, Bool.and_eq_true] at hp
    exact ih hp.1 comments mem hn
  | second _ ih =>
    simp only [Phrase.yieldsOnly, Bool.and_eq_true] at hp
    exact ih hp.2 comments mem hn
  | done => cases mem
  | more _ _ ihHead ihTail =>
    rcases List.mem_append.1 mem with mem | mem
    · exact ihHead hp (fun t ht => comments t (List.mem_append_left _ ht)) mem hn
    · exact ihTail hp (fun t ht => comments t (List.mem_append_right _ ht)) mem hn
  | absent => cases mem
  | field _ ih =>
    obtain ⟨⟨kind, field, span, children⟩, unnamed, rfl⟩ := List.mem_map.1 mem
    have here := ih hp comments unnamed
    dsimp only at hn ⊢
    split at hn
    · rename_i comment
      rw [comment] at hn
      cases hn
    · rename_i comment
      rw [if_neg comment]
      exact here (Bool.eq_false_iff.2 comment)
  | node _ _ =>
    obtain ⟨kind, some⟩ := enclosed_of_mem mem hn
    exact .inr ⟨some, _, kind, hp⟩
  | rule _ ih =>
    cases depth with
    | zero => cases hp
    | succ depth => exact ih hp comments mem hn
  | fork _ memStep _ _ _ =>
    obtain ⟨kind, some⟩ := enclosed_of_mem mem hn
    exact .inr ⟨some, _, kind, List.all_eq_true.1 hp _ memStep⟩
  | base _ ih =>
    simp only [Phrase.yieldsOnly, Bool.and_eq_true] at hp
    exact ih hp.1 comments mem hn
  | grown _ memStep _ _ _ =>
    simp only [Phrase.yieldsOnly, Bool.and_eq_true] at hp
    obtain ⟨kind, some⟩ := enclosed_of_mem mem hn
    exact .inr ⟨some, _, kind, List.all_eq_true.1 hp.2 _ memStep⟩

/-! Whether a phrase can build nodes of one form is the same question for all other forms. -/

theorem mayYieldAny_eq (f : Form) (steps : List (Form × Option Field × Phrase σ)) :
    mayYieldAny f steps = !steps.all fun step => step.1 != f := by
  induction steps with
  | nil => rfl
  | cons step steps ih => rw [mayYieldAny, ih, List.all_cons, Bool.not_and, bne, Bool.not_not]

theorem mayYield_eq (f : Form) (known : σ → Bool) :
    ∀ p : Phrase σ, p.mayYield f known = !p.yieldsOnly (· != .form f) (· != f) fun s => !known s
  | .empty | .glued _ | .absent _ => rfl
  | .token _ _ | .node _ _ | .rule _ => (Bool.not_not _).symm
  | .many p | .field _ p => by rw [mayYield, yieldsOnly, mayYield_eq f known p]
  | .seq a b | .alt a b => by
    rw [mayYield, yieldsOnly, mayYield_eq f known a, mayYield_eq f known b, Bool.not_and]
  | .fork _ steps => by rw [mayYield, yieldsOnly, mayYieldAny_eq]
  | .chain base steps => by
    rw [mayYield, yieldsOnly, mayYield_eq f known base, mayYieldAny_eq, Bool.not_and]

theorem ruleYields_eq (f : Form) (depth : Nat) (s : σ) :
    ruleYields rules f depth s = !ruleYieldsOnly rules (· != .form f) (· != f) depth s := by
  induction depth generalizing s with
  | zero => rfl
  | succ depth ih =>
    rw [ruleYields, mayYield_eq, ruleYieldsOnly]
    simp only [ih, Bool.not_not]

/-- A node that a phrase builds at its outermost level is one it can build there, or a comment. -/
theorem Reads.mayYield {f : Form} {p : Phrase σ} {used : List Token} {items : List Node}
    (h : Reads rules p used items) (comments : ∀ t ∈ used, ∀ c ∈ t.comments, c.isComment = true)
    {n : Node} (mem : n ∈ items) (hn : n.isComment = false) (hf : n.kind = .form f)
    (depth : Nat) : p.mayYield f (ruleYields rules f depth) = true := by
  rw [mayYield_eq]
  simp only [ruleYields_eq, Bool.not_not, Bool.not_eq_true']
  by_contra other
  rcases h.yieldsOnly (Bool.not_eq_false _ ▸ other) comments mem hn with
    ⟨-, leaf⟩ | ⟨-, form, kind, inner⟩
  · simp [hf] at leaf
  · obtain rfl := Kind.form.inj (hf.symm.trans kind)
    simp at inner

end JakartaCheck.Java.Phrase
