import JakartaCheck.Proofs.GrammarReadings

/-!
# Fuel that suffices

A run that has enough fuel gives the same result with more. `cost` bounds the calls that a phrase
nests before it has read a token, and a token pays for `depth` calls. What follows a token may
again nest `depth` calls, so `fits` checks that no part of a phrase costs more.
-/

namespace JakartaCheck.Java.Phrase

variable {σ : Type} {rules : σ → Phrase σ}

mutual

/-- The calls that a run of the phrase nests before a token is read, where a rule nests `rank`. -/
def cost (rank : σ → Nat) : Phrase σ → Nat
  | .empty => 1
  | .token _ _ => 1
  | .glued _ => 1
  | .seq a b => 1 + max (a.cost rank) (if a.nullable then b.cost rank else 0)
  | .alt a b => 1 + max (a.cost rank) (b.cost rank)
  | .many p => 1 + p.cost rank
  | .absent p => 1 + p.cost rank
  | .field _ p => 1 + p.cost rank
  | .node _ p => 1 + p.cost rank
  | .rule s => 1 + rank s
  | .fork base steps =>
    1 + max (base.cost rank) (if base.nullable then costSteps rank steps else 0)
  | .chain base steps =>
    1 + max (base.cost rank) (if base.nullable then 1 + costSteps rank steps else 0)

def costSteps (rank : σ → Nat) : List (Form × Option Field × Phrase σ) → Nat
  | [] => 1
  | (_, _, p) :: steps => 1 + max (p.cost rank) (costSteps rank steps)

end

mutual

/-- Does no part of the phrase cost more than `depth`, and does each repetition read something? -/
def fits (rank : σ → Nat) (depth : Nat) : Phrase σ → Bool
  | .empty => true
  | .token _ _ => true
  | .glued _ => true
  | .seq a b => a.fits rank depth && b.fits rank depth && decide (b.cost rank ≤ depth)
  | .alt a b => a.fits rank depth && b.fits rank depth
  | .many p => p.fits rank depth && !p.nullable
  | .absent p => p.fits rank depth
  | .field _ p => p.fits rank depth
  | .node _ p => p.fits rank depth
  | .rule _ => true
  | .fork base steps =>
    base.fits rank depth && fitsAll rank depth steps && decide (costSteps rank steps ≤ depth)
  | .chain base steps =>
    base.fits rank depth && fitsAll rank depth steps && !nullableAny steps &&
      decide (1 + costSteps rank steps ≤ depth)

def fitsAll (rank : σ → Nat) (depth : Nat) : List (Form × Option Field × Phrase σ) → Bool
  | [] => true
  | (_, _, p) :: steps => p.fits rank depth && fitsAll rank depth steps

end

theorem one_le_cost (rank : σ → Nat) (p : Phrase σ) : 1 ≤ p.cost rank := by
  cases p <;> simp only [cost] <;> omega

theorem one_le_costSteps (rank : σ → Nat) (steps : List (Form × Option Field × Phrase σ)) :
    1 ≤ costSteps rank steps := by
  cases steps with
  | nil => exact Nat.le_refl 1
  | cons step steps => simp only [costSteps]; omega

theorem length_rest_lt_of_runStep (solid : ∀ s, (rules s).nullable = false) {fuel : Nat}
    {steps : List (Form × Option Field × Phrase σ)} (hs : nullableAny steps = false)
    {items out : List Node} {tokens rest : List Token}
    (h : runStep rules fuel steps items tokens = some (out, rest)) :
    rest.length < tokens.length := by
  obtain ⟨form, label, step, more, fuel', -, mem, ran, -⟩ := runStep_cases h
  refine length_rest_lt solid ?_ ran
  cases hp : step.nullable with
  | false => rfl
  | true =>
    rw [nullableAny_of_mem mem hp] at hs
    cases hs

section Stable

variable {rank : σ → Nat} {depth : Nat}

theorem fuel_of_le (depth : Nat) {rest tokens : List Token} (h : rest.length ≤ tokens.length) :
    depth * rest.length ≤ depth * tokens.length :=
  Nat.mul_le_mul_left _ h

theorem fuel_of_lt (depth : Nat) {rest tokens : List Token} (h : rest.length < tokens.length) :
    depth * rest.length + depth ≤ depth * tokens.length := by
  rw [← Nat.mul_succ]
  exact Nat.mul_le_mul_left _ h

/-- The fuel that is left behind a first part suffices for a second one that costs `n`. -/
theorem fuel_behind (solid : ∀ s, (rules s).nullable = false) {a : Phrase σ} {n fuel : Nat}
    {items : List Node} {tokens rest : List Token} (small : n ≤ depth)
    (enough : depth * tokens.length + (1 + max (a.cost rank) (if a.nullable then n else 0)) ≤
      fuel + 1)
    (ran : run rules fuel a tokens = some (items, rest)) : depth * rest.length + n ≤ fuel := by
  cases ha : a.nullable with
  | true =>
    have := fuel_of_le depth (length_rest_le ran)
    rw [ha, if_pos rfl] at enough
    omega
  | false =>
    -- the first part has read a token, which pays for the second part whatever it costs
    have := fuel_of_lt depth (length_rest_lt solid ha ran)
    omega

/-- One more unit of fuel changes nothing. -/
theorem run_succ_aux (pos : 0 < depth) (solid : ∀ s, (rules s).nullable = false)
    (ranked : ∀ s, (rules s).cost rank ≤ rank s ∧ (rules s).fits rank depth = true) (fuel : Nat) :
    (∀ p tokens, p.fits rank depth = true → depth * tokens.length + p.cost rank ≤ fuel →
      run rules (fuel + 1) p tokens = run rules fuel p tokens) ∧
    (∀ steps items tokens, fitsAll rank depth steps = true →
      depth * tokens.length + costSteps rank steps ≤ fuel →
      runStep rules (fuel + 1) steps items tokens = runStep rules fuel steps items tokens) ∧
    (∀ steps items tokens, fitsAll rank depth steps = true → nullableAny steps = false →
      1 + costSteps rank steps ≤ depth →
      depth * tokens.length + (1 + costSteps rank steps) ≤ fuel →
      grow rules (fuel + 1) steps items tokens = grow rules fuel steps items tokens) := by
  -- a phrase, a list of steps and a growing chain call each other, always with less fuel
  induction fuel with
  | zero =>
    refine ⟨fun p tokens _ h => ?_, fun steps _ tokens _ h => ?_, fun steps _ tokens _ _ _ h => ?_⟩
    · have := one_le_cost rank p
      omega
    · have := one_le_costSteps rank steps
      omega
    · omega
  | succ fuel ih =>
    obtain ⟨ihRun, ihStep, ihGrow⟩ := ih
    refine ⟨fun p tokens fit enough => ?_, fun steps items tokens fit enough => ?_,
      fun steps items tokens fit solidSteps small enough => ?_⟩
    · rw [run.eq_def rules (fuel + 1 + 1), run.eq_def rules (fuel + 1)]
      cases p with
      | empty => rfl
      | token kind pattern => rfl
      | glued parts => rfl
      | seq a b =>
        simp only [fits, Bool.and_eq_true, decide_eq_true_eq] at fit
        simp only [cost] at enough
        have first := ihRun a tokens fit.1.1 (by omega)
        simp only [first]
        cases ran : run rules fuel a tokens with
        | none => rfl
        | some result =>
          obtain ⟨items, rest⟩ := result
          have second := ihRun b rest fit.1.2 (fuel_behind solid fit.2 enough ran)
          simp only [second]
      | alt a b =>
        simp only [fits, Bool.and_eq_true] at fit
        simp only [cost] at enough
        have first := ihRun a tokens fit.1 (by omega)
        have second := ihRun b tokens fit.2 (by omega)
        simp only [first, second]
      | many item =>
        have fitItem := fit
        simp only [fits, Bool.and_eq_true, Bool.not_eq_true'] at fitItem
        simp only [cost] at enough
        have head := ihRun item tokens fitItem.1 (by omega)
        simp only [head]
        cases ran : run rules fuel item tokens with
        | none => rfl
        | some result =>
          obtain ⟨items, rest⟩ := result
          have tail : run rules (fuel + 1) (.many item) rest = run rules fuel (.many item) rest := by
            apply ihRun _ rest fit
            -- the item is not nullable: the token it has read pays for the other items
            have less := length_rest_lt solid fitItem.2 ran
            have := fuel_of_lt depth less
            simp only [cost]
            omega
          simp only [tail]
      | absent item =>
        simp only [cost] at enough
        simp only [ihRun item tokens fit (by omega)]
      | field label item =>
        simp only [cost] at enough
        simp only [ihRun item tokens fit (by omega)]
      | node form item =>
        simp only [cost] at enough
        simp only [ihRun item tokens fit (by omega)]
      | rule s =>
        simp only [cost] at enough
        have := (ranked s).1
        exact ihRun (rules s) tokens (ranked s).2 (by omega)
      | fork base steps =>
        simp only [fits, Bool.and_eq_true, decide_eq_true_eq] at fit
        simp only [cost] at enough
        have start := ihRun base tokens fit.1.1 (by omega)
        simp only [start]
        cases ran : run rules fuel base tokens with
        | none => rfl
        | some result =>
          obtain ⟨items, rest⟩ := result
          exact ihStep steps items rest fit.1.2 (fuel_behind solid fit.2 enough ran)
      | chain base steps =>
        simp only [fits, Bool.and_eq_true, decide_eq_true_eq, Bool.not_eq_true'] at fit
        simp only [cost] at enough
        have start := ihRun base tokens fit.1.1.1 (by omega)
        simp only [start]
        cases ran : run rules fuel base tokens with
        | none => rfl
        | some result =>
          obtain ⟨items, rest⟩ := result
          exact ihGrow steps items rest fit.1.1.2 fit.1.2 fit.2
            (fuel_behind solid fit.2 enough ran)
    · rw [runStep.eq_def rules (fuel + 1 + 1), runStep.eq_def rules (fuel + 1)]
      cases steps with
      | nil => rfl
      | cons step steps =>
        obtain ⟨form, label, step⟩ := step
        simp only [fitsAll, Bool.and_eq_true] at fit
        simp only [costSteps] at enough
        have first := ihRun step tokens fit.1 (by omega)
        have others := ihStep steps items tokens fit.2 (by omega)
        simp only [first, others]
    · rw [grow.eq_def rules (fuel + 1 + 1), grow.eq_def rules (fuel + 1)]
      have step := ihStep steps items tokens fit (by omega)
      simp only [step]
      cases ran : runStep rules fuel steps items tokens with
      | none => rfl
      | some result =>
        obtain ⟨out, rest⟩ := result
        have less := length_rest_lt_of_runStep solid solidSteps ran
        have := fuel_of_lt depth less
        apply ihGrow steps out rest fit solidSteps small
        omega

/-- More fuel than enough changes nothing. -/
theorem run_stable (pos : 0 < depth) (solid : ∀ s, (rules s).nullable = false)
    (ranked : ∀ s, (rules s).cost rank ≤ rank s ∧ (rules s).fits rank depth = true)
    {p : Phrase σ} (fit : p.fits rank depth = true) {tokens : List Token} {fuel fuel' : Nat}
    (enough : depth * tokens.length + p.cost rank ≤ fuel) (le : fuel ≤ fuel') :
    run rules fuel' p tokens = run rules fuel p tokens := by
  induction le with
  | refl => rfl
  | step le ih =>
    rw [← ih]
    exact (run_succ_aux pos solid ranked _).1 p tokens fit (Nat.le_trans enough le)

end Stable

end JakartaCheck.Java.Phrase
