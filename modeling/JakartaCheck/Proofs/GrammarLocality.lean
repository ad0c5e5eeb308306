import JakartaCheck.Proofs.GrammarBrackets

/-!
# Runs that do not cross a border

Let a border stand between two tokens: before it a semicolon or a closing brace outside all
brackets, after it a token with which no rest of a phrase goes on. A run that starts before the
border then never looks behind it, so what stands there may change (`Tame.run_agrees`).

Whether a phrase is `safe` is computed from it. Inside brackets nothing has to be checked: a phrase
that starts there reaches the border only after it has closed them.
-/

namespace JakartaCheck.Java.Phrase

open Shape (weight isStop)

variable {σ : Type} {rules : σ → Phrase σ}

/-- What is known of a border. -/
structure Border (σ : Type) where
  /-- The patterns that do not fit the token behind the border. -/
  blind : Pattern → Bool
  /-- The rules that may end in front of the border. -/
  ends : σ → Bool
  /-- The rules that may be used outside brackets. -/
  calm : σ → Bool

namespace Border

mutual

/-- Does the phrase read nothing behind the border? -/
def deaf (B : Border σ) : Phrase σ → Bool
  | .empty => true
  | .token _ pattern => B.blind pattern
  | .glued parts => parts.head?.all fun part => B.blind (.text part)
  | .seq a b => B.deaf a && (!a.nullable || B.deaf b)
  | .alt a b => B.deaf a && B.deaf b
  | .many p => B.deaf p
  | .absent p => B.deaf p
  | .field _ p => B.deaf p
  | .node _ p => B.deaf p
  | .rule _ => false
  | .fork base steps => B.deaf base && (!base.nullable || B.deafAll steps)
  | .chain base steps => B.deaf base && (!base.nullable || B.deafAll steps)

def deafAll (B : Border σ) : List (Form × Option Field × Phrase σ) → Bool
  | [] => true
  | (_, _, p) :: steps => B.deaf p && B.deafAll steps

end

/-- May something be read at bracket depth `k` after a part that may end in a stop, if what comes
next is deaf or not? -/
def passes (k : Int) (stops deaf : Bool) : Bool := decide (0 ≤ k) && (k != 0 || !stops || deaf)

mutual

/-- Does the phrase, started inside `k` brackets, never read on behind the border? -/
def safe (B : Border σ) (k : Int) : Phrase σ → Bool
  | .empty => true
  | .token _ _ => true
  | .glued parts => !parts.any isStop
  | .seq a b =>
    B.safe k a && B.safe (k + a.net) b && passes (k + a.net) (a.mayStop B.ends) (B.deaf b)
  | .alt a b => B.safe k a && B.safe k b
  | .many p => B.safe k p && passes k (p.mayStop B.ends) (B.deaf p)
  | .absent p => B.safe k p
  | .field _ p => B.safe k p
  | .node _ p => B.safe k p
  | .rule s => decide (1 ≤ k) || (k == 0 && B.calm s)
  | .fork base steps =>
    B.safe k base && B.safeAll (k + base.net) steps &&
      passes (k + base.net) (base.mayStop B.ends) (B.deafAll steps)
  | .chain base steps =>
    B.safe k base && B.safeAll (k + base.net) steps &&
      passes (k + base.net) (base.mayStop B.ends || mayStopAny B.ends steps) (B.deafAll steps)

def safeAll (B : Border σ) (k : Int) : List (Form × Option Field × Phrase σ) → Bool
  | [] => true
  | (_, _, p) :: steps => B.safe k p && B.safeAll k steps

end

theorem passes_mono {j k : Int} (le : j ≤ k) {stops deaf : Bool} (h : passes j stops deaf) :
    passes k stops deaf := by
  simp only [passes, Bool.and_eq_true, decide_eq_true_eq, Bool.or_eq_true, bne_iff_ne] at h ⊢
  refine ⟨by omega, ?_⟩
  rcases h.2 with (h' | h') | h'
  · exact .inl (.inl (by omega))
  · exact .inl (.inr h')
  · exact .inr h'

mutual

theorem safe_mono (B : Border σ) {j k : Int} (le : j ≤ k) :
    ∀ p : Phrase σ, B.safe j p = true → B.safe k p = true
  | .empty, _ => rfl
  | .token _ _, _ => rfl
  | .glued _, h => h
  | .seq a b, h => by
    simp only [safe, Bool.and_eq_true] at h ⊢
    exact ⟨⟨safe_mono B le a h.1.1, safe_mono B (by omega) b h.1.2⟩,
      passes_mono (by omega) h.2⟩
  | .alt a b, h => by
    simp only [safe, Bool.and_eq_true] at h ⊢
    exact ⟨safe_mono B le a h.1, safe_mono B le b h.2⟩
  | .many p, h => by
    simp only [safe, Bool.and_eq_true] at h ⊢
    exact ⟨safe_mono B le p h.1, passes_mono le h.2⟩
  | .absent p, h => safe_mono B le p h
  | .field _ p, h => safe_mono B le p h
  | .node _ p, h => safe_mono B le p h
  | .rule s, h => by
    simp only [safe, Bool.or_eq_true, decide_eq_true_eq, Bool.and_eq_true, beq_iff_eq] at h ⊢
    rcases h with h | ⟨rfl, h⟩
    · exact .inl (by omega)
    · by_cases hk : k = 0
      · exact .inr ⟨hk, h⟩
      · exact .inl (by omega)
  | .fork base steps, h => by
    simp only [safe, Bool.and_eq_true] at h ⊢
    exact ⟨⟨safe_mono B le base h.1.1, safeAll_mono B (by omega) steps h.1.2⟩,
      passes_mono (by omega) h.2⟩
  | .chain base steps, h => by
    simp only [safe, Bool.and_eq_true] at h ⊢
    exact ⟨⟨safe_mono B le base h.1.1, safeAll_mono B (by omega) steps h.1.2⟩,
      passes_mono (by omega) h.2⟩

theorem safeAll_mono (B : Border σ) {j k : Int} (le : j ≤ k) :
    ∀ steps : List (Form × Option Field × Phrase σ),
      B.safeAll j steps = true → B.safeAll k steps = true
  | [], _ => rfl
  | (_, _, p) :: steps, h => by
    simp only [safeAll, Bool.and_eq_true] at h ⊢
    exact ⟨safe_mono B le p h.1, safeAll_mono B le steps h.2⟩

end

/-- No blind pattern fits the first of the tokens. -/
def Blocks (B : Border σ) (behind : List Token) : Prop :=
  ∀ pattern, B.blind pattern = true → ∀ t, behind.head? = some t → pattern.accepts t.shape = false

/-- What a border needs to know of the rules. -/
structure Tame (B : Border σ) (rules : σ → Phrase σ) : Prop where
  solid : ∀ s, (rules s).nullable = false
  even : ∀ s, (rules s).balanced = true ∧ (rules s).net = 0
  ends : ∀ s, (rules s).mayStop B.ends = true → B.ends s = true
  inside : ∀ s, B.safe 1 (rules s) = true
  outside : ∀ s, B.calm s = true → B.safe 0 (rules s) = true

/-! ### Behind the border -/

section Behind

variable {B : Border σ} {Z Z' : List Token}

theorem runGlued_of_blocks {parts : List String} (hz : B.Blocks Z)
    (h : (parts.head?.all fun part => B.blind (.text part)) = true) :
    runGlued parts Z = none := by
  cases ran : runGlued parts Z with
  | none => rfl
  | some result =>
    obtain ⟨part, parts, t, tokens, stop, rfl, rfl, accepted, -⟩ := runGlued_cases ran
    rw [hz (.text part) (by simpa using h) t rfl] at accepted
    cases accepted

theorem nullable_of_run (solid : ∀ s, (rules s).nullable = false) {fuel : Nat} {p : Phrase σ}
    {items : List Node} (h : run rules fuel p Z = some (items, Z)) : p.nullable = true := by
  cases hp : p.nullable with
  | true => rfl
  | false => exact absurd (length_rest_lt solid hp h) (Nat.lt_irrefl _)

/-- Two results of a run that reads nothing: the same nodes, or none. -/
def Idle (Z Z' : List Token) (r r' : Option (List Node × List Token)) : Prop :=
  ∃ q : Option (List Node), r = q.map (·, Z) ∧ r' = q.map (·, Z')

/-- Behind the border deaf phrases and steps read nothing with that fuel, whatever stands there. -/
structure Deaf (B : Border σ) (rules : σ → Phrase σ) (Z Z' : List Token) (fuel : Nat) : Prop where
  run : ∀ p, B.deaf p = true → Idle Z Z' (run rules fuel p Z) (run rules fuel p Z')
  step : ∀ steps items, B.deafAll steps = true →
    Idle Z Z' (runStep rules fuel steps items Z) (runStep rules fuel steps items Z')
  grow : ∀ steps items, B.deafAll steps = true →
    Idle Z Z' (grow rules fuel steps items Z) (grow rules fuel steps items Z')

namespace Deaf

variable {fuel : Nat} (h : B.Deaf rules Z Z' fuel)

include h

theorem seq (solid : ∀ s, (rules s).nullable = false) {a b : Phrase σ}
    (quiet : B.deaf (.seq a b) = true) :
    Idle Z Z' (Phrase.run rules (fuel + 1) (.seq a b) Z)
      (Phrase.run rules (fuel + 1) (.seq a b) Z') := by
  simp only [deaf, Bool.and_eq_true] at quiet
  obtain ⟨r, ha, ha'⟩ := h.run a quiet.1
  cases r with
  | none => exact ⟨none, by simp [Phrase.run, ha], by simp [Phrase.run, ha']⟩
  | some items =>
    rw [nullable_of_run solid ha, Bool.not_true, Bool.false_or] at quiet
    obtain ⟨q, hb, hb'⟩ := h.run b quiet.2
    refine ⟨q.map (items ++ ·), ?_, ?_⟩
    · simp only [Phrase.run, ha, Option.map_some, hb]
      cases q <;> rfl
    · simp only [Phrase.run, ha', Option.map_some, hb']
      cases q <;> rfl

theorem alt {a b : Phrase σ} (quiet : B.deaf (.alt a b) = true) :
    Idle Z Z' (Phrase.run rules (fuel + 1) (.alt a b) Z)
      (Phrase.run rules (fuel + 1) (.alt a b) Z') := by
  simp only [deaf, Bool.and_eq_true] at quiet
  obtain ⟨r, ha, ha'⟩ := h.run a quiet.1
  obtain ⟨q, hb, hb'⟩ := h.run b quiet.2
  refine ⟨r <|> q, ?_, ?_⟩
  · simp only [Phrase.run, ha]
    cases r <;> simp [hb]
  · simp only [Phrase.run, ha']
    cases r <;> simp [hb']

theorem many {item : Phrase σ} (quiet : B.deaf (.many item) = true) :
    Idle Z Z' (Phrase.run rules (fuel + 1) (.many item) Z)
      (Phrase.run rules (fuel + 1) (.many item) Z') := by
  obtain ⟨r, ha, ha'⟩ := h.run item quiet
  obtain ⟨q, hb, hb'⟩ := h.run (.many item) quiet
  refine ⟨r.elim (some []) fun is => q.map (is ++ ·), ?_, ?_⟩
  · simp only [Phrase.run, ha]
    cases r <;> cases q <;> simp [hb]
  · simp only [Phrase.run, ha']
    cases r <;> cases q <;> simp [hb']

theorem fork (solid : ∀ s, (rules s).nullable = false) {base : Phrase σ}
    {steps : List (Form × Option Field × Phrase σ)} (quiet : B.deaf (.fork base steps) = true) :
    Idle Z Z' (Phrase.run rules (fuel + 1) (.fork base steps) Z)
      (Phrase.run rules (fuel + 1) (.fork base steps) Z') := by
  simp only [deaf, Bool.and_eq_true] at quiet
  obtain ⟨r, ha, ha'⟩ := h.run base quiet.1
  cases r with
  | none => exact ⟨none, by simp [Phrase.run, ha], by simp [Phrase.run, ha']⟩
  | some items =>
    rw [nullable_of_run solid ha, Bool.not_true, Bool.false_or] at quiet
    obtain ⟨q, hb, hb'⟩ := h.step steps items quiet.2
    exact ⟨q, by simpa [Phrase.run, ha] using hb, by simpa [Phrase.run, ha'] using hb'⟩

theorem chain (solid : ∀ s, (rules s).nullable = false) {base : Phrase σ}
    {steps : List (Form × Option Field × Phrase σ)} (quiet : B.deaf (.chain base steps) = true) :
    Idle Z Z' (Phrase.run rules (fuel + 1) (.chain base steps) Z)
      (Phrase.run rules (fuel + 1) (.chain base steps) Z') := by
  simp only [deaf, Bool.and_eq_true] at quiet
  obtain ⟨r, ha, ha'⟩ := h.run base quiet.1
  cases r with
  | none => exact ⟨none, by simp [Phrase.run, ha], by simp [Phrase.run, ha']⟩
  | some items =>
    rw [nullable_of_run solid ha, Bool.not_true, Bool.false_or] at quiet
    obtain ⟨q, hb, hb'⟩ := h.grow steps items quiet.2
    exact ⟨q, by simpa [Phrase.run, ha] using hb, by simpa [Phrase.run, ha'] using hb'⟩

theorem succ_step (steps : List (Form × Option Field × Phrase σ)) (items : List Node)
    (quiet : B.deafAll steps = true) :
    Idle Z Z' (runStep rules (fuel + 1) steps items Z) (runStep rules (fuel + 1) steps items Z') := by
  cases steps with
  | nil => exact ⟨none, by simp [runStep], by simp [runStep]⟩
  | cons step steps =>
    obtain ⟨form, label, step⟩ := step
    simp only [deafAll, Bool.and_eq_true] at quiet
    obtain ⟨r, ha, ha'⟩ := h.run step quiet.1
    obtain ⟨q, hb, hb'⟩ := h.step steps items quiet.2
    refine ⟨r.elim q fun more => some (Node.enclose form (named label items ++ more)), ?_, ?_⟩
    · simp only [runStep, ha]
      cases r <;> simp [hb]
    · simp only [runStep, ha']
      cases r <;> simp [hb']

theorem succ_grow (steps : List (Form × Option Field × Phrase σ)) (items : List Node)
    (quiet : B.deafAll steps = true) :
    Idle Z Z' (Phrase.grow rules (fuel + 1) steps items Z)
      (Phrase.grow rules (fuel + 1) steps items Z') := by
  obtain ⟨r, ha, ha'⟩ := h.step steps items quiet
  cases r with
  | none => exact ⟨some items, by simp [Phrase.grow, ha], by simp [Phrase.grow, ha']⟩
  | some out =>
    obtain ⟨q, hb, hb'⟩ := h.grow steps out quiet
    exact ⟨q, by simpa [Phrase.grow, ha] using hb, by simpa [Phrase.grow, ha'] using hb'⟩

theorem succ_run (solid : ∀ s, (rules s).nullable = false) (hz : B.Blocks Z) (hz' : B.Blocks Z')
    (p : Phrase σ) (quiet : B.deaf p = true) :
    Idle Z Z' (Phrase.run rules (fuel + 1) p Z) (Phrase.run rules (fuel + 1) p Z') := by
  cases p with
  | empty => exact ⟨some [], rfl, rfl⟩
  | token kind pattern =>
    have fails : ∀ Y, B.Blocks Y → Phrase.run rules (fuel + 1) (.token kind pattern) Y = none := by
      intro Y hy
      simp only [Phrase.run]
      cases Y with
      | nil => rfl
      | cons t rest =>
        have := hy pattern quiet t rfl
        simp [this]
    exact ⟨none, fails Z hz, fails Z' hz'⟩
  | glued parts =>
    refine ⟨none, ?_, ?_⟩
    · simp only [Phrase.run, runGlued_of_blocks hz quiet, Option.map_none]
    · simp only [Phrase.run, runGlued_of_blocks hz' quiet, Option.map_none]
  | seq a b => exact h.seq solid quiet
  | alt a b => exact h.alt quiet
  | many item => exact h.many quiet
  | absent item =>
    obtain ⟨r, ha, ha'⟩ := h.run item quiet
    refine ⟨r.elim (some []) fun _ => none, ?_, ?_⟩
    · simp only [Phrase.run, ha]
      cases r <;> rfl
    · simp only [Phrase.run, ha']
      cases r <;> rfl
  | field label item =>
    obtain ⟨r, ha, ha'⟩ := h.run item quiet
    refine ⟨r.map (Node.setField label), ?_, ?_⟩
    · simp only [Phrase.run, ha]
      cases r <;> rfl
    · simp only [Phrase.run, ha']
      cases r <;> rfl
  | node form item =>
    obtain ⟨r, ha, ha'⟩ := h.run item quiet
    refine ⟨r.map (Node.enclose form), ?_, ?_⟩
    · simp only [Phrase.run, ha]
      cases r <;> rfl
    · simp only [Phrase.run, ha']
      cases r <;> rfl
  | rule s => cases quiet
  | fork base steps => exact h.fork solid quiet
  | chain base steps => exact h.chain solid quiet

end Deaf

/-- A deaf phrase reads nothing behind the border and gives the same whatever stands there. -/
theorem deaf_behind (solid : ∀ s, (rules s).nullable = false) (hz : B.Blocks Z) (hz' : B.Blocks Z')
    (fuel : Nat) : B.Deaf rules Z Z' fuel := by
  induction fuel with
  | zero =>
    exact ⟨fun _ _ => ⟨none, rfl, rfl⟩, fun _ _ _ => ⟨none, by simp [runStep]⟩,
      fun _ _ _ => ⟨none, rfl, rfl⟩⟩
  | succ fuel ih => exact ⟨ih.succ_run solid hz hz', ih.succ_step, ih.succ_grow⟩

end Behind

/-! ### In front of the border -/

/-- The tokens up to the border, inside `k` brackets: the last one is a stop, and by then the
brackets are closed. -/
structure Reaches (k : Int) (tokens : List Token) : Prop where
  plain : ∀ t ∈ tokens, t.shape.Plain
  closes : Closes tokens
  depth : balance tokens = -k

section Before

variable {B : Border σ} {Z Z' : List Token} {k : Int} {S : List Token}

/-- What a phrase leaves: either tokens up to the border, inside the brackets it has left open, or
nothing. -/
theorem Reaches.after (h : Reaches k S) (tame : B.Tame rules) {p : Phrase σ}
    (hp : p.balanced = true) {used Y : List Token} {items : List Node}
    (reads : Reads rules p used items) (split : S = used ++ Y) :
    Reaches (k + p.net) Y ∨ Y = [] ∧ k + p.net = 0 ∧ p.mayStop B.ends = true := by
  subst split
  have plainUsed : ∀ t ∈ used, t.shape.Plain := fun t ht => h.plain t (List.mem_append_left _ ht)
  have taken := reads.balance tame.even plainUsed hp
  have total := h.depth
  rw [balance_append, taken] at total
  by_cases hy : Y = []
  · subst hy
    refine .inr ⟨rfl, ?_, ?_⟩
    · simp only [balance] at total
      omega
    · exact reads.mayStop tame.solid tame.ends plainUsed (by simpa using h.closes)
  · exact .inl ⟨fun t ht => h.plain t (List.mem_append_right _ ht), (closes_append hy).1 h.closes,
      by omega⟩

/-- The result of a run whose rest ends at the border. -/
def beyond (Z : List Token) (r : Option (List Node × List Token)) :
    Option (List Node × List Token) :=
  r.map fun (items, Y) => (items, Y ++ Z)

@[simp] theorem beyond_none : beyond Z none = none := rfl

@[simp] theorem beyond_some (items : List Node) (Y : List Token) :
    beyond Z (some (items, Y)) = some (items, Y ++ Z) := rfl

@[simp] theorem beyond_map (r : Option (List Node)) :
    beyond Z (r.map (·, [])) = r.map (·, Z) := by
  cases r <;> rfl

theorem takeGlued_agrees {parts : List String} (open' : parts.any isStop = false)
    (closes : Closes S) (stop : Nat) (Z : List Token) :
    takeGlued stop parts (S ++ Z) =
      (takeGlued stop parts S).map fun (stop, Y) => (stop, Y ++ Z) := by
  induction parts generalizing stop S with
  | nil => rfl
  | cons part parts ih =>
    simp only [List.any_cons, Bool.or_eq_false_iff] at open'
    cases S with
    | nil =>
      obtain ⟨t, last, -⟩ := closes
      cases last
    | cons t S =>
      simp only [List.cons_append, takeGlued]
      split
      · rename_i fits
        by_cases hs : S = []
        · -- the last token in front of the border is a stop, and no part is one
          subst hs
          obtain ⟨u, last, stops⟩ := closes
          obtain rfl : t = u := by simpa using last
          simp only [Bool.and_eq_true] at fits
          rw [Pattern.text_of_accepts fits.1.1, open'.1] at stops
          cases stops
        · exact ih open'.2 ((@closes_append [t] S hs).1 closes) _
      · rfl

theorem runGlued_agrees {parts : List String} (open' : parts.any isStop = false)
    (closes : Closes S) (Z : List Token) :
    runGlued parts (S ++ Z) = beyond Z (runGlued parts S) := by
  cases S with
  | nil =>
    obtain ⟨t, last, -⟩ := closes
    cases last
  | cons t S =>
    cases parts with
    | nil => rfl
    | cons part parts =>
      simp only [List.any_cons, Bool.or_eq_false_iff] at open'
      simp only [List.cons_append, runGlued]
      split
      · rename_i accepted
        have hs : S ≠ [] := by
          rintro rfl
          obtain ⟨u, last, stops⟩ := closes
          obtain rfl : t = u := by simpa using last
          rw [Pattern.text_of_accepts accepted, open'.1] at stops
          cases stops
        rw [takeGlued_agrees open'.2 ((@closes_append [t] S hs).1 closes)]
        cases takeGlued t.span.stop parts S <;> rfl
      · rfl

theorem deaf_of_passes {j : Int} {stops deaf : Bool} (h : passes j stops deaf = true) (hj : j = 0)
    (hs : stops = true) : deaf = true := by
  subst hj hs
  simpa [passes] using h

theorem passes_of_or {j : Int} {stops stops' deaf : Bool}
    (h : passes j (stops || stops') deaf = true) : passes j stops' deaf = true := by
  cases stops with
  | false => exact h
  | true =>
    simp only [passes, Bool.true_or, Bool.not_true, Bool.or_false, Bool.and_eq_true,
      Bool.or_eq_true] at h ⊢
    exact ⟨h.1, h.2.elim (fun zero => .inl (.inl zero)) .inr⟩

/-- Two results of a run in front of the border, with `Z` and with `Z'` behind it: the same up to
these. -/
def Agree (Z Z' : List Token) (r r' : Option (List Node × List Token)) : Prop :=
  ∃ q, r = beyond Z q ∧ r' = beyond Z' q

theorem Idle.agree {r r' : Option (List Node × List Token)} (h : Idle Z Z' r r') : Agree Z Z' r r' := by
  obtain ⟨q, rfl, rfl⟩ := h
  exact ⟨q.map (·, []), (beyond_map q).symm, (beyond_map q).symm⟩

/-- Runs with that fuel give the same in front of the border whatever stands behind it. -/
structure Local (B : Border σ) (rules : σ → Phrase σ) (Z Z' : List Token) (fuel : Nat) : Prop where
  run : ∀ p k S, p.balanced = true → B.safe k p = true → Reaches k S →
    Agree Z Z' (run rules fuel p (S ++ Z)) (run rules fuel p (S ++ Z'))
  step : ∀ steps n items k S, balancedAll n steps = true → B.safeAll k steps = true → Reaches k S →
    Agree Z Z' (runStep rules fuel steps items (S ++ Z)) (runStep rules fuel steps items (S ++ Z'))
  grow : ∀ steps items k S, balancedAll 0 steps = true → B.safeAll k steps = true →
    passes k (mayStopAny B.ends steps) (B.deafAll steps) = true → Reaches k S →
    Agree Z Z' (grow rules fuel steps items (S ++ Z)) (grow rules fuel steps items (S ++ Z'))

namespace Local

variable {fuel : Nat} (h : B.Local rules Z Z' fuel)

section Parts

variable (tame : B.Tame rules)

include tame

/-- A part leaves tokens in front of the border, or it has taken all of them and what comes next has
to be deaf. -/
theorem after {p : Phrase σ} {k : Int} {S Y : List Token} {items : List Node}
    (bal : p.balanced = true) (at' : Reaches k S)
    (ran : Phrase.run rules fuel p (S ++ Z) = some (items, Y ++ Z)) :
    Reaches (k + p.net) Y ∨ Y = [] ∧ k + p.net = 0 ∧ p.mayStop B.ends = true := by
  obtain ⟨used, eq, reads⟩ := reads_of_run ran
  rw [← List.append_assoc] at eq
  exact at'.after tame bal reads (List.append_cancel_right eq)

include h

/-- So a phrase that comes after a part runs alike again. -/
theorem next (deaf : B.Deaf rules Z Z' fuel) {p b : Phrase σ} {k : Int} {S Y : List Token}
    {items : List Node} (balP : p.balanced = true) (at' : Reaches k S)
    (ran : Phrase.run rules fuel p (S ++ Z) = some (items, Y ++ Z)) (balB : b.balanced = true)
    (safeB : B.safe (k + p.net) b = true)
    (pass : passes (k + p.net) (p.mayStop B.ends) (B.deaf b) = true) :
    Agree Z Z' (Phrase.run rules fuel b (Y ++ Z)) (Phrase.run rules fuel b (Y ++ Z')) := by
  rcases after tame balP at' ran with rest | ⟨rfl, zero, stops⟩
  · exact h.run b _ Y balB safeB rest
  · exact (deaf.run b (deaf_of_passes pass zero stops)).agree

variable (deaf : B.Deaf rules Z Z' fuel) {k : Int} {S : List Token}

include deaf

theorem seq {a b : Phrase σ} (bal : (Phrase.seq a b).balanced = true)
    (safe : B.safe k (.seq a b) = true) (at' : Reaches k S) :
    Agree Z Z' (Phrase.run rules (fuel + 1) (.seq a b) (S ++ Z))
      (Phrase.run rules (fuel + 1) (.seq a b) (S ++ Z')) := by
  simp only [balanced, Bool.and_eq_true] at bal
  simp only [Border.safe, Bool.and_eq_true] at safe
  obtain ⟨r, ha, ha'⟩ := h.run a k S bal.1 safe.1.1 at'
  cases r with
  | none => exact ⟨none, by simp [Phrase.run, ha], by simp [Phrase.run, ha']⟩
  | some result =>
    obtain ⟨items, Y⟩ := result
    obtain ⟨q, hb, hb'⟩ := h.next tame deaf bal.1 at' ha bal.2 safe.1.2 safe.2
    refine ⟨q.map fun result => (items ++ result.1, result.2), ?_, ?_⟩
    · simp only [Phrase.run, ha, beyond_some, hb]
      cases q <;> rfl
    · simp only [Phrase.run, ha', beyond_some, hb']
      cases q <;> rfl

theorem many {item : Phrase σ} (bal : (Phrase.many item).balanced = true)
    (safe : B.safe k (.many item) = true) (at' : Reaches k S) :
    Agree Z Z' (Phrase.run rules (fuel + 1) (.many item) (S ++ Z))
      (Phrase.run rules (fuel + 1) (.many item) (S ++ Z')) := by
  have balItem := bal
  have safeItem := safe
  simp only [balanced, Bool.and_eq_true, beq_iff_eq] at balItem
  simp only [Border.safe, Bool.and_eq_true] at safeItem
  obtain ⟨r, ha, ha'⟩ := h.run item k S balItem.1 safeItem.1 at'
  cases r with
  | none => exact ⟨some ([], S), by simp [Phrase.run, ha], by simp [Phrase.run, ha']⟩
  | some result =>
    obtain ⟨items, Y⟩ := result
    have same : k + item.net = k := by rw [balItem.2, Int.add_zero]
    obtain ⟨q, hb, hb'⟩ :=
      h.next tame deaf balItem.1 at' ha bal (same.symm ▸ safe) (same.symm ▸ safeItem.2)
    refine ⟨q.map fun result => (items ++ result.1, result.2), ?_, ?_⟩
    · simp only [Phrase.run, ha, beyond_some, hb]
      cases q <;> rfl
    · simp only [Phrase.run, ha', beyond_some, hb']
      cases q <;> rfl

variable {base : Phrase σ} {steps : List (Form × Option Field × Phrase σ)}

theorem fork (bal : (Phrase.fork base steps).balanced = true)
    (safe : B.safe k (.fork base steps) = true) (at' : Reaches k S) :
    Agree Z Z' (Phrase.run rules (fuel + 1) (.fork base steps) (S ++ Z))
      (Phrase.run rules (fuel + 1) (.fork base steps) (S ++ Z')) := by
  simp only [balanced, Bool.and_eq_true] at bal
  simp only [Border.safe, Bool.and_eq_true] at safe
  obtain ⟨r, ha, ha'⟩ := h.run base k S bal.1 safe.1.1 at'
  cases r with
  | none => exact ⟨none, by simp [Phrase.run, ha], by simp [Phrase.run, ha']⟩
  | some result =>
    obtain ⟨items, Y⟩ := result
    have rest : Agree Z Z' (runStep rules fuel steps items (Y ++ Z))
        (runStep rules fuel steps items (Y ++ Z')) := by
      rcases after tame bal.1 at' ha with rest | ⟨rfl, zero, stops⟩
      · exact h.step steps _ items _ Y bal.2 safe.1.2 rest
      · exact (deaf.step steps items (deaf_of_passes safe.2 zero stops)).agree
    obtain ⟨q, hb, hb'⟩ := rest
    exact ⟨q, by simpa [Phrase.run, ha] using hb, by simpa [Phrase.run, ha'] using hb'⟩

theorem chain (bal : (Phrase.chain base steps).balanced = true)
    (safe : B.safe k (.chain base steps) = true) (at' : Reaches k S) :
    Agree Z Z' (Phrase.run rules (fuel + 1) (.chain base steps) (S ++ Z))
      (Phrase.run rules (fuel + 1) (.chain base steps) (S ++ Z')) := by
  simp only [balanced, Bool.and_eq_true] at bal
  simp only [Border.safe, Bool.and_eq_true] at safe
  obtain ⟨r, ha, ha'⟩ := h.run base k S bal.1 safe.1.1 at'
  cases r with
  | none => exact ⟨none, by simp [Phrase.run, ha], by simp [Phrase.run, ha']⟩
  | some result =>
    obtain ⟨items, Y⟩ := result
    have rest : Agree Z Z' (Phrase.grow rules fuel steps items (Y ++ Z))
        (Phrase.grow rules fuel steps items (Y ++ Z')) := by
      rcases after tame bal.1 at' ha with rest | ⟨rfl, zero, stops⟩
      · exact h.grow steps items _ Y bal.2 safe.1.2 (passes_of_or safe.2) rest
      · have quiet := deaf_of_passes safe.2 zero (by rw [stops, Bool.true_or])
        exact (deaf.grow steps items quiet).agree
    obtain ⟨q, hb, hb'⟩ := rest
    exact ⟨q, by simpa [Phrase.run, ha] using hb, by simpa [Phrase.run, ha'] using hb'⟩

/-- A chain goes on behind a step, and a step leaves the brackets as they are. -/
theorem succ_grow (steps : List (Form × Option Field × Phrase σ)) (items : List Node) (k : Int)
    (S : List Token) (bal : balancedAll 0 steps = true) (safe : B.safeAll k steps = true)
    (pass : passes k (mayStopAny B.ends steps) (B.deafAll steps) = true) (at' : Reaches k S) :
    Agree Z Z' (Phrase.grow rules (fuel + 1) steps items (S ++ Z))
      (Phrase.grow rules (fuel + 1) steps items (S ++ Z')) := by
  obtain ⟨r, ha, ha'⟩ := h.step steps 0 items k S bal safe at'
  cases r with
  | none => exact ⟨some (items, S), by simp [Phrase.grow, ha], by simp [Phrase.grow, ha']⟩
  | some result =>
    obtain ⟨out, Y⟩ := result
    obtain ⟨form, label, step, more, fuel', -, mem, ran, -⟩ := runStep_cases ha
    obtain ⟨balStep, flat⟩ := balancedAll_of_mem mem bal
    have rest : Agree Z Z' (Phrase.grow rules fuel steps out (Y ++ Z))
        (Phrase.grow rules fuel steps out (Y ++ Z')) := by
      rcases after tame balStep at' ran with rest | ⟨rfl, zero, stops⟩
      · rw [flat, Int.add_zero] at rest
        exact h.grow steps out k Y bal safe pass rest
      · -- so the chain may only end here if it did so before
        rw [flat, Int.add_zero] at zero
        have quiet := deaf_of_passes pass zero (mayStopAny_of_mem mem stops)
        exact (deaf.grow steps out quiet).agree
    obtain ⟨q, hb, hb'⟩ := rest
    exact ⟨q, by simpa [Phrase.grow, ha] using hb, by simpa [Phrase.grow, ha'] using hb'⟩

end Parts

include h

theorem alt {a b : Phrase σ} {k : Int} {S : List Token} (bal : (Phrase.alt a b).balanced = true)
    (safe : B.safe k (.alt a b) = true) (at' : Reaches k S) :
    Agree Z Z' (Phrase.run rules (fuel + 1) (.alt a b) (S ++ Z))
      (Phrase.run rules (fuel + 1) (.alt a b) (S ++ Z')) := by
  simp only [balanced, Bool.and_eq_true] at bal
  simp only [Border.safe, Bool.and_eq_true] at safe
  obtain ⟨r, ha, ha'⟩ := h.run a k S bal.1.1 safe.1 at'
  cases r with
  | none =>
    obtain ⟨q, hb, hb'⟩ := h.run b k S bal.1.2 safe.2 at'
    exact ⟨q, by simpa [Phrase.run, ha] using hb, by simpa [Phrase.run, ha'] using hb'⟩
  | some result =>
    obtain ⟨items, Y⟩ := result
    exact ⟨some (items, Y), by simp [Phrase.run, ha], by simp [Phrase.run, ha']⟩

theorem succ_step (steps : List (Form × Option Field × Phrase σ)) (n : Int) (items : List Node)
    (k : Int) (S : List Token) (bal : balancedAll n steps = true) (safe : B.safeAll k steps = true)
    (at' : Reaches k S) :
    Agree Z Z' (runStep rules (fuel + 1) steps items (S ++ Z))
      (runStep rules (fuel + 1) steps items (S ++ Z')) := by
  cases steps with
  | nil => exact ⟨none, by simp [runStep], by simp [runStep]⟩
  | cons step steps =>
    obtain ⟨form, label, step⟩ := step
    simp only [balancedAll, Bool.and_eq_true] at bal
    simp only [safeAll, Bool.and_eq_true] at safe
    obtain ⟨r, ha, ha'⟩ := h.run step k S bal.1.1 safe.1 at'
    cases r with
    | none =>
      obtain ⟨q, hb, hb'⟩ := h.step steps n items k S bal.2 safe.2 at'
      exact ⟨q, by simpa [runStep, ha] using hb, by simpa [runStep, ha'] using hb'⟩
    | some result =>
      obtain ⟨more, Y⟩ := result
      exact ⟨some (Node.enclose form (named label items ++ more), Y), by simp [runStep, ha],
        by simp [runStep, ha']⟩

theorem succ_run (tame : B.Tame rules) (deaf : B.Deaf rules Z Z' fuel) (p : Phrase σ) (k : Int)
    (S : List Token) (bal : p.balanced = true) (safe : B.safe k p = true) (at' : Reaches k S) :
    Agree Z Z' (Phrase.run rules (fuel + 1) p (S ++ Z))
      (Phrase.run rules (fuel + 1) p (S ++ Z')) := by
  cases p with
  | empty => exact ⟨some ([], S), rfl, rfl⟩
  | token kind pattern =>
    obtain ⟨last, hl, -⟩ := at'.closes
    cases S with
    | nil => cases hl
    | cons t S =>
      refine ⟨if pattern.accepts t.shape then some (t.comments ++ [.mk kind none t.span []], S)
        else none, ?_, ?_⟩
      · simp only [List.cons_append, Phrase.run]
        split <;> rfl
      · simp only [List.cons_append, Phrase.run]
        split <;> rfl
  | glued parts =>
    simp only [Border.safe, Bool.not_eq_true'] at safe
    exact ⟨runGlued parts S, by simp only [Phrase.run, runGlued_agrees safe at'.closes],
      by simp only [Phrase.run, runGlued_agrees safe at'.closes]⟩
  | seq a b => exact h.seq tame deaf bal safe at'
  | alt a b => exact h.alt bal safe at'
  | many item => exact h.many tame deaf bal safe at'
  | absent item =>
    obtain ⟨r, ha, ha'⟩ := h.run item k S bal safe at'
    cases r with
    | none => exact ⟨some ([], S), by simp [Phrase.run, ha], by simp [Phrase.run, ha']⟩
    | some result =>
      obtain ⟨items, Y⟩ := result
      exact ⟨none, by simp [Phrase.run, ha], by simp [Phrase.run, ha']⟩
  | field label item =>
    obtain ⟨r, ha, ha'⟩ := h.run item k S bal safe at'
    refine ⟨r.map fun result => (Node.setField label result.1, result.2), ?_, ?_⟩
    · simp only [Phrase.run, ha]
      cases r <;> rfl
    · simp only [Phrase.run, ha']
      cases r <;> rfl
  | node form item =>
    obtain ⟨r, ha, ha'⟩ := h.run item k S bal safe at'
    refine ⟨r.map fun result => (Node.enclose form result.1, result.2), ?_, ?_⟩
    · simp only [Phrase.run, ha]
      cases r <;> rfl
    · simp only [Phrase.run, ha']
      cases r <;> rfl
  | rule s =>
    simp only [Border.safe, Bool.or_eq_true, decide_eq_true_eq, Bool.and_eq_true,
      beq_iff_eq] at safe
    have safe' : B.safe k (rules s) = true := by
      rcases safe with inside | ⟨rfl, calm⟩
      · exact safe_mono B inside _ (tame.inside s)
      · exact tame.outside s calm
    exact h.run (rules s) k S (tame.even s).1 safe' at'
  | fork base steps => exact h.fork tame deaf bal safe at'
  | chain base steps => exact h.chain tame deaf bal safe at'

end Local

/-- Runs in front of the border give the same whatever stands behind it. -/
theorem Tame.isLocal (tame : B.Tame rules) (hz : B.Blocks Z) (hz' : B.Blocks Z') (fuel : Nat) :
    B.Local rules Z Z' fuel := by
  induction fuel with
  | zero =>
    exact ⟨fun _ _ _ _ _ _ => ⟨none, rfl, rfl⟩, fun _ _ _ _ _ _ _ _ => ⟨none, by simp [runStep]⟩,
      fun _ _ _ _ _ _ _ _ => ⟨none, rfl, rfl⟩⟩
  | succ fuel ih =>
    have deaf := deaf_behind tame.solid hz hz' fuel
    exact ⟨ih.succ_run tame deaf, ih.succ_step, ih.succ_grow tame deaf⟩

/-- What stands behind the border does not matter to a run that starts in front of it. -/
theorem Tame.run_agrees (tame : B.Tame rules) (hz : B.Blocks Z) (hz' : B.Blocks Z') {p : Phrase σ}
    (bal : p.balanced = true) (safe : B.safe k p = true) (at' : Reaches k S) {fuel : Nat}
    {items : List Node} {Y : List Token}
    (ran : run rules fuel p (S ++ Z) = some (items, Y ++ Z)) :
    run rules fuel p (S ++ Z') = some (items, Y ++ Z') := by
  obtain ⟨r, h, h'⟩ := (tame.isLocal hz hz' fuel).run p k S bal safe at'
  cases r with
  | none =>
    rw [h] at ran
    cases ran
  | some result =>
    obtain ⟨items', Y'⟩ := result
    rw [h, beyond_some, Option.some.injEq, Prod.mk.injEq] at ran
    obtain ⟨rfl, eq⟩ := ran
    rw [h', beyond_some, List.append_cancel_right eq]

end Before

end Border

end JakartaCheck.Java.Phrase
