import JakartaCheck.Proofs.GrammarFuel
import JakartaCheck.Proofs.GrammarTransport

/-!
# What a phrase gives

`Gives rules p tokens r` says that with enough fuel the phrase `p` has the result `r` on the tokens.
Rules for the phrases follow without any count of the fuel, and where a ranking bounds the depth of
calls every phrase gives something (`Bounded.gives`). A sequence of items is then read piece by
piece (`Parsed`).
-/

namespace JakartaCheck.Java.Phrase

variable {σ : Type} {rules : σ → Phrase σ}

/-! ### Results with enough fuel -/

/-- With enough fuel the phrase has that result. -/
def Gives (rules : σ → Phrase σ) (p : Phrase σ) (tokens : List Token)
    (r : Option (List Node × List Token)) : Prop :=
  ∃ n, ∀ fuel, n ≤ fuel → run rules fuel p tokens = r

/-- With enough fuel a chain that has read `items` has that result. -/
def Grows (rules : σ → Phrase σ) (steps : List (Form × Option Field × Phrase σ))
    (items : List Node) (tokens : List Token) (r : Option (List Node × List Token)) : Prop :=
  ∃ n, ∀ fuel, n ≤ fuel → grow rules fuel steps items tokens = r

section Rules

variable {p a b : Phrase σ} {tokens mid rest : List Token} {items more : List Node}
  {r r' : Option (List Node × List Token)}

theorem Gives.unique (h : Gives rules p tokens r) (h' : Gives rules p tokens r') : r = r' := by
  obtain ⟨n, hn⟩ := h
  obtain ⟨m, hm⟩ := h'
  rw [← hn (max n m) (Nat.le_max_left n m), hm (max n m) (Nat.le_max_right n m)]

theorem gives_of_succ {n : Nat} (h : ∀ fuel, n ≤ fuel → run rules (fuel + 1) p tokens = r) :
    Gives rules p tokens r := by
  refine ⟨n + 1, fun fuel hf => ?_⟩
  obtain ⟨fuel, rfl⟩ : ∃ m, fuel = m + 1 := ⟨fuel - 1, by omega⟩
  exact h fuel (by omega)

theorem Gives.reads (h : Gives rules p tokens (some (items, rest))) :
    ∃ used, tokens = used ++ rest ∧ Reads rules p used items := by
  obtain ⟨n, hn⟩ := h
  exact reads_of_run (hn n (Nat.le_refl n))

theorem gives_of_none (h : ∀ fuel, run rules fuel p tokens = none) : Gives rules p tokens none :=
  ⟨0, fun fuel _ => h fuel⟩

theorem gives_empty : Gives rules .empty tokens (some ([], tokens)) :=
  gives_of_succ (n := 0) fun _ _ => rfl

theorem gives_token {kind : Kind} {pattern : Pattern} {t : Token}
    (h : pattern.accepts t.shape = true) :
    Gives rules (.token kind pattern) (t :: rest)
      (some (t.comments ++ [.mk kind none t.span []], rest)) :=
  gives_of_succ (n := 0) fun _ _ => by simp only [run, h, if_true]

theorem gives_token_none {kind : Kind} {pattern : Pattern} {t : Token}
    (h : pattern.accepts t.shape = false) :
    Gives rules (.token kind pattern) (t :: rest) none :=
  gives_of_succ (n := 0) fun _ _ => by simp only [run, h, Bool.false_eq_true, if_false]

theorem Gives.seq (first : Gives rules a tokens (some (items, mid)))
    (second : Gives rules b mid (some (more, rest))) :
    Gives rules (.seq a b) tokens (some (items ++ more, rest)) := by
  obtain ⟨n, hn⟩ := first
  obtain ⟨m, hm⟩ := second
  exact gives_of_succ (n := max n m) fun fuel hf => by
    simp only [run, hn fuel (by omega), hm fuel (by omega)]

theorem Gives.seq_none (first : Gives rules a tokens none) :
    Gives rules (.seq a b) tokens none := by
  obtain ⟨n, hn⟩ := first
  exact gives_of_succ (n := n) fun fuel hf => by simp only [run, hn fuel hf]

theorem Gives.first (h : Gives rules a tokens (some (items, rest))) :
    Gives rules (.alt a b) tokens (some (items, rest)) := by
  obtain ⟨n, hn⟩ := h
  exact gives_of_succ (n := n) fun fuel hf => by simp only [run, hn fuel hf]

theorem Gives.second (fails : Gives rules a tokens none) (h : Gives rules b tokens r) :
    Gives rules (.alt a b) tokens r := by
  obtain ⟨n, hn⟩ := fails
  obtain ⟨m, hm⟩ := h
  exact gives_of_succ (n := max n m) fun fuel hf => by
    simp only [run, hn fuel (by omega), hm fuel (by omega)]

theorem Gives.opt_none (fails : Gives rules a tokens none) :
    Gives rules (opt a) tokens (some ([], tokens)) :=
  fails.second gives_empty

theorem Gives.field {label : Field} (h : Gives rules a tokens (some (items, rest))) :
    Gives rules (.field label a) tokens (some (Node.setField label items, rest)) := by
  obtain ⟨n, hn⟩ := h
  exact gives_of_succ (n := n) fun fuel hf => by simp only [run, hn fuel hf]

theorem Gives.node {form : Form} (h : Gives rules a tokens (some (items, rest))) :
    Gives rules (.node form a) tokens (some (Node.enclose form items, rest)) := by
  obtain ⟨n, hn⟩ := h
  exact gives_of_succ (n := n) fun fuel hf => by simp only [run, hn fuel hf]

theorem gives_rule_iff {s : σ} :
    Gives rules (.rule s) tokens r ↔ Gives rules (rules s) tokens r := by
  constructor
  · rintro ⟨n, hn⟩
    exact ⟨n, fun fuel hf => hn (fuel + 1) (by omega)⟩
  · rintro ⟨n, hn⟩
    exact gives_of_succ (n := n) fun fuel hf => hn fuel hf

theorem Gives.chain {steps : List (Form × Option Field × Phrase σ)}
    (base : Gives rules a tokens (some (items, mid))) (grows : Grows rules steps items mid r) :
    Gives rules (.chain a steps) tokens r := by
  obtain ⟨n, hn⟩ := base
  obtain ⟨m, hm⟩ := grows
  exact gives_of_succ (n := max n m) fun fuel hf => by
    simp only [run, hn fuel (by omega), hm fuel (by omega)]

/-- A chain with one kind of step ends where the step does not fit. -/
theorem Gives.stops {form : Form} {label : Option Field} (fails : Gives rules a tokens none)
    (items : List Node) : Grows rules [(form, label, a)] items tokens (some (items, tokens)) := by
  obtain ⟨n, hn⟩ := fails
  refine ⟨n + 3, fun fuel hf => ?_⟩
  obtain ⟨fuel, rfl⟩ : ∃ m, fuel = m + 3 := ⟨fuel - 3, by omega⟩
  simp only [grow, runStep, hn (fuel + 1) (by omega)]

theorem Gives.grows {form : Form} {label : Option Field}
    (step : Gives rules a tokens (some (more, mid)))
    (grows : Grows rules [(form, label, a)]
      (Node.enclose form (named label items ++ more)) mid r) :
    Grows rules [(form, label, a)] items tokens r := by
  obtain ⟨n, hn⟩ := step
  obtain ⟨m, hm⟩ := grows
  refine ⟨max n m + 2, fun fuel hf => ?_⟩
  obtain ⟨fuel, rfl⟩ : ∃ k, fuel = k + 2 := ⟨fuel - 2, by omega⟩
  simp only [grow, runStep, hn fuel (by omega)]
  exact hm (fuel + 1) (by omega)

end Rules

/-! ### Alternatives -/

/-- The phrases of which the first that fits is taken. -/
def alternatives : Phrase σ → List (Phrase σ)
  | .alt a b => a :: b.alternatives
  | p => [p]

theorem exists_alternative {p : Phrase σ} {fuel : Nat} {tokens : List Token}
    {r : List Node × List Token} (h : run rules fuel p tokens = some r) :
    ∃ q ∈ p.alternatives, ∃ fuel', run rules fuel' q tokens = some r := by
  fun_induction alternatives p generalizing fuel with
  | case1 a b ih =>
    cases fuel with
    | zero => cases h
    | succ fuel =>
      simp only [run] at h
      split at h
      · rename_i result ran
        cases h
        exact ⟨a, List.mem_cons_self, fuel, ran⟩
      · obtain ⟨q, mem, ran⟩ := ih h
        exact ⟨q, List.mem_cons_of_mem _ mem, ran⟩
  | case2 p _ => exact ⟨p, List.mem_singleton.2 rfl, fuel, h⟩

/-- If no other alternative can have the result, this one has it. -/
theorem Gives.alternative {p q : Phrase σ} {before after : List (Phrase σ)} {tokens : List Token}
    {r : List Node × List Token} (h : Gives rules p tokens (some r))
    (split : p.alternatives = before ++ q :: after)
    (others : ∀ o ∈ before ++ after, ∀ fuel, run rules fuel o tokens ≠ some r) :
    Gives rules q tokens (some r) := by
  fun_induction alternatives p generalizing before with
  | case1 a b ih =>
    obtain ⟨n, hn⟩ := h
    have step : ∀ fuel, n ≤ fuel → run rules (fuel + 1) (.alt a b) tokens = some r :=
      fun fuel hf => hn (fuel + 1) (by omega)
    simp only [run] at step
    cases before with
    | nil =>
      rw [List.nil_append, List.cons.injEq] at split
      obtain ⟨rfl, rfl⟩ := split
      refine ⟨n, fun fuel hf => ?_⟩
      have ran := step fuel hf
      split at ran
      · rename_i result ranA
        rw [ranA, ran]
      · obtain ⟨o, mem, fuel', ranO⟩ := exists_alternative ran
        exact absurd ranO (others o mem fuel')
    | cons o before =>
      rw [List.cons_append, List.cons.injEq] at split
      obtain ⟨rfl, split⟩ := split
      refine ih ⟨n, fun fuel hf => ?_⟩ split fun o mem => others o (List.mem_cons_of_mem _ mem)
      have ran := step fuel hf
      split at ran
      · rename_i result ranA
        rw [ran] at ranA
        exact absurd ranA (others a List.mem_cons_self fuel)
      · exact ran
  | case2 p _ =>
    cases before with
    | nil =>
      rw [List.nil_append, List.cons.injEq] at split
      rwa [← split.1]
    | cons o before => simp at split

/-- An alternative is taken if those before it fail. -/
theorem Gives.of_alternative {p q : Phrase σ} {before after : List (Phrase σ)}
    {tokens : List Token} {r : List Node × List Token} (h : Gives rules q tokens (some r))
    (split : p.alternatives = before ++ q :: after)
    (fails : ∀ o ∈ before, Gives rules o tokens none) : Gives rules p tokens (some r) := by
  fun_induction alternatives p generalizing before with
  | case1 a b ih =>
    cases before with
    | nil =>
      rw [List.nil_append, List.cons.injEq] at split
      rw [split.1]
      exact h.first
    | cons o before =>
      rw [List.cons_append, List.cons.injEq] at split
      obtain ⟨rfl, split⟩ := split
      exact (fails a List.mem_cons_self).second
        (ih split fun o mem => fails o (List.mem_cons_of_mem _ mem))
  | case2 p _ =>
    cases before with
    | nil =>
      rw [List.nil_append, List.cons.injEq] at split
      rwa [split.1]
    | cons o before => simp at split

/-! ### Enough fuel -/

/-- Every rule reads something, and the ranking bounds the depth of calls for each token. -/
structure Bounded (rules : σ → Phrase σ) (rank : σ → Nat) (depth : Nat) : Prop where
  pos : 0 < depth
  solid : ∀ s, (rules s).nullable = false
  ranked : ∀ s, (rules s).cost rank ≤ rank s ∧ (rules s).fits rank depth = true

section Enough

variable {rank : σ → Nat} {depth fuel : Nat} {p item : Phrase σ} {tokens : List Token}

theorem Bounded.gives (h : Bounded rules rank depth) (fit : p.fits rank depth = true)
    (enough : depth * tokens.length + p.cost rank ≤ fuel) :
    Gives rules p tokens (run rules fuel p tokens) :=
  ⟨fuel, fun _ le => run_stable h.pos h.solid h.ranked fit enough le⟩

theorem Bounded.run_eq (h : Bounded rules rank depth) (fit : p.fits rank depth = true)
    (enough : depth * tokens.length + p.cost rank ≤ fuel) {r : Option (List Node × List Token)}
    (gives : Gives rules p tokens r) : run rules fuel p tokens = r :=
  (h.gives fit enough).unique gives

/-- The items of a sequence, each with the tokens that it takes. -/
inductive Parsed (rules : σ → Phrase σ) (item : Phrase σ) :
    List Token → List (List Token × List Node) → Prop
  | done (h : Gives rules item [] none) : Parsed rules item [] []
  | piece {used rest : List Token} {items : List Node} {pieces : List (List Token × List Node)}
      (h : Gives rules item (used ++ rest) (some (items, rest)))
      (more : Parsed rules item rest pieces) :
      Parsed rules item (used ++ rest) ((used, items) :: pieces)

theorem parsed_of_run (h : Bounded rules rank depth) (fit : item.fits rank depth = true)
    (solid : item.nullable = false) {items : List Node}
    (enough : depth * tokens.length + item.cost rank < fuel)
    (ran : run rules fuel (.many item) tokens = some (items, [])) :
    ∃ pieces, Parsed rules item tokens pieces ∧ items = pieces.flatMap (·.2) := by
  induction fuel generalizing tokens items with
  | zero => omega
  | succ fuel ih =>
    have gives := h.gives fit (Nat.le_of_lt_succ enough)
    simp only [run] at ran
    split at ran
    · rename_i failed
      cases ran
      rw [failed] at gives
      exact ⟨[], .done gives, rfl⟩
    · rename_i is rest ranItem
      split at ran
      · cases ran
      · rename_i js rest' ranMore
        cases ran
        rw [ranItem] at gives
        obtain ⟨used, rfl, -⟩ := gives.reads
        have shorter := length_rest_lt h.solid solid ranItem
        have := fuel_of_lt depth shorter
        have := h.pos
        obtain ⟨pieces, parsed, rfl⟩ := ih (by omega) ranMore
        exact ⟨(used, is) :: pieces, .piece gives parsed, rfl⟩

theorem Parsed.gives {pieces : List (List Token × List Node)}
    (h : Parsed rules item tokens pieces) :
    Gives rules (.many item) tokens (some (pieces.flatMap (·.2), [])) := by
  induction h with
  | done fails =>
    obtain ⟨n, hn⟩ := fails
    exact gives_of_succ (n := n) fun fuel hf => by simp only [run, hn fuel hf, List.flatMap_nil]
  | piece first _ ih =>
    obtain ⟨n, hn⟩ := first
    obtain ⟨m, hm⟩ := ih
    exact gives_of_succ (n := max n m) fun fuel hf => by
      simp only [run, hn fuel (by omega), hm fuel (by omega), List.flatMap_cons]

theorem Parsed.tokens_eq {pieces : List (List Token × List Node)}
    (h : Parsed rules item tokens pieces) : tokens = pieces.flatMap (·.1) := by
  induction h with
  | done => rfl
  | piece _ _ ih => rw [List.flatMap_cons, ← ih]

end Enough

end JakartaCheck.Java.Phrase
