import JakartaCheck.Proofs.GrammarReadings

/-!
# Brackets and endings of phrases

How many brackets a phrase leaves open, and whether it ends in a semicolon or a closing brace. Both
are computed from the phrase, with a table for the rules, and hold of everything it reads.
-/

namespace JakartaCheck.Java

/-! ### Words and marks -/

namespace Shape

/-- By how much a word or mark changes the number of open brackets. -/
def weight (text : String) : Int :=
  if ["(", "[", "\x7b", holeMark].contains text then 1
  else if [")", "]", "\x7d"].contains text then -1
  else 0

/-- Is it a semicolon or a closing brace? -/
def isStop (text : String) : Bool := text == ";" || text == "\x7d"

/-- The text of a word or a mark. -/
def text : Shape → String
  | .word text => text
  | .mark text => text
  | .literal _ => ""

/-- Words are no brackets and no semicolons. -/
def Plain : Shape → Prop
  | .word text => weight text = 0 ∧ isStop text = false
  | _ => True

end Shape

namespace Pattern

theorem text_of_accepts {s : String} {shape : Shape} (h : (text s).accepts shape) :
    shape.text = s := by
  cases shape <;> simp_all [accepts, Shape.text]

/-- The weight of every token that fits. -/
def weight : Pattern → Int
  | .text s => Shape.weight s
  | .word _ => 0
  | .literal _ => 0

/-- Are the tokens that fit semicolons or closing braces? -/
def isStop : Pattern → Bool
  | .text s => Shape.isStop s
  | .word _ => false
  | .literal _ => false

theorem weight_of_accepts {pattern : Pattern} {shape : Shape} (plain : shape.Plain)
    (h : pattern.accepts shape) :
    Shape.weight shape.text = pattern.weight ∧ Shape.isStop shape.text = pattern.isStop := by
  cases pattern with
  | text s =>
    rw [text_of_accepts h]
    exact ⟨rfl, rfl⟩
  | word except =>
    cases shape with
    | word text => exact plain
    | mark text => simp [accepts] at h
    | literal form => simp [accepts] at h
  | literal form =>
    cases shape with
    | word text => simp [accepts] at h
    | mark text => simp [accepts] at h
    | literal form =>
      have : Shape.weight "" = 0 ∧ Shape.isStop "" = false := by decide
      exact this

end Pattern

/-- The token fits a pattern that `hit` names. -/
def Token.Hits (hit : Pattern → Bool) (t : Token) : Prop :=
  ∃ pattern : Pattern, hit pattern = true ∧ pattern.accepts t.shape = true

namespace Phrase

open Shape (weight isStop)

variable {σ : Type} {rules : σ → Phrase σ}

/-! ### Brackets -/

/-- How many brackets the tokens open more than they close. -/
def balance : List Token → Int
  | [] => 0
  | t :: ts => weight t.shape.text + balance ts

theorem balance_append (us vs : List Token) : balance (us ++ vs) = balance us + balance vs := by
  induction us with
  | nil => simp [balance]
  | cons u us ih => simp only [List.cons_append, balance, ih]; omega

mutual

/-- How many brackets the phrase leaves open; rules leave none. -/
def net : Phrase σ → Int
  | .empty => 0
  | .token _ pattern => pattern.weight
  | .glued _ => 0
  | .seq a b => a.net + b.net
  | .alt a _ => a.net
  | .many _ => 0
  | .absent _ => 0
  | .field _ p => p.net
  | .node _ p => p.net
  | .rule _ => 0
  | .fork base steps => base.net + netFirst steps
  | .chain base _ => base.net

def netFirst : List (Form × Option Field × Phrase σ) → Int
  | [] => 0
  | (_, _, p) :: _ => p.net

end

mutual

/-- Do all ways to read the phrase leave the same number of brackets open? -/
def balanced : Phrase σ → Bool
  | .empty => true
  | .token _ _ => true
  | .glued parts => parts.all (weight · == 0)
  | .seq a b => a.balanced && b.balanced
  | .alt a b => a.balanced && b.balanced && a.net == b.net
  | .many p => p.balanced && p.net == 0
  | .absent p => p.balanced
  | .field _ p => p.balanced
  | .node _ p => p.balanced
  | .rule _ => true
  | .fork base steps => base.balanced && balancedAll (netFirst steps) steps
  | .chain base steps => base.balanced && balancedAll 0 steps

def balancedAll (k : Int) : List (Form × Option Field × Phrase σ) → Bool
  | [] => true
  | (_, _, p) :: steps => p.balanced && p.net == k && balancedAll k steps

end

theorem balancedAll_of_mem {k : Int} {form : Form} {label : Option Field} {p : Phrase σ}
    {steps : List (Form × Option Field × Phrase σ)} (mem : (form, label, p) ∈ steps)
    (h : balancedAll k steps) : p.balanced ∧ p.net = k := by
  induction steps with
  | nil => cases mem
  | cons step steps ih =>
    rcases List.mem_cons.1 mem with rfl | mem
    · simp only [balancedAll, Bool.and_eq_true, beq_iff_eq] at h
      exact h.1
    · simp only [balancedAll, Bool.and_eq_true] at h
      exact ih mem h.2

theorem balance_of_takeGlued {parts : List String} (flat : parts.all (weight · == 0))
    {stop stop' : Nat} {used : List Token} (h : takeGlued stop parts used = some (stop', [])) :
    balance used = 0 := by
  induction parts generalizing stop used with
  | nil =>
    cases h
    rfl
  | cons part parts ih =>
    cases used with
    | nil => simp [takeGlued] at h
    | cons t used =>
      simp only [takeGlued] at h
      split at h
      · rename_i fits
        simp only [Bool.and_eq_true] at fits
        simp only [List.all_cons, Bool.and_eq_true, beq_iff_eq] at flat
        rw [balance, Pattern.text_of_accepts fits.1.1, flat.1, ih flat.2 h]
        rfl
      · cases h

theorem Reads.balance (even : ∀ s, (rules s).balanced = true ∧ (rules s).net = 0)
    {p : Phrase σ} {used : List Token} {items : List Node} (h : Reads rules p used items)
    (plain : ∀ t ∈ used, t.shape.Plain) (hp : p.balanced = true) :
    Phrase.balance used = p.net := by
  induction h with
  | empty => rfl
  | @token kind pattern t accepted =>
    have := Pattern.weight_of_accepts (plain t List.mem_cons_self) accepted
    simp [Phrase.balance, net, this.1]
  | @glued parts used items ran =>
    obtain ⟨part, parts, t, tokens, stop, rfl, rfl, accepted, taken, -⟩ := runGlued_cases ran
    simp only [balanced, List.all_cons, Bool.and_eq_true, beq_iff_eq] at hp
    rw [Phrase.balance, Pattern.text_of_accepts accepted, hp.1, balance_of_takeGlued hp.2 taken]
    rfl
  | seq _ _ ihA ihB =>
    simp only [balanced, Bool.and_eq_true] at hp
    rw [balance_append, ihA (fun t ht => plain t (List.mem_append_left _ ht)) hp.1,
      ihB (fun t ht => plain t (List.mem_append_right _ ht)) hp.2, net]
  | first _ ih =>
    simp only [balanced, Bool.and_eq_true] at hp
    exact ih plain hp.1.1
  | second _ ih =>
    simp only [balanced, Bool.and_eq_true, beq_iff_eq] at hp
    rw [ih plain hp.1.2, net, hp.2]
  | done => rfl
  | more _ _ ihHead ihTail =>
    have hItem := hp
    simp only [balanced, Bool.and_eq_true, beq_iff_eq] at hItem
    rw [balance_append, ihHead (fun t ht => plain t (List.mem_append_left _ ht)) hItem.1,
      ihTail (fun t ht => plain t (List.mem_append_right _ ht)) hp, hItem.2, net]
    rfl
  | absent => rfl
  | field _ ih => exact ih plain hp
  | node _ ih => exact ih plain hp
  | @rule s _ _ _ ih => exact (ih plain (even s).1).trans (even s).2
  | fork _ mem _ ihBase ihStep =>
    simp only [balanced, Bool.and_eq_true] at hp
    obtain ⟨hStep, same⟩ := balancedAll_of_mem mem hp.2
    rw [balance_append, ihBase (fun t ht => plain t (List.mem_append_left _ ht)) hp.1,
      ihStep (fun t ht => plain t (List.mem_append_right _ ht)) hStep, same, net]
  | base _ ih =>
    simp only [balanced, Bool.and_eq_true] at hp
    exact ih plain hp.1
  | grown _ mem _ ihChain ihStep =>
    have hSteps := hp
    simp only [balanced, Bool.and_eq_true] at hSteps
    obtain ⟨hStep, same⟩ := balancedAll_of_mem mem hSteps.2
    rw [balance_append, ihChain (fun t ht => plain t (List.mem_append_left _ ht)) hp,
      ihStep (fun t ht => plain t (List.mem_append_right _ ht)) hStep, same, Int.add_zero]

/-! ### Endings -/

mutual

/-- Does the phrase, if it reads anything, end in a token of a pattern that `hit` names, if the
rules in `known` do? -/
def endsIn (hit : Pattern → Bool) (known : σ → Bool) : Phrase σ → Bool
  | .empty => true
  | .token _ pattern => hit pattern
  | .glued _ => false
  | .seq a b => b.endsIn hit known && (!b.nullable || a.endsIn hit known)
  | .alt a b => a.endsIn hit known && b.endsIn hit known
  | .many p => p.endsIn hit known
  | .absent _ => true
  | .field _ p => p.endsIn hit known
  | .node _ p => p.endsIn hit known
  | .rule s => known s
  | .fork base steps =>
    endsInAll hit known steps && (!nullableAny steps || base.endsIn hit known)
  | .chain base steps => base.endsIn hit known && endsInAll hit known steps

def endsInAll (hit : Pattern → Bool) (known : σ → Bool) :
    List (Form × Option Field × Phrase σ) → Bool
  | [] => true
  | (_, _, p) :: steps => p.endsIn hit known && endsInAll hit known steps

end

theorem endsInAll_of_mem {hit : Pattern → Bool} {known : σ → Bool} {form : Form}
    {label : Option Field} {p : Phrase σ} {steps : List (Form × Option Field × Phrase σ)}
    (mem : (form, label, p) ∈ steps) (h : endsInAll hit known steps) : p.endsIn hit known := by
  induction steps with
  | nil => cases mem
  | cons step steps ih =>
    simp only [endsInAll, Bool.and_eq_true] at h
    rcases List.mem_cons.1 mem with rfl | mem
    · exact h.1
    · exact ih mem h.2

/-- The last token fits a pattern that `hit` names. -/
def Ends (hit : Pattern → Bool) (tokens : List Token) : Prop :=
  ∃ t, tokens.getLast? = some t ∧ t.Hits hit

theorem Ends.append {hit : Pattern → Bool} {us vs : List Token} (some : us ++ vs ≠ [])
    (first : vs = [] → us ≠ [] → Ends hit us) (last : vs ≠ [] → Ends hit vs) :
    Ends hit (us ++ vs) := by
  by_cases hv : vs = []
  · subst hv
    rw [List.append_nil] at some ⊢
    exact first rfl some
  · obtain ⟨t, ht, hits⟩ := last hv
    exact ⟨t, by rw [List.getLast?_append, ht, Option.some_or], hits⟩

theorem Reads.ends {hit : Pattern → Bool} {known : σ → Bool}
    (solid : ∀ s, (rules s).nullable = false)
    (sound : ∀ s, known s = true → (rules s).endsIn hit known = true) {p : Phrase σ}
    {used : List Token} {items : List Node} (h : Reads rules p used items)
    (hp : p.endsIn hit known = true) (some : used ≠ []) : Ends hit used := by
  induction h with
  | empty => exact absurd rfl some
  | token accepted => exact ⟨_, rfl, _, hp, accepted⟩
  | glued => cases hp
  | @seq a b us vs is js _ readB ihA ihB =>
    simp only [endsIn, Bool.and_eq_true, Bool.or_eq_true, Bool.not_eq_true'] at hp
    refine .append some (fun hv hu => ihA ?_ hu) (ihB hp.1)
    -- the second part was empty here, so it is nullable, and it is up to the first part
    rw [(readB.nullable solid hv).1] at hp
    simpa using hp.2
  | first _ ih =>
    simp only [endsIn, Bool.and_eq_true] at hp
    exact ih hp.1 some
  | second _ ih =>
    simp only [endsIn, Bool.and_eq_true] at hp
    exact ih hp.2 some
  | done => exact absurd rfl some
  | more _ _ ihHead ihTail => exact .append some (fun _ => ihHead hp) (ihTail hp)
  | absent => exact absurd rfl some
  | field _ ih => exact ih hp some
  | node _ ih => exact ih hp some
  | @rule s _ _ _ ih => exact ih (sound s hp) some
  | @fork base step steps form label us vs is js _ mem readStep ihBase ihStep =>
    simp only [endsIn, Bool.and_eq_true, Bool.or_eq_true, Bool.not_eq_true'] at hp
    refine .append some (fun hv hu => ihBase ?_ hu) (ihStep (endsInAll_of_mem mem hp.1))
    rw [nullableAny_of_mem mem (readStep.nullable solid hv).1] at hp
    simpa using hp.2
  | base _ ih =>
    simp only [endsIn, Bool.and_eq_true] at hp
    exact ih hp.1 some
  | grown _ mem _ ihChain ihStep =>
    have hSteps := hp
    simp only [endsIn, Bool.and_eq_true] at hSteps
    exact .append some (fun _ => ihChain hp) (ihStep (endsInAll_of_mem mem hSteps.2))

/-! ### Stops -/

/-- Do the tokens end in a semicolon or a closing brace? -/
def Closes (tokens : List Token) : Prop :=
  ∃ t, tokens.getLast? = some t ∧ isStop t.shape.text = true

theorem closes_append {us vs : List Token} (hv : vs ≠ []) : Closes (us ++ vs) ↔ Closes vs := by
  unfold Closes
  rw [List.getLast?_append, List.getLast?_eq_some_getLast hv, Option.some_or]

theorem Closes.of_append {us vs : List Token} (h : Closes (us ++ vs)) :
    vs = [] ∧ Closes us ∨ Closes vs := by
  by_cases hv : vs = []
  · subst hv
    rw [List.append_nil] at h
    exact .inl ⟨rfl, h⟩
  · exact .inr ((closes_append hv).1 h)

mutual

/-- Can the phrase end in a semicolon or a closing brace, if the rules that can are in `known`? -/
def mayStop (known : σ → Bool) : Phrase σ → Bool
  | .empty => false
  | .token _ pattern => pattern.isStop
  | .glued parts => parts.any isStop
  | .seq a b => b.mayStop known || (b.nullable && a.mayStop known)
  | .alt a b => a.mayStop known || b.mayStop known
  | .many p => p.mayStop known
  | .absent _ => false
  | .field _ p => p.mayStop known
  | .node _ p => p.mayStop known
  | .rule s => known s
  | .fork base steps => mayStopAny known steps || (nullableAny steps && base.mayStop known)
  | .chain base steps => base.mayStop known || mayStopAny known steps

def mayStopAny (known : σ → Bool) : List (Form × Option Field × Phrase σ) → Bool
  | [] => false
  | (_, _, p) :: steps => p.mayStop known || mayStopAny known steps

end

mutual

/-- Does the phrase always end in a semicolon or a closing brace, if those in `known` do? -/
def mustStop (known : σ → Bool) : Phrase σ → Bool
  | .empty => true
  | .token _ pattern => pattern.isStop
  | .glued _ => false
  | .seq a b => b.mustStop known && (!b.nullable || a.mustStop known)
  | .alt a b => a.mustStop known && b.mustStop known
  | .many p => p.mustStop known
  | .absent _ => true
  | .field _ p => p.mustStop known
  | .node _ p => p.mustStop known
  | .rule s => known s
  | .fork base steps => mustStopAll known steps && (!nullableAny steps || base.mustStop known)
  | .chain base steps => base.mustStop known && mustStopAll known steps

def mustStopAll (known : σ → Bool) : List (Form × Option Field × Phrase σ) → Bool
  | [] => true
  | (_, _, p) :: steps => p.mustStop known && mustStopAll known steps

end

theorem mayStopAny_of_mem {known : σ → Bool} {form : Form} {label : Option Field} {p : Phrase σ}
    {steps : List (Form × Option Field × Phrase σ)} (mem : (form, label, p) ∈ steps)
    (h : p.mayStop known) : mayStopAny known steps := by
  induction steps with
  | nil => cases mem
  | cons step steps ih =>
    rcases List.mem_cons.1 mem with rfl | mem
    · simp only [mayStopAny, h, Bool.true_or]
    · simp only [mayStopAny, ih mem, Bool.or_true]

mutual

theorem mustStop_eq_endsIn (known : σ → Bool) :
    ∀ p : Phrase σ, p.mustStop known = p.endsIn Pattern.isStop known
  | .empty | .token _ _ | .glued _ | .absent _ | .rule _ => rfl
  | .many p | .field _ p | .node _ p => by rw [mustStop, endsIn, mustStop_eq_endsIn known p]
  | .seq a b => by rw [mustStop, endsIn, mustStop_eq_endsIn known a, mustStop_eq_endsIn known b]
  | .alt a b => by rw [mustStop, endsIn, mustStop_eq_endsIn known a, mustStop_eq_endsIn known b]
  | .fork base steps | .chain base steps => by
    rw [mustStop, endsIn, mustStop_eq_endsIn known base, mustStopAll_eq_endsInAll known steps]

theorem mustStopAll_eq_endsInAll (known : σ → Bool) :
    ∀ steps : List (Form × Option Field × Phrase σ),
      mustStopAll known steps = endsInAll Pattern.isStop known steps
  | [] => rfl
  | (_, _, p) :: steps => by
    rw [mustStopAll, endsInAll, mustStop_eq_endsIn known p, mustStopAll_eq_endsInAll known steps]

end

theorem closes_of_takeGlued {parts : List String} (open' : parts.any isStop = false)
    {stop stop' : Nat} {used : List Token} (h : takeGlued stop parts used = some (stop', [])) :
    ∀ t ∈ used, isStop t.shape.text = false := by
  induction parts generalizing stop used with
  | nil =>
    cases h
    intro t mem
    cases mem
  | cons part parts ih =>
    cases used with
    | nil => simp [takeGlued] at h
    | cons t used =>
      simp only [takeGlued] at h
      split at h
      · rename_i fits
        simp only [Bool.and_eq_true] at fits
        simp only [List.any_cons, Bool.or_eq_false_iff] at open'
        intro u mem
        rcases List.mem_cons.1 mem with rfl | mem
        · rw [Pattern.text_of_accepts fits.1.1, open'.1]
        · exact ih open'.2 h u mem
      · cases h

theorem Reads.mayStop {known : σ → Bool} (solid : ∀ s, (rules s).nullable = false)
    (sound : ∀ s, (rules s).mayStop known = true → known s = true) {p : Phrase σ}
    {used : List Token} {items : List Node} (h : Reads rules p used items)
    (plain : ∀ t ∈ used, t.shape.Plain) (closes : Closes used) : p.mayStop known = true := by
  induction h with
  | empty => obtain ⟨t, last, -⟩ := closes; cases last
  | @token kind pattern t accepted =>
    obtain ⟨u, last, stop⟩ := closes
    obtain rfl : t = u := by simpa using last
    rwa [(Pattern.weight_of_accepts (plain t List.mem_cons_self) accepted).2] at stop
  | @glued parts used items ran =>
    obtain ⟨part, parts, t, tokens, stop, rfl, rfl, accepted, taken, -⟩ := runGlued_cases ran
    rw [Phrase.mayStop]
    cases any : (part :: parts).any isStop with
    | true => rfl
    | false =>
      obtain ⟨u, last, stop⟩ := closes
      simp only [List.any_cons, Bool.or_eq_false_iff] at any
      rcases List.mem_cons.1 (List.mem_of_getLast? last) with rfl | mem
      · rw [Pattern.text_of_accepts accepted, any.1] at stop
        cases stop
      · rw [closes_of_takeGlued any.2 taken u mem] at stop
        cases stop
  | @seq a b us vs is js _ readB ihA ihB =>
    have plainA := fun t ht => plain t (List.mem_append_left _ ht)
    have plainB := fun t ht => plain t (List.mem_append_right _ ht)
    rcases closes.of_append with ⟨rfl, ending⟩ | ending
    · simp [Phrase.mayStop, (readB.nullable solid rfl).1, ihA plainA ending]
    · simp [Phrase.mayStop, ihB plainB ending]
  | first _ ih => simp [Phrase.mayStop, ih plain closes]
  | second _ ih => simp [Phrase.mayStop, ih plain closes]
  | done => obtain ⟨t, last, -⟩ := closes; cases last
  | @more p us vs is js _ _ ihHead ihTail =>
    have plainHead := fun t ht => plain t (List.mem_append_left _ ht)
    have plainTail := fun t ht => plain t (List.mem_append_right _ ht)
    rcases closes.of_append with ⟨rfl, ending⟩ | ending
    · exact ihHead plainHead ending
    · exact ihTail plainTail ending
  | absent => obtain ⟨t, last, -⟩ := closes; cases last
  | field _ ih => exact ih plain closes
  | node _ ih => exact ih plain closes
  | @rule s _ _ _ ih => exact sound s (ih plain closes)
  | @fork base step steps form label us vs is js _ mem readStep ihBase ihStep =>
    have plainBase := fun t ht => plain t (List.mem_append_left _ ht)
    have plainStep := fun t ht => plain t (List.mem_append_right _ ht)
    rcases closes.of_append with ⟨rfl, ending⟩ | ending
    · simp [Phrase.mayStop, nullableAny_of_mem mem (readStep.nullable solid rfl).1,
        ihBase plainBase ending]
    · simp [Phrase.mayStop, mayStopAny_of_mem mem (ihStep plainStep ending)]
  | base _ ih => simp [Phrase.mayStop, ih plain closes]
  | @grown base step steps form label us vs is js _ mem _ ihChain ihStep =>
    have plainChain := fun t ht => plain t (List.mem_append_left _ ht)
    have plainStep := fun t ht => plain t (List.mem_append_right _ ht)
    rcases closes.of_append with ⟨rfl, ending⟩ | ending
    · exact ihChain plainChain ending
    · simp [Phrase.mayStop, mayStopAny_of_mem mem (ihStep plainStep ending)]

theorem Reads.mustStop {known : σ → Bool} (solid : ∀ s, (rules s).nullable = false)
    (sound : ∀ s, known s = true → (rules s).mustStop known = true) {p : Phrase σ}
    {used : List Token} {items : List Node} (h : Reads rules p used items)
    (hp : p.mustStop known = true) (some : used ≠ []) : Closes used := by
  simp only [mustStop_eq_endsIn] at sound hp
  obtain ⟨t, last, pattern, stop, accepted⟩ := h.ends solid sound hp some
  refine ⟨t, last, ?_⟩
  cases pattern with
  | text s => rwa [Pattern.text_of_accepts accepted]
  | word except => cases stop
  | literal form => cases stop

end Phrase

end JakartaCheck.Java
