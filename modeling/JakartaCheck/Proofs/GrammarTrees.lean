import JakartaCheck.Proofs.GrammarTransport

/-!
# Trees that a grammar builds

What holds of tokens and is kept by appending, naming and enclosing holds of everything that a
phrase reads (`Reads.closed`). Which nodes a phrase encloses and which of them it names is checked
at the phrases (`Checks`, `Phrase.passes`).
-/

namespace JakartaCheck.Java.Phrase

variable {σ : Type} {rules : σ → Phrase σ}

/-! ### Checking phrases -/

/-- Conditions on the places where phrases build and name nodes. -/
structure Checks (σ : Type) where
  /-- A leaf may be of that kind. -/
  token : Kind → Bool
  /-- A node of that form may end with what the phrase reads. -/
  node : Form → Phrase σ → Bool
  /-- What the phrase reads may get that name. -/
  field : Field → Phrase σ → Bool
  /-- What stands in front of a step may get that name. -/
  label : Field → Bool

mutual

/-- Do all nodes and names in the phrase pass the checks? -/
def passes (checks : Checks σ) : Phrase σ → Bool
  | .empty => true
  | .token kind _ => checks.token kind
  | .glued _ => true
  | .seq a b => a.passes checks && b.passes checks
  | .alt a b => a.passes checks && b.passes checks
  | .many p => p.passes checks
  | .absent _ => true
  | .field label p => checks.field label p && p.passes checks
  | .node form p => checks.node form p && p.passes checks
  | .rule _ => true
  | .fork base steps => base.passes checks && passesAll checks steps
  | .chain base steps => base.passes checks && passesAll checks steps

def passesAll (checks : Checks σ) : List (Form × Option Field × Phrase σ) → Bool
  | [] => true
  | (form, label, p) :: steps =>
    checks.node form p && label.all checks.label && p.passes checks && passesAll checks steps

end

theorem passesAll_of_mem {checks : Checks σ} {form : Form} {label : Option Field} {p : Phrase σ}
    {steps : List (Form × Option Field × Phrase σ)} (mem : (form, label, p) ∈ steps)
    (h : passesAll checks steps) :
    checks.node form p = true ∧ label.all checks.label = true ∧ p.passes checks = true := by
  induction steps with
  | nil => cases mem
  | cons step steps ih =>
    rcases List.mem_cons.1 mem with rfl | mem
    · simp only [passesAll, Bool.and_eq_true] at h
      exact ⟨h.1.1.1, h.1.1.2, h.1.2⟩
    · simp only [passesAll, Bool.and_eq_true] at h
      exact ih mem h.2

/-! ### Properties of what is read -/

/-- `P` holds of leaves and is kept by whatever passes the checks. -/
structure Closed (rules : σ → Phrase σ) (checks : Checks σ) (P : List Token → List Node → Prop) :
    Prop where
  empty : P [] []
  token : ∀ {kind : Kind} (t : Token), checks.token kind = true →
    P [t] (t.comments ++ [.mk kind none t.span []])
  glued : ∀ {parts : List String} {used : List Token} {items : List Node},
    runGlued parts used = some (items, []) → P used items
  append : ∀ {us vs : List Token} {is js : List Node}, P us is → P vs js → P (us ++ vs) (is ++ js)
  field : ∀ {f : Field} {p : Phrase σ} {us : List Token} {is : List Node}, checks.field f p = true →
    Reads rules p us is → P us is → P us (Node.setField f is)
  label : ∀ {f : Field} {us : List Token} {is : List Node}, checks.label f = true → P us is →
    P us (Node.setField f is)
  enclose : ∀ {form : Form} {p : Phrase σ} {us vs : List Token} {is js : List Node},
    checks.node form p = true → Reads rules p vs js → P us is → P vs js →
    P (us ++ vs) (Node.enclose form (is ++ js))

variable {checks : Checks σ} {P : List Token → List Node → Prop}

theorem Closed.step (closed : Closed rules checks P) {form : Form} {label : Option Field}
    {p : Phrase σ} {us vs : List Token} {is js : List Node} (node : checks.node form p = true)
    (named : label.all checks.label = true) (reads : Reads rules p vs js) (before : P us is)
    (after : P vs js) : P (us ++ vs) (Node.enclose form (Phrase.named label is ++ js)) := by
  refine closed.enclose node reads ?_ after
  cases label with
  | none => exact before
  | some f => exact closed.label named before

theorem Reads.closed (closed : Closed rules checks P)
    (sound : ∀ s, (rules s).passes checks = true) {p : Phrase σ} {used : List Token}
    {items : List Node} (h : Reads rules p used items) (hp : p.passes checks = true) :
    P used items := by
  induction h with
  | empty => exact closed.empty
  | token accepted => exact closed.token _ hp
  | glued ran => exact closed.glued ran
  | seq _ _ ihA ihB =>
    simp only [passes, Bool.and_eq_true] at hp
    exact closed.append (ihA hp.1) (ihB hp.2)
  | first _ ih =>
    simp only [passes, Bool.and_eq_true] at hp
    exact ih hp.1
  | second _ ih =>
    simp only [passes, Bool.and_eq_true] at hp
    exact ih hp.2
  | done => exact closed.empty
  | more _ _ ihHead ihTail => exact closed.append (ihHead hp) (ihTail hp)
  | absent => exact closed.empty
  | field reads ih =>
    simp only [passes, Bool.and_eq_true] at hp
    exact closed.field hp.1 reads (ih hp.2)
  | node reads ih =>
    simp only [passes, Bool.and_eq_true] at hp
    exact closed.enclose hp.1 reads closed.empty (ih hp.2)
  | rule _ ih => exact ih (sound _)
  | fork _ mem next ihBase ihStep =>
    simp only [passes, Bool.and_eq_true] at hp
    obtain ⟨node, label, step⟩ := passesAll_of_mem mem hp.2
    exact closed.step node label next (ihBase hp.1) (ihStep step)
  | base _ ih =>
    simp only [passes, Bool.and_eq_true] at hp
    exact ih hp.1
  | grown _ mem next ihChain ihStep =>
    obtain ⟨node, label, step⟩ := passesAll_of_mem mem (Bool.and_eq_true_iff.1 hp).2
    exact closed.step node label next (ihChain hp) (ihStep step)

/-! ### Names that a phrase always gives -/

/-- Does some node of whatever the phrase reads get that name? -/
def offers (f : Field) : Phrase σ → Bool
  | .field label p => label == f && !p.nullable && p.silent
  | .seq a b => a.offers f || b.offers f
  | .alt a b => a.offers f && b.offers f
  | _ => false

theorem exists_mem_setField {f : Field} {items : List Node} {n : Node} (mem : n ∈ items)
    (hn : n.isComment = false) :
    ∃ m ∈ Node.setField f items, m.isComment = false ∧ m.field = some f := by
  refine ⟨_, List.mem_map_of_mem mem, ?_⟩
  obtain ⟨kind, field, span, children⟩ := n
  dsimp only
  rw [hn]
  exact ⟨hn, rfl⟩

theorem Reads.offers (solid : ∀ s, (rules s).nullable = false)
    (quiet : ∀ s, (rules s).silent = true) {f : Field} {p : Phrase σ} {used : List Token}
    {items : List Node} (h : Reads rules p used items) (hp : p.offers f = true)
    (comments : ∀ t ∈ used, ∀ c ∈ t.comments, c.isComment = true) :
    ∃ n ∈ items, n.isComment = false ∧ n.field = some f := by
  induction h with
  | @field label p us is reads _ =>
    simp only [Phrase.offers, Bool.and_eq_true, beq_iff_eq, Bool.not_eq_true'] at hp
    obtain ⟨⟨rfl, notNullable⟩, silent⟩ := hp
    cases us with
    | nil =>
      rw [(reads.nullable solid rfl).1] at notNullable
      cases notNullable
    | cons t us =>
      obtain ⟨n, after, rfl, notComment, -⟩ :=
        reads.leads solid quiet silent rfl (comments t List.mem_cons_self)
      exact exists_mem_setField (List.mem_append_right _ List.mem_cons_self) notComment
  | seq _ _ ihA ihB =>
    simp only [Phrase.offers, Bool.or_eq_true] at hp
    rcases hp with hp | hp
    · obtain ⟨n, hn, named⟩ := ihA hp fun t ht => comments t (List.mem_append_left _ ht)
      exact ⟨n, List.mem_append_left _ hn, named⟩
    · obtain ⟨n, hn, named⟩ := ihB hp fun t ht => comments t (List.mem_append_right _ ht)
      exact ⟨n, List.mem_append_right _ hn, named⟩
  | first _ ih =>
    simp only [Phrase.offers, Bool.and_eq_true] at hp
    exact ih hp.1 comments
  | second _ ih =>
    simp only [Phrase.offers, Bool.and_eq_true] at hp
    exact ih hp.2 comments
  | _ => cases hp

end JakartaCheck.Java.Phrase
