import JakartaCheck.Proofs.ParsedTrees

/-!
# The order of parts

A node finds its parts by field name or by form; a `Mark` is either. `Node.InOrder` says of the
children of a node that what bears one mark stands behind what bears another. Whether a phrase reads
items in such an order is computed from the phrase (`Phrase.inOrder`). A table of the parts that
nodes of each form have, in their order, is checked where phrases build nodes (`Phrase.builds`) and
then holds throughout the tree (`Node.LaidOut`).
-/

namespace JakartaCheck.Java

/-- How a node finds a part of it. -/
inductive Mark where
  | field (f : Field)
  | form (f : Form)
deriving DecidableEq

namespace Node

variable {early late : Mark} {as bs ns : List Node} {n a b : Node}

/-- Comments bear no mark. -/
def bears (mark : Mark) (n : Node) : Bool :=
  !n.isComment && match mark with
    | .field f => n.field == some f
    | .form f => n.hasForm f

/-- What bears `late` stands behind all that bears `early`, and is none of it. -/
structure InOrder (early late : Mark) (ns : List Node) : Prop where
  apart : ∀ n ∈ ns, ¬ (n.bears early ∧ n.bears late)
  sorted : ns.Pairwise fun a b => ¬ (a.bears late ∧ b.bears early)

namespace InOrder

theorem nil : InOrder early late [] := ⟨nofun, .nil⟩

theorem append (ha : InOrder early late as) (hb : InOrder early late bs)
    (hab : ∀ a ∈ as, ∀ b ∈ bs, ¬ (a.bears late ∧ b.bears early)) : InOrder early late (as ++ bs) :=
  ⟨List.forall_mem_append.2 ⟨ha.apart, hb.apart⟩,
    List.pairwise_append.2 ⟨ha.sorted, hb.sorted, hab⟩⟩

/-- Items that do not bear both of the marks are in order. -/
theorem of_forall (h : ∀ a ∈ ns, ∀ b ∈ ns, ¬ (a.bears late ∧ b.bears early)) :
    InOrder early late ns :=
  ⟨fun n hn hboth => h n hn n hn hboth.symm, List.pairwise_of_forall_mem_list h⟩

theorem sublist (h : InOrder early late bs) (hsub : as.Sublist bs) : InOrder early late as :=
  ⟨fun n hn => h.apart n (hsub.subset hn), h.sorted.sublist hsub⟩

/-- Parts in order stand one behind the other in the text. -/
theorem stop_le_start (h : InOrder early late ns)
    (hordered : ns.Pairwise fun a b => a.span.stop ≤ b.span.start) (ha : a ∈ ns)
    (hearly : a.bears early) (hb : b ∈ ns) (hlate : b.bears late) : a.span.stop ≤ b.span.start := by
  obtain ⟨hapart, hsorted⟩ := h
  have hself := hapart a ha
  obtain ⟨front, back, hsplit⟩ := List.append_of_mem ha
  rw [hsplit] at hb hsorted hordered
  rcases List.mem_append.1 hb with hfront | hback
  · have hclash := (List.pairwise_append.1 hsorted).2.2 b hfront a List.mem_cons_self
    exact absurd ⟨hlate, hearly⟩ hclash
  · rcases List.mem_cons.1 hback with rfl | hback
    · exact absurd ⟨hearly, hlate⟩ hself
    · exact (List.pairwise_cons.1 (List.pairwise_append.1 hordered).2.1).1 b hback

end InOrder

theorem not_isComment_of_bears {mark : Mark} (h : n.bears mark) : n.isComment = false := by
  simp only [bears, Bool.and_eq_true, Bool.not_eq_true'] at h
  exact h.1

/-- A part that a node finds by its name bears it, unless comments have names. -/
theorem bears_of_named {f : Field} (unnamed : n.isComment = true → n.field = none)
    (h : n.field = some f) : n.bears (.field f) := by
  have hcomment : n.isComment = false := by
    by_contra hcomment
    have hnone := unnamed (Bool.not_eq_false _ ▸ hcomment)
    rw [h] at hnone
    cases hnone
  simp [bears, hcomment, h]

theorem bears_of_field {f : Field} (bare : n.Bare) (h : n.field = some f) :
    n.bears (.field f) :=
  bears_of_named (fun comment => (bare comment).1) h

theorem bears_of_form {f : Form} (hplain : f ≠ .lineComment ∧ f ≠ .blockComment)
    (h : n.hasForm f) : n.bears (.form f) := by
  have hkind : n.kind = .form f := beq_iff_eq.1 h
  simp [bears, isComment, hasForm, hkind, hplain]

end Node

namespace Phrase

variable {σ : Type} {rules : σ → Phrase σ} {p : Phrase σ} {used : List Token} {items : List Node}

/-! ### Names of the outermost nodes -/

/-- Can the phrase give the name `f` to a node at its outermost level, if the rules that can are
those in `known`? -/
def mayName (f : Field) (known : σ → Bool) : Phrase σ → Bool
  | .seq a b => a.mayName f known || b.mayName f known
  | .alt a b => a.mayName f known || b.mayName f known
  | .many p => p.mayName f known
  | .field label _ => label == f
  | .rule s => known s
  | .chain base _ => base.mayName f known
  | _ => false

/-- The rules that can give that name, as far as following rules `depth` times tells. -/
def ruleNames (rules : σ → Phrase σ) (f : Field) : Nat → σ → Bool
  | 0, _ => true
  | depth + 1, s => (rules s).mayName f (ruleNames rules f depth)

theorem field_of_mem_setField {label : Field} {n : Node} (mem : n ∈ Node.setField label items)
    (hn : n.isComment = false) : n.field = some label := by
  obtain ⟨⟨kind, field, span, children⟩, -, rfl⟩ := List.mem_map.1 mem
  dsimp only at hn ⊢
  split at hn
  · rename_i comment
    rw [comment] at hn
    cases hn
  · rename_i comment
    rw [if_neg comment]
    rfl

theorem field_of_mem_enclose {form : Form} {n : Node} (mem : n ∈ Node.enclose form items)
    (hn : n.isComment = false) : n.field = none := by
  rcases enclose_cases form items with ⟨front, span, children, eq, comments, -⟩ | comments
  · rw [eq] at mem
    rcases List.mem_append.1 mem with mem | mem
    · rw [comments n mem] at hn
      cases hn
    · rw [List.mem_singleton.1 mem]
      rfl
  · rw [comments n mem] at hn
    cases hn

/-- A name that a node has at the outermost level is one that the phrase can give there. -/
theorem Reads.mayName {f : Field} (h : Reads rules p used items)
    (comments : ∀ t ∈ used, ∀ c ∈ t.comments, c.isComment = true) {n : Node} (mem : n ∈ items)
    (hn : n.isComment = false) (hf : n.field = some f) (depth : Nat) :
    p.mayName f (ruleNames rules f depth) = true := by
  -- leaves and enclosed nodes are not named yet
  have unnamed : n.field = none → False := fun hnone => by
    rw [hnone] at hf
    cases hf
  induction h generalizing depth with
  | empty => cases mem
  | @token kind pattern t accepted =>
    rcases List.mem_append.1 mem with mem | mem
    · rw [comments t List.mem_cons_self n mem] at hn
      cases hn
    · obtain rfl := List.mem_singleton.1 mem
      exact (unnamed rfl).elim
  | @glued parts used items ran =>
    obtain ⟨part, parts, t, tokens, stop, rfl, rfl, -, -, rfl⟩ := runGlued_cases ran
    rcases List.mem_append.1 mem with mem | mem
    · rw [comments t List.mem_cons_self n mem] at hn
      cases hn
    · obtain rfl := List.mem_singleton.1 mem
      exact (unnamed rfl).elim
  | seq _ _ ihA ihB =>
    rcases List.mem_append.1 mem with mem | mem
    · simp [Phrase.mayName, ihA (fun t ht => comments t (List.mem_append_left _ ht)) mem]
    · simp [Phrase.mayName, ihB (fun t ht => comments t (List.mem_append_right _ ht)) mem]
  | first _ ih => simp [Phrase.mayName, ih comments mem]
  | second _ ih => simp [Phrase.mayName, ih comments mem]
  | done => cases mem
  | more _ _ ihHead ihTail =>
    rcases List.mem_append.1 mem with mem | mem
    · exact ihHead (fun t ht => comments t (List.mem_append_left _ ht)) mem depth
    · exact ihTail (fun t ht => comments t (List.mem_append_right _ ht)) mem depth
  | absent => cases mem
  | field _ _ =>
    have label := (field_of_mem_setField mem hn).symm.trans hf
    simpa [Phrase.mayName] using label
  | node _ _ => exact (unnamed (field_of_mem_enclose mem hn)).elim
  | rule _ ih =>
    cases depth with
    | zero => rfl
    | succ depth => exact ih comments mem depth
  | fork _ _ _ _ _ => exact (unnamed (field_of_mem_enclose mem hn)).elim
  | base _ ih => exact ih comments mem depth
  | grown _ _ _ _ _ => exact (unnamed (field_of_mem_enclose mem hn)).elim

/-! ### Marks and their order -/

/-- Can a node that the phrase builds at its outermost level bear the mark? -/
def mayBear (rules : σ → Phrase σ) (depth : Nat) (mark : Mark) (p : Phrase σ) : Bool :=
  match mark with
  | .field f => p.mayName f (ruleNames rules f depth)
  | .form f => p.mayYield f (ruleYields rules f depth)

theorem Reads.mayBear {mark : Mark} (h : Reads rules p used items)
    (comments : ∀ t ∈ used, ∀ c ∈ t.comments, c.isComment = true) {n : Node} (mem : n ∈ items)
    (hbears : n.bears mark) (depth : Nat) : p.mayBear rules depth mark = true := by
  have hn := Node.not_isComment_of_bears hbears
  simp only [Node.bears, hn, Bool.not_false, Bool.true_and] at hbears
  cases mark with
  | field f => exact h.mayName comments mem hn (beq_iff_eq.1 hbears) depth
  | form f => exact h.mayYield comments mem hn (beq_iff_eq.1 hbears) depth

/-- Does the phrase read the parts with these marks in this order only? -/
def inOrder (rules : σ → Phrase σ) (depth : Nat) (early late : Mark) : Phrase σ → Bool
  | .seq a b =>
    a.inOrder rules depth early late && b.inOrder rules depth early late &&
      !(a.mayBear rules depth late && b.mayBear rules depth early)
  | .alt a b => a.inOrder rules depth early late && b.inOrder rules depth early late
  | p => !(p.mayBear rules depth late && p.mayBear rules depth early)

theorem Reads.inOrder {depth : Nat} {early late : Mark} (h : Reads rules p used items)
    (comments : ∀ t ∈ used, ∀ c ∈ t.comments, c.isComment = true)
    (hp : p.inOrder rules depth early late = true) : Node.InOrder early late items := by
  fun_induction Phrase.inOrder rules depth early late p generalizing used items with
  | case1 a b ihA ihB =>
    cases h with
    | seq readA readB =>
      simp only [Bool.and_eq_true, Bool.not_eq_true'] at hp
      obtain ⟨⟨hA, hB⟩, hcross⟩ := hp
      have commentsA := fun t ht => comments t (List.mem_append_left _ ht)
      have commentsB := fun t ht => comments t (List.mem_append_right _ ht)
      refine (ihA readA commentsA hA).append (ihB readB commentsB hB) ?_
      rintro m hm n hn ⟨hlate, hearly⟩
      rw [readA.mayBear commentsA hm hlate, readB.mayBear commentsB hn hearly] at hcross
      cases hcross
  | case2 a b ihA ihB =>
    simp only [Bool.and_eq_true] at hp
    cases h with
    | first read => exact ihA read comments hp.1
    | second read => exact ihB read comments hp.2
  | case3 p =>
    refine .of_forall ?_
    rintro m hm n hn ⟨hlate, hearly⟩
    rw [h.mayBear comments hm hlate, h.mayBear comments hn hearly] at hp
    cases hp

/-! ### Where nodes are built -/

/-- The phrase, its items named. -/
def labelled (label : Option Field) (p : Phrase σ) : Phrase σ :=
  match label with
  | some f => .field f p
  | none => p

theorem Reads.labelled (h : Reads rules p used items) (label : Option Field) :
    Reads rules (p.labelled label) used (named label items) := by
  cases label with
  | none => exact h
  | some f => exact .field h

mutual

/-- Does each form fit the phrase whose items are enclosed in a node of it? -/
def builds (fits : Form → Phrase σ → Bool) : Phrase σ → Bool
  | .seq a b => a.builds fits && b.builds fits
  | .alt a b => a.builds fits && b.builds fits
  | .many p => p.builds fits
  | .field _ p => p.builds fits
  | .node form p => fits form p && p.builds fits
  | .fork base steps => base.builds fits && buildsAll fits base steps
  | .chain base steps => base.builds fits && buildsAll fits (.chain base steps) steps
  | _ => true

/-- The node of a step also takes in what `front` has read. -/
def buildsAll (fits : Form → Phrase σ → Bool) (front : Phrase σ) :
    List (Form × Option Field × Phrase σ) → Bool
  | [] => true
  | (form, label, p) :: steps =>
    fits form (.seq (front.labelled label) p) && p.builds fits && buildsAll fits front steps

end

theorem buildsAll_of_mem {fits : Form → Phrase σ → Bool} {front : Phrase σ} {form : Form}
    {label : Option Field} {steps : List (Form × Option Field × Phrase σ)}
    (mem : (form, label, p) ∈ steps) (h : buildsAll fits front steps) :
    fits form (.seq (front.labelled label) p) = true ∧ p.builds fits = true := by
  induction steps with
  | nil => cases mem
  | cons step steps ih =>
    rcases List.mem_cons.1 mem with rfl | mem
    · simp only [buildsAll, Bool.and_eq_true] at h
      exact h.1
    · simp only [buildsAll, Bool.and_eq_true] at h
      exact ih mem h.2

end Phrase

/-! ### What nodes are built from -/

/-- The node has the items as its children, up to comments in front, and reaches from the first of
them to the last. -/
structure Node.Wraps (n : Node) (items : List Node) : Prop where
  children : n.children = items.dropWhile Node.isComment
  start : n.children.head?.map (·.span.start) = some n.span.start
  stop : n.children.getLast?.map (·.span.stop) = some n.span.stop

/-- A node with children is built around what a phrase that fits its form reads, from some of the
tokens. -/
def Node.BuiltFrom {σ : Type} (rules : σ → Phrase σ) (fits : Form → Phrase σ → Bool)
    (tokens : List Token) (n : Node) : Prop :=
  n.children = [] ∨ ∃ form p us is, n.kind = .form form ∧ fits form p = true ∧ us <:+: tokens ∧
    Phrase.Reads rules p us is ∧ n.Wraps is

section BuiltFrom

variable {σ : Type} {rules : σ → Phrase σ} {fits : Form → Phrase σ → Bool}
  {tokens tokens' : List Token} {items : List Node}

theorem Node.BuiltFrom.mono {n : Node} (sub : tokens <:+: tokens')
    (h : n.BuiltFrom rules fits tokens) : n.BuiltFrom rules fits tokens' :=
  h.imp_right fun ⟨form, p, us, is, hform, hfits, inner, read⟩ =>
    ⟨form, p, us, is, hform, hfits, inner.trans sub, read⟩

theorem builtFrom_leaf (kind : Kind) (field : Option Field) (span : Span) :
    (Node.mk kind field span []).Everywhere (Node.BuiltFrom rules fits tokens) :=
  Node.everywhere_mk.2 ⟨.inl rfl, nofun⟩

theorem IsNote.builtFrom {n : Node} (h : IsNote n) :
    n.Everywhere (Node.BuiltFrom rules fits tokens) := by
  obtain ⟨-, -, leaf⟩ := h
  obtain ⟨kind, field, span, children⟩ := n
  cases leaf
  exact builtFrom_leaf kind field span

theorem builtFrom_comments {t : Token} {n : Node} (notes : ∀ c ∈ t.comments, IsNote c)
    (hn : n.Everywhere (Node.BuiltFrom rules fits tokens)) :
    ∀ m ∈ t.comments ++ [n], m.Everywhere (Node.BuiltFrom rules fits tokens) := by
  intro m hm
  rcases List.mem_append.1 hm with hm | hm
  · exact (notes m hm).builtFrom
  · rw [List.mem_singleton.1 hm]
    exact hn

theorem builtFrom_append {more : List Node}
    (h : ∀ n ∈ items, n.Everywhere (Node.BuiltFrom rules fits tokens))
    (h' : ∀ n ∈ more, n.Everywhere (Node.BuiltFrom rules fits tokens')) :
    ∀ n ∈ items ++ more, n.Everywhere (Node.BuiltFrom rules fits (tokens ++ tokens')) :=
  List.forall_mem_append.2
    ⟨fun n hn => (h n hn).imp fun _ => .mono (List.prefix_append _ _).isInfix,
      fun n hn => (h' n hn).imp fun _ => .mono (List.suffix_append _ _).isInfix⟩

theorem builtFrom_setField {f : Field}
    (h : ∀ n ∈ items, n.Everywhere (Node.BuiltFrom rules fits tokens)) :
    ∀ n ∈ Node.setField f items, n.Everywhere (Node.BuiltFrom rules fits tokens) := by
  intro n hn
  obtain ⟨⟨kind, field, span, children⟩, mem, rfl⟩ := List.mem_map.1 hn
  have hnode := h _ mem
  dsimp only
  split
  · exact hnode
  · obtain ⟨here, inner⟩ := Node.everywhere_mk.1 hnode
    refine Node.everywhere_mk.2 ⟨here.imp_right ?_, inner⟩
    rintro ⟨form, p, us, is, hform, hfits, sub, read, children, start, stop⟩
    exact ⟨form, p, us, is, hform, hfits, sub, read, children, start, stop⟩

theorem builtFrom_named {label : Option Field}
    (h : ∀ n ∈ items, n.Everywhere (Node.BuiltFrom rules fits tokens)) :
    ∀ n ∈ Phrase.named label items, n.Everywhere (Node.BuiltFrom rules fits tokens) := by
  cases label with
  | none => exact h
  | some f => exact builtFrom_setField h

theorem builtFrom_enclose {form : Form} {p : Phrase σ} (hfits : fits form p = true)
    (read : Phrase.Reads rules p tokens items)
    (inner : ∀ n ∈ items, n.Everywhere (Node.BuiltFrom rules fits tokens)) :
    ∀ n ∈ Node.enclose form items, n.Everywhere (Node.BuiltFrom rules fits tokens) := by
  simp only [Node.enclose]
  split
  · rename_i first last hfirst hlast
    intro n hn
    rcases List.mem_append.1 hn with hn | hn
    · exact inner n ((List.takeWhile_sublist _).subset hn)
    · rw [List.mem_singleton.1 hn]
      refine Node.everywhere_mk.2
        ⟨.inr ⟨form, p, tokens, items, rfl, hfits, List.infix_refl _, read, rfl, ?_, ?_⟩,
          fun m hm => inner m ((List.dropWhile_sublist _).subset hm)⟩
      · exact congrArg (Option.map _) hfirst
      · exact congrArg (Option.map _) hlast
  · exact inner

end BuiltFrom

namespace Phrase

variable {σ : Type} {rules : σ → Phrase σ} {fits : Form → Phrase σ → Bool} {p : Phrase σ}
  {used : List Token} {items : List Node}

/-- Every node that a phrase builds is built from a phrase that fits its form. -/
theorem Reads.builtFrom (sound : ∀ s, (rules s).builds fits = true) (h : Reads rules p used items)
    (hp : p.builds fits = true) (notes : ∀ t ∈ used, ∀ c ∈ t.comments, IsNote c) :
    ∀ n ∈ items, n.Everywhere (Node.BuiltFrom rules fits used) := by
  induction h with
  | empty => exact nofun
  | @token kind pattern t accepted =>
    exact builtFrom_comments (notes t List.mem_cons_self) (builtFrom_leaf kind none t.span)
  | @glued parts used items ran =>
    obtain ⟨part, parts, t, tokens, stop, rfl, rfl, -, -, rfl⟩ := runGlued_cases ran
    exact builtFrom_comments (notes t List.mem_cons_self) (builtFrom_leaf _ none _)
  | seq _ _ ihA ihB =>
    simp only [Phrase.builds, Bool.and_eq_true] at hp
    exact builtFrom_append (ihA hp.1 fun t ht => notes t (List.mem_append_left _ ht))
      (ihB hp.2 fun t ht => notes t (List.mem_append_right _ ht))
  | first _ ih =>
    simp only [Phrase.builds, Bool.and_eq_true] at hp
    exact ih hp.1 notes
  | second _ ih =>
    simp only [Phrase.builds, Bool.and_eq_true] at hp
    exact ih hp.2 notes
  | done => exact nofun
  | more _ _ ihHead ihTail =>
    exact builtFrom_append (ihHead hp fun t ht => notes t (List.mem_append_left _ ht))
      (ihTail hp fun t ht => notes t (List.mem_append_right _ ht))
  | absent => exact nofun
  | field _ ih => exact builtFrom_setField (ih hp notes)
  | node read ih =>
    simp only [Phrase.builds, Bool.and_eq_true] at hp
    exact builtFrom_enclose hp.1 read (ih hp.2 notes)
  | rule _ ih => exact ih (sound _) notes
  | fork read mem next ihBase ihStep =>
    simp only [Phrase.builds, Bool.and_eq_true] at hp
    obtain ⟨hfits, hstep⟩ := buildsAll_of_mem mem hp.2
    exact builtFrom_enclose hfits ((read.labelled _).seq next)
      (builtFrom_append
        (builtFrom_named (ihBase hp.1 fun t ht => notes t (List.mem_append_left _ ht)))
        (ihStep hstep fun t ht => notes t (List.mem_append_right _ ht)))
  | base _ ih =>
    simp only [Phrase.builds, Bool.and_eq_true] at hp
    exact ih hp.1 notes
  | grown read mem next ihChain ihStep =>
    obtain ⟨hfits, hstep⟩ := buildsAll_of_mem mem (Bool.and_eq_true_iff.1 hp).2
    exact builtFrom_enclose hfits ((read.labelled _).seq next)
      (builtFrom_append
        (builtFrom_named (ihChain hp fun t ht => notes t (List.mem_append_left _ ht)))
        (ihStep hstep fun t ht => notes t (List.mem_append_right _ ht)))

end Phrase

/-! ### Layouts -/

/-- The parts of the node stand in the order that `layout` gives for its form. -/
def Node.LaidOut (layout : Form → List Mark) (n : Node) : Prop :=
  ∀ form, n.kind = .form form →
    (layout form).Pairwise fun early late => InOrder early late n.children

theorem IsNote.laidOut {layout : Form → List Mark} {n : Node} (h : IsNote n) :
    n.Everywhere (Node.LaidOut layout) := by
  obtain ⟨-, -, leaf⟩ := h
  obtain ⟨kind, field, span, children⟩ := n
  cases leaf
  exact Node.everywhere_mk.2 ⟨fun _ _ => List.pairwise_of_forall fun _ _ => .nil, nofun⟩

namespace Phrase

variable {σ : Type} {rules : σ → Phrase σ} {depth : Nat} {layout : Form → List Mark}
  {p : Phrase σ} {used : List Token} {items : List Node}

/-- Are the items of the phrase in the order of the parts of that form? -/
def fitsLayout (rules : σ → Phrase σ) (depth : Nat) (layout : Form → List Mark) (form : Form)
    (p : Phrase σ) : Bool :=
  decide ((layout form).Pairwise fun early late => p.inOrder rules depth early late)

theorem Reads.ordered {form : Form} (h : Reads rules p used items)
    (notes : ∀ t ∈ used, ∀ c ∈ t.comments, IsNote c)
    (hp : p.fitsLayout rules depth layout form = true) :
    (layout form).Pairwise fun early late => Node.InOrder early late items :=
  (of_decide_eq_true hp).imp fun hordered =>
    h.inOrder (fun t ht c hc => (notes t ht c hc).1) hordered

/-- Every node that a phrase builds is laid out if the phrases that are enclosed are in order. -/
theorem Reads.laidOut (sound : ∀ s, (rules s).builds (fitsLayout rules depth layout) = true)
    (h : Reads rules p used items) (hp : p.builds (fitsLayout rules depth layout) = true)
    (notes : ∀ t ∈ used, ∀ c ∈ t.comments, IsNote c) :
    ∀ n ∈ items, n.Everywhere (Node.LaidOut layout) := by
  intro n hn
  refine (h.builtFrom sound hp notes n hn).imp fun m built form hform => ?_
  rcases built with leaf | ⟨form', q, us, is, hform', hfits, sub, read, wraps⟩
  · rw [leaf]
    exact List.pairwise_of_forall fun _ _ => .nil
  · obtain rfl := Kind.form.inj (hform.symm.trans hform')
    rw [wraps.children]
    have ordered := read.ordered (fun t ht => notes t (sub.subset ht)) hfits
    exact ordered.imp fun hordered => hordered.sublist (List.dropWhile_sublist _)

end Phrase

end JakartaCheck.Java
