import JakartaCheck.Proofs.GrammarOrder
import JakartaCheck.Proofs.TokenSeams

/-!
# Seams between nodes

The nodes that a phrase builds stand in a row as its tokens do (`Phrase.Reads.inRow`): the first
starts with the first token, the last ends with the last, and of two in a row the second starts
where the first stops or where no word ends (`Node.Adjoins`). Whether nodes of some kinds stand only
at the front of a phrase or behind certain tokens is computed from the phrase (`Phrase.parted`).
-/

namespace JakartaCheck.Java

variable {text : String}

/-! ### Rows of nodes -/

namespace Node

/-- The nodes that are no comments. -/
def solid (ns : List Node) : List Node := ns.filter (!·.isComment)

theorem solid_append (as bs : List Node) : solid (as ++ bs) = solid as ++ solid bs :=
  List.filter_append ..

theorem mem_solid {ns : List Node} {n : Node} : n ∈ solid ns ↔ n ∈ ns ∧ n.isComment = false := by
  rw [solid, List.mem_filter, Bool.not_eq_true']

theorem solid_eq_nil {ns : List Node} (h : ∀ n ∈ ns, n.isComment = true) : solid ns = [] :=
  List.filter_eq_nil_iff.2 fun n hn => by simp [h n hn]

theorem solid_dropWhile (ns : List Node) : solid (ns.dropWhile isComment) = solid ns := by
  conv_rhs => rw [← List.takeWhile_append_dropWhile (p := isComment) (l := ns), solid_append]
  rw [solid_eq_nil fun n hn => List.mem_takeWhile_imp hn, List.nil_append]

theorem head?_dropWhile (ns : List Node) : (ns.dropWhile isComment).head? = (solid ns).head? := by
  rw [solid, List.head?_filter, List.find?_eq_head?_dropWhile_not]
  simp only [Bool.not_not]

theorem solid_comments {cs : List Node} {n : Node} (comments : ∀ c ∈ cs, c.isComment = true)
    (hn : n.isComment = false) : solid (cs ++ [n]) = [n] := by
  rw [solid_append, solid_eq_nil comments, List.nil_append, solid, List.filter_cons,
    if_pos (by rw [hn]; rfl), List.filter_nil]

theorem solid_setField (f : Field) (ns : List Node) :
    solid (setField f ns) = setField f (solid ns) := by
  rw [solid, setField, List.filter_map, setField, solid]
  refine congrArg _ (List.filter_congr fun n _ => ?_)
  obtain ⟨kind, field, span, children⟩ := n
  dsimp only [Function.comp_apply]
  split <;> rfl

/-- The second node starts where the first stops, or where no word ends. -/
def Adjoins (text : String) (a b : Node) : Prop :=
  a.span.stop = b.span.start ∨ Loose text b.span.start

end Node

/-- The items stand in a row as the tokens do. -/
structure InRow (text : String) (used : List Token) (items : List Node) : Prop where
  start : (Node.solid items).head?.map (·.span.start) = used.head?.map (·.span.start)
  stop : (Node.solid items).getLast?.map (·.span.stop) = used.getLast?.map (·.span.stop)
  /-- Behind the last token there are no comments. -/
  last : items.getLast? = (Node.solid items).getLast?
  chain : used.IsChain (Adjoins text) → (Node.solid items).IsChain (Node.Adjoins text)

namespace InRow

variable {us vs : List Token} {is js : List Node}

theorem nil : InRow text [] [] := ⟨rfl, rfl, rfl, fun _ => .nil⟩

theorem leaf {used : List Token} {cs : List Node} {n : Node}
    (comments : ∀ c ∈ cs, c.isComment = true) (hn : n.isComment = false)
    (start : some n.span.start = used.head?.map (·.span.start))
    (stop : some n.span.stop = used.getLast?.map (·.span.stop)) : InRow text used (cs ++ [n]) := by
  refine ⟨?_, ?_, ?_, fun _ => ?_⟩
  all_goals rw [Node.solid_comments comments hn]
  · exact start
  · exact stop
  · rw [List.getLast?_append]
    rfl
  · exact .singleton _

theorem append (hi : InRow text us is) (hj : InRow text vs js) :
    InRow text (us ++ vs) (is ++ js) where
  start := by
    rw [Node.solid_append, List.head?_append, List.head?_append, Option.map_or, Option.map_or,
      hi.start, hj.start]
  stop := by
    rw [Node.solid_append, List.getLast?_append, List.getLast?_append, Option.map_or, Option.map_or,
      hi.stop, hj.stop]
  last := by
    rw [Node.solid_append, List.getLast?_append, List.getLast?_append, hi.last, hj.last]
  chain h := by
    obtain ⟨first, second, between⟩ := List.isChain_append.1 h
    rw [Node.solid_append]
    refine List.isChain_append.2 ⟨hi.chain first, hj.chain second, fun a ha b hb => ?_⟩
    -- the nodes meet where their tokens do
    have stop := hi.stop
    have start := hj.start
    rw [ha] at stop
    rw [hb] at start
    obtain ⟨u, hu, stop⟩ := Option.map_eq_some_iff.1 stop.symm
    obtain ⟨v, hv, start⟩ := Option.map_eq_some_iff.1 start.symm
    have adjoins := between u hu v hv
    rwa [Adjoins, stop, start] at adjoins

theorem setField (h : InRow text us is) (f : Field) : InRow text us (Node.setField f is) := by
  have spans : (Node.solid (Node.setField f is)).map Node.span = (Node.solid is).map Node.span := by
    rw [Node.solid_setField, map_span_setField]
  refine ⟨?_, ?_, ?_, fun chain => ?_⟩
  · have first := congrArg (·.head?.map Span.start) spans
    simp only [List.head?_map, Option.map_map] at first
    exact first.trans h.start
  · have last := congrArg (·.getLast?.map Span.stop) spans
    simp only [List.getLast?_map, Option.map_map] at last
    exact last.trans h.stop
  · rw [Node.solid_setField, Node.setField, Node.setField, List.getLast?_map, List.getLast?_map,
      h.last]
  · have row : ((Node.solid is).map Node.span).IsChain
        fun s t => s.stop = t.start ∨ Loose text t.start := (List.isChain_map _).2 (h.chain chain)
    rw [← spans] at row
    exact (List.isChain_map Node.span).1 row

/-- Comments in front apart, a node around the items reaches from the first token to the last. -/
theorem enclose (h : InRow text us is) {form : Form}
    (plain : form ≠ .lineComment ∧ form ≠ .blockComment) :
    InRow text us (Node.enclose form is) := by
  have hstart := h.start
  have hstop := h.stop
  rw [← Node.head?_dropWhile] at hstart
  rw [← h.last] at hstop
  simp only [Node.enclose]
  split
  · rename_i first last hfirst hlast
    rw [hfirst] at hstart
    have here : is.getLast? = some last := by
      rw [← List.takeWhile_append_dropWhile (p := Node.isComment) (l := is), List.getLast?_append,
        hlast, Option.some_or]
    rw [here] at hstop
    refine leaf (fun c hc => List.mem_takeWhile_imp hc) ?_ hstart hstop
    simp [Node.isComment, Node.hasForm, Node.kind, plain]
  · exact h

end InRow

namespace Phrase

variable {σ : Type} {rules : σ → Phrase σ} {p : Phrase σ} {used : List Token} {items : List Node}

theorem stop_of_takeGlued_eq {parts : List String} {stop stop' : Nat}
    (h : takeGlued stop parts used = some (stop', [])) :
    stop' = (used.getLast?.map (·.span.stop)).getD stop := by
  induction parts generalizing stop used with
  | nil =>
    cases h
    rfl
  | cons part parts ih =>
    cases used with
    | nil => cases h
    | cons t used =>
      simp only [takeGlued] at h
      split at h
      · rw [ih h, List.getLast?_cons]
        cases used.getLast? <;> rfl
      · cases h

/-- No node is a comment. -/
def plainChecks : Checks σ where
  token kind := kind != .form .lineComment && kind != .form .blockComment
  node form _ := form != .lineComment && form != .blockComment
  field _ _ := true
  label _ := true

theorem closed_inRow (text : String) : Closed rules plainChecks fun used items =>
    (∀ t ∈ used, ∀ c ∈ t.comments, c.isComment = true) → InRow text used items where
  empty _ := .nil
  token t plain comments := by
    simp only [plainChecks, Bool.and_eq_true, bne_iff_ne] at plain
    refine .leaf (comments t List.mem_cons_self) ?_ rfl rfl
    simp [Node.isComment, Node.hasForm, Node.kind, plain]
  glued ran comments := by
    obtain ⟨part, parts, t, tail, stop, rfl, rfl, -, taken, rfl⟩ := runGlued_cases ran
    refine .leaf (comments t List.mem_cons_self) rfl rfl ?_
    rw [List.getLast?_cons, Option.map_some]
    refine congrArg some ((stop_of_takeGlued_eq taken).trans ?_)
    cases tail.getLast? <;> rfl
  append first second comments :=
    (first fun t ht => comments t (List.mem_append_left _ ht)).append
      (second fun t ht => comments t (List.mem_append_right _ ht))
  field _ _ row comments := (row comments).setField _
  label _ row comments := (row comments).setField _
  enclose plain _ before after comments := by
    simp only [plainChecks, Bool.and_eq_true, bne_iff_ne] at plain
    exact ((before fun t ht => comments t (List.mem_append_left _ ht)).append
      (after fun t ht => comments t (List.mem_append_right _ ht))).enclose plain

theorem Reads.inRow (sound : ∀ s, (rules s).passes plainChecks = true)
    (h : Reads rules p used items) (hp : p.passes plainChecks = true)
    (comments : ∀ t ∈ used, ∀ c ∈ t.comments, c.isComment = true) : InRow text used items :=
  h.closed (closed_inRow text) sound hp comments

/-! ### What stands in front of nodes -/

/-- Do nodes of the marked kinds stand only at the front of the phrase, if the first argument allows
that, or behind a token of a pattern that `hit` names? `part` says so of rules, and the rules in
`known` end in such a token. -/
def parted (hit : Pattern → Bool) (known : σ → Bool) (marked : Kind → Bool)
    (part : Bool → σ → Bool) : Bool → Phrase σ → Bool
  | _, .empty => true
  | front, .token kind _ => front || !marked kind
  | front, .glued parts => front || !marked (.token (String.join parts))
  | front, .seq a b => a.parted hit known marked part front &&
    b.parted hit known marked part (a.endsIn hit known && (front || !a.nullable))
  | front, .alt a b =>
    a.parted hit known marked part front && b.parted hit known marked part front
  | front, .many p => p.parted hit known marked part (p.endsIn hit known && front)
  | _, .absent _ => true
  | front, .field _ p => p.parted hit known marked part front
  | front, .node form _ => front || !marked (.form form)
  | front, .rule s => part front s
  | front, .fork _ steps => front || steps.all fun step => !marked (.form step.1)
  | front, .chain base steps => base.parted hit known marked part front &&
    (front || steps.all fun step => !marked (.form step.1))

/-- The rules of which this is so, as far as following rules `depth` times tells. -/
def ruleParted (rules : σ → Phrase σ) (hit : Pattern → Bool) (known : σ → Bool)
    (marked : Kind → Bool) : Nat → Bool → σ → Bool
  | 0, _, _ => false
  | depth + 1, front, s =>
    (rules s).parted hit known marked (ruleParted rules hit known marked depth) front

/-- An enclosed node starts with the first token. -/
theorem Reads.start_of_mem_enclose (solid : ∀ s, (rules s).nullable = false)
    (quiet : ∀ s, (rules s).silent = true) {form : Form}
    (h : Reads rules p used (Node.enclose form items)) (hp : p.silent = true)
    (comments : ∀ t ∈ used, ∀ c ∈ t.comments, c.isComment = true) {n : Node}
    (mem : n ∈ Node.enclose form items) (hn : n.isComment = false) :
    ∃ t, used.head? = some t ∧ n.span.start = t.span.start := by
  cases used with
  | nil =>
    rw [(h.nullable solid rfl).2] at mem
    cases mem
  | cons t tail =>
    refine ⟨t, rfl, ?_⟩
    obtain ⟨m, after, eq, hm, start⟩ := h.leads solid quiet hp rfl (comments t List.mem_cons_self)
    obtain ⟨front, single, notes⟩ := enclose_single mem hn
    have inside : m ∈ front ++ [n] := by
      rw [← single, eq]
      exact List.mem_append_right _ List.mem_cons_self
    rcases List.mem_append.1 inside with inside | inside
    · rw [notes m inside] at hm
      cases hm
    · rwa [← List.mem_singleton.1 inside]

section Parted

variable {hit : Pattern → Bool} {known : σ → Bool} {marked : Kind → Bool} {seam : Nat → Prop}

theorem front_of_marked {front : Bool} {kind : Kind} (h : (front || !marked kind) = true)
    (hm : marked kind = true) : front = true := by
  simpa [hm] using h

theorem front_of_step {front : Bool} {steps : List (Form × Option Field × Phrase σ)} {form : Form}
    {label : Option Field} (h : (front || steps.all fun step => !marked (.form step.1)) = true)
    (mem : (form, label, p) ∈ steps) (hm : marked (.form form) = true) : front = true := by
  refine (Bool.or_eq_true_iff.1 h).resolve_right fun unmarked => ?_
  simpa [hm] using List.all_eq_true.1 unmarked _ mem

/-- A token behind a part that ends in a hit, if it reads anything, stands at a seam. -/
theorem Reads.seam_behind (solid : ∀ s, (rules s).nullable = false)
    (sound : ∀ s, known s = true → (rules s).endsIn hit known = true) {a : Phrase σ}
    {us vs : List Token} {is : List Node} (h : Reads rules a us is)
    (chain : (us ++ vs).IsChain fun u v => u.Hits hit → seam v.span.start) {front : Bool}
    (start : front = true → ∀ t, (us ++ vs).head? = some t → seam t.span.start)
    (ends : a.endsIn hit known = true) (skipped : a.nullable = true → front = true) :
    ∀ t, vs.head? = some t → seam t.span.start := by
  intro t ht
  by_cases none : us = []
  · subst none
    exact start (skipped (h.nullable solid rfl).1) t ht
  · obtain ⟨u, hu, hits⟩ := h.ends solid sound ends none
    exact (List.isChain_append.1 chain).2.2 u hu t ht hits

theorem Reads.parted (solid : ∀ s, (rules s).nullable = false)
    (quiet : ∀ s, (rules s).silent = true)
    (sound : ∀ s, known s = true → (rules s).endsIn hit known = true) (h : Reads rules p used items)
    (hq : p.silent = true) {front : Bool} {depth : Nat}
    (hp : p.parted hit known marked (ruleParted rules hit known marked depth) front = true)
    (comments : ∀ t ∈ used, ∀ c ∈ t.comments, c.isComment = true)
    (chain : used.IsChain fun u v => u.Hits hit → seam v.span.start)
    (start : front = true → ∀ t, used.head? = some t → seam t.span.start) {n : Node}
    (mem : n ∈ items) (hn : n.isComment = false) (hm : marked n.kind = true) :
    seam n.span.start := by
  induction h generalizing front depth n with
  | empty => cases mem
  | @token kind pattern t accepted =>
    rcases List.mem_append.1 mem with mem | mem
    · rw [comments t List.mem_cons_self n mem] at hn
      cases hn
    · obtain rfl := List.mem_singleton.1 mem
      exact start (front_of_marked hp hm) t rfl
  | @glued parts used items ran =>
    obtain ⟨part, parts, t, tokens, stop, rfl, rfl, -, -, rfl⟩ := runGlued_cases ran
    rcases List.mem_append.1 mem with mem | mem
    · rw [comments t List.mem_cons_self n mem] at hn
      cases hn
    · obtain rfl := List.mem_singleton.1 mem
      exact start (front_of_marked hp hm) t rfl
  | @seq a b us vs is js readA readB ihA ihB =>
    simp only [Phrase.parted, silent, Bool.and_eq_true] at hp hq
    rcases List.mem_append.1 mem with mem | mem
    · refine ihA hq.1 hp.1 (fun t ht => comments t (List.mem_append_left _ ht))
        (List.isChain_append.1 chain).1 (fun atFront t ht => ?_) mem hn hm
      exact start atFront t (by rw [List.head?_append, ht, Option.some_or])
    · refine ihB hq.2 hp.2 (fun t ht => comments t (List.mem_append_right _ ht))
        (List.isChain_append.1 chain).2.1 (fun behind => ?_) mem hn hm
      simp only [Bool.and_eq_true, Bool.or_eq_true, Bool.not_eq_true'] at behind
      refine readA.seam_behind solid sound chain start behind.1 fun none => ?_
      exact behind.2.resolve_right (by simp [none])
  | first _ ih =>
    simp only [Phrase.parted, silent, Bool.and_eq_true] at hp hq
    exact ih hq.1 hp.1 comments chain start mem hn hm
  | second _ ih =>
    simp only [Phrase.parted, silent, Bool.and_eq_true] at hp hq
    exact ih hq.2 hp.2 comments chain start mem hn hm
  | done => cases mem
  | @more item us vs is js readHead _ ihHead ihTail =>
    rcases List.mem_append.1 mem with mem | mem
    · refine ihHead hq hp (fun t ht => comments t (List.mem_append_left _ ht))
        (List.isChain_append.1 chain).1 (fun behind t ht => ?_) mem hn hm
      rw [Bool.and_eq_true] at behind
      exact start behind.2 t (by rw [List.head?_append, ht, Option.some_or])
    · -- the further items stand at a seam if this one ends in a hit
      have again : (Phrase.many item).parted hit known marked
          (ruleParted rules hit known marked depth) (item.endsIn hit known && front) = true := by
        rw [Phrase.parted, ← Bool.and_assoc, Bool.and_self]
        exact hp
      refine ihTail hq again (fun t ht => comments t (List.mem_append_right _ ht))
        (List.isChain_append.1 chain).2.1 (fun behind => ?_) mem hn hm
      rw [Bool.and_eq_true] at behind
      exact readHead.seam_behind solid sound chain start behind.1 fun _ => behind.2
  | absent => cases mem
  | field _ ih =>
    obtain ⟨⟨kind, label, span, children⟩, unnamed, rfl⟩ := List.mem_map.1 mem
    have inner := ih hq hp comments chain start unnamed
    dsimp only at hn hm ⊢
    split at hn
    · rename_i comment
      rw [comment] at hn
      cases hn
    · rename_i comment
      rw [if_neg comment] at hm ⊢
      exact inner (Bool.eq_false_iff.2 comment) hm
  | @node form item us is read _ =>
    rw [(enclosed_of_mem mem hn).1] at hm
    obtain ⟨t, ht, begin⟩ := (Reads.node read).start_of_mem_enclose solid quiet hq comments mem hn
    rw [begin]
    exact start (front_of_marked hp hm) t ht
  | rule _ ih =>
    cases depth with
    | zero => cases hp
    | succ depth => exact ih (quiet _) hp comments chain start mem hn hm
  | @fork base step steps form label us vs is js read memStep next _ _ =>
    rw [(enclosed_of_mem mem hn).1] at hm
    obtain ⟨t, ht, begin⟩ :=
      (Reads.fork read memStep next).start_of_mem_enclose solid quiet hq comments mem hn
    rw [begin]
    exact start (front_of_step hp memStep hm) t ht
  | base _ ih =>
    simp only [Phrase.parted, silent, Bool.and_eq_true] at hp hq
    exact ih hq.1 hp.1 comments chain start mem hn hm
  | @grown base step steps form label us vs is js read memStep next _ _ =>
    rw [(enclosed_of_mem mem hn).1] at hm
    obtain ⟨t, ht, begin⟩ :=
      (Reads.grown read memStep next).start_of_mem_enclose solid quiet hq comments mem hn
    rw [begin]
    exact start (front_of_step (Bool.and_eq_true_iff.1 hp).2 memStep hm) t ht

end Parted

end Phrase

end JakartaCheck.Java
