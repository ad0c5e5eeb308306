import JakartaCheck.Proofs.GrammarReadings

/-!
# The same source at another place

Runs on related tokens are related (`Transport.run_matches`). Two relations are of use: all tokens
moved by the same distance, and the comments in front of the first token taken away. A run also
builds no node that reaches beyond its tokens (`Reads.within`).
-/

namespace JakartaCheck

/-- The span at a distance. -/
def Span.shift (δ : Nat) (s : Span) : Span := ⟨s.start + δ, s.stop + δ⟩

namespace Java

/-! ### Nodes with other spans -/

namespace Node

mutual

/-- The node with every span in it replaced. -/
def relocate (g : Span → Span) : Node → Node
  | mk kind field span children => mk kind field (g span) (relocateAll g children)

def relocateAll (g : Span → Span) : List Node → List Node
  | [] => []
  | n :: ns => n.relocate g :: relocateAll g ns

end

theorem relocateAll_eq_map (g : Span → Span) (ns : List Node) :
    relocateAll g ns = ns.map (relocate g) := by
  induction ns with
  | nil => rfl
  | cons n ns ih => rw [relocateAll, ih, List.map_cons]

variable {g g' : Span → Span}

theorem relocate_mk (kind : Kind) (field : Option Field) (span : Span) (children : List Node) :
    (mk kind field span children).relocate g =
      mk kind field (g span) (children.map (relocate g)) := by
  rw [relocate, relocateAll_eq_map]

@[simp] theorem kind_relocate (n : Node) : (n.relocate g).kind = n.kind := by cases n; rfl

@[simp] theorem field_relocate (n : Node) : (n.relocate g).field = n.field := by cases n; rfl

@[simp] theorem span_relocate (n : Node) : (n.relocate g).span = g n.span := by cases n; rfl

@[simp] theorem children_relocate (n : Node) :
    (n.relocate g).children = n.children.map (relocate g) := by
  cases n
  rw [relocate_mk]
  rfl

@[simp] theorem hasForm_relocate (n : Node) (f : Form) : (n.relocate g).hasForm f = n.hasForm f := by
  rw [hasForm, kind_relocate, hasForm]

@[simp] theorem isComment_relocate (n : Node) : (n.relocate g).isComment = n.isComment := by
  simp only [isComment, hasForm_relocate]

theorem preorderAll_eq_flatMap (ns : List Node) : preorderAll ns = ns.flatMap preorder := by
  induction ns with
  | nil => rfl
  | cons n ns ih => rw [preorderAll, ih, List.flatMap_cons]

theorem preorder_mk (kind : Kind) (field : Option Field) (span : Span) (children : List Node) :
    (mk kind field span children).preorder =
      mk kind field span children :: children.flatMap preorder := by
  rw [preorder, preorderAll_eq_flatMap]

/-- Do the spans of the node and of everything in it satisfy `Q`? -/
def Within (Q : Span → Prop) (n : Node) : Prop := ∀ m ∈ n.preorder, Q m.span

theorem within_mk {Q : Span → Prop} {kind : Kind} {field : Option Field} {span : Span}
    {children : List Node} :
    (mk kind field span children).Within Q ↔ Q span ∧ ∀ c ∈ children, c.Within Q := by
  simp only [Within, preorder_mk, List.mem_cons, List.mem_flatMap]
  constructor
  · intro h
    exact ⟨h _ (.inl rfl), fun c hc m hm => h m (.inr ⟨c, hc, hm⟩)⟩
  · rintro ⟨hspan, hchildren⟩ m (rfl | ⟨c, hc, hm⟩)
    · exact hspan
    · exact hchildren c hc m hm

theorem Within.span {Q : Span → Prop} {n : Node} (h : n.Within Q) : Q n.span := by
  cases n
  exact (within_mk.1 h).1

theorem Within.child {Q : Span → Prop} {n c : Node} (h : n.Within Q) (hc : c ∈ n.children) :
    c.Within Q := by
  cases n
  exact (within_mk.1 h).2 c hc

theorem Within.imp {P Q : Span → Prop} (hpq : ∀ s, P s → Q s) {n : Node} (h : n.Within P) :
    n.Within Q :=
  fun m hm => hpq _ (h m hm)

mutual

theorem relocate_congr : ∀ n : Node, n.Within (fun s => g s = g' s) → n.relocate g = n.relocate g'
  | mk kind field span children, h => by
    rw [relocate, relocate, (within_mk.1 h).1, relocateAll_congr children (within_mk.1 h).2]

theorem relocateAll_congr : ∀ ns : List Node, (∀ n ∈ ns, n.Within fun s => g s = g' s) →
    relocateAll g ns = relocateAll g' ns
  | [], _ => rfl
  | n :: ns, h => by
    rw [relocateAll, relocateAll, relocate_congr n (h n List.mem_cons_self),
      relocateAll_congr ns fun m hm => h m (List.mem_cons_of_mem _ hm)]

end

mutual

theorem relocate_id : ∀ n : Node, n.Within (fun s => g s = s) → n.relocate g = n
  | mk kind field span children, h => by
    rw [relocate, (within_mk.1 h).1, relocateAll_id children (within_mk.1 h).2]

theorem relocateAll_id : ∀ ns : List Node, (∀ n ∈ ns, n.Within fun s => g s = s) →
    relocateAll g ns = ns
  | [], _ => rfl
  | n :: ns, h => by
    rw [relocateAll, relocate_id n (h n List.mem_cons_self),
      relocateAll_id ns fun m hm => h m (List.mem_cons_of_mem _ hm)]

end

theorem setField_relocate (label : Field) (items : List Node) :
    setField label (items.map (relocate g)) = (setField label items).map (relocate g) := by
  simp only [setField, List.map_map]
  apply List.map_congr_left
  intro n _
  cases n with
  | mk kind field span children =>
    simp only [Function.comp_apply, relocate_mk]
    have same : (mk kind field (g span) (children.map (relocate g))).isComment =
        (mk kind field span children).isComment := rfl
    rw [same]
    split <;> rw [relocate_mk]

/-- A replacement that acts on the ends of a span independently can be applied before or after
nodes are built. -/
theorem enclose_relocate (join : ∀ a b : Span, g ⟨a.start, b.stop⟩ = ⟨(g a).start, (g b).stop⟩)
    (form : Form) (items : List Node) :
    enclose form (items.map (relocate g)) = (enclose form items).map (relocate g) := by
  have comments : isComment ∘ relocate g = isComment := funext isComment_relocate
  simp only [enclose, List.dropWhile_map, List.takeWhile_map, comments, List.head?_map,
    List.getLast?_map]
  cases (items.dropWhile isComment).head? with
  | none => rfl
  | some first =>
    cases (items.dropWhile isComment).getLast? with
    | none => rfl
    | some last =>
      simp only [Option.map_some, List.map_append, List.map_cons, List.map_nil, relocate_mk,
        span_relocate]
      rw [join first.span last.span]

end Node

/-- The token with the spans of it and of its comments replaced. -/
def Token.relocate (g : Span → Span) (t : Token) : Token :=
  ⟨t.comments.map (Node.relocate g), t.shape, g t.span⟩

namespace Phrase

variable {σ : Type} {rules : σ → Phrase σ}

/-! ### Related runs -/

/-- Relations between two lists of tokens at which runs stand, and between the items that the two
runs have read from one such place to another. -/
structure Transport (At : List Token → List Token → Prop)
    (Read : List Token → List Token → List Node → List Node → Prop) : Prop where
  /-- Nothing is read. -/
  nil : ∀ {ts ts'}, At ts ts' → Read ts ts [] []
  /-- One token is read. -/
  token : ∀ {ts ts'}, At ts ts' →
    ts = [] ∧ ts' = [] ∨
    ∃ t t' rest rest', ts = t :: rest ∧ ts' = t' :: rest' ∧ t.shape = t'.shape ∧ At rest rest' ∧
      ∀ kind, Read ts rest (t.comments ++ [.mk kind none t.span []])
        (t'.comments ++ [.mk kind none t'.span []])
  /-- Tokens with nothing between them are read. -/
  glued : ∀ {ts ts'} parts, At ts ts' →
    runGlued parts ts = none ∧ runGlued parts ts' = none ∨
    ∃ items items' rest rest', runGlued parts ts = some (items, rest) ∧
      runGlued parts ts' = some (items', rest') ∧ At rest rest' ∧ Read ts rest items items'
  append : ∀ {ts mid rest items items' more more'}, Read ts mid items items' →
    Read mid rest more more' → Read ts rest (items ++ more) (items' ++ more')
  setField : ∀ {ts rest items items'} label, Read ts rest items items' →
    Read ts rest (Node.setField label items) (Node.setField label items')
  enclose : ∀ {ts rest items items'} form, Read ts rest items items' →
    Read ts rest (Node.enclose form items) (Node.enclose form items')

namespace Transport

variable {At : List Token → List Token → Prop}
  {Read : List Token → List Token → List Node → List Node → Prop}

/-- Two results that fail together or lead to related places. -/
def Matches (At : List Token → List Token → Prop)
    (Read : List Token → List Token → List Node → List Node → Prop) (start : List Token)
    (r r' : Option (List Node × List Token)) : Prop :=
  r = none ∧ r' = none ∨
  ∃ items items' rest rest', r = some (items, rest) ∧ r' = some (items', rest') ∧ At rest rest' ∧
    Read start rest items items'

theorem named (h : Transport At Read) {ts rest : List Token} {items items' : List Node}
    (label : Option Field) (read : Read ts rest items items') :
    Read ts rest (Phrase.named label items) (Phrase.named label items') := by
  cases label with
  | none => exact read
  | some label => exact h.setField label read

/-- Runs at related places give related results. -/
theorem run_matches (h : Transport At Read) (fuel : Nat) :
    (∀ p ts ts', At ts ts' →
      Matches At Read ts (run rules fuel p ts) (run rules fuel p ts')) ∧
    (∀ steps start items items' ts ts', At ts ts' → Read start ts items items' →
      Matches At Read start (runStep rules fuel steps items ts)
        (runStep rules fuel steps items' ts')) ∧
    (∀ steps start items items' ts ts', At ts ts' → Read start ts items items' →
      Matches At Read start (grow rules fuel steps items ts)
        (grow rules fuel steps items' ts')) := by
  induction fuel with
  | zero =>
    exact ⟨fun _ _ _ _ => .inl ⟨rfl, rfl⟩, fun _ _ _ _ _ _ _ _ => .inl (by simp [runStep]),
      fun _ _ _ _ _ _ _ _ => .inl ⟨rfl, rfl⟩⟩
  | succ fuel ih =>
    obtain ⟨ihRun, ihStep, ihGrow⟩ := ih
    refine ⟨fun p ts ts' at' => ?_, fun steps start items items' ts ts' at' read => ?_,
      fun steps start items items' ts ts' at' read => ?_⟩
    · cases p with
      | empty => exact .inr ⟨[], [], ts, ts', rfl, rfl, at', h.nil at'⟩
      | token kind pattern =>
        rcases h.token at' with ⟨rfl, rfl⟩ | ⟨t, t', rest, rest', rfl, rfl, shape, at', read⟩
        · exact .inl ⟨rfl, rfl⟩
        · simp only [run, ← shape]
          split
          · exact .inr ⟨_, _, rest, rest', rfl, rfl, at', read kind⟩
          · exact .inl ⟨rfl, rfl⟩
      | glued parts => exact h.glued parts at'
      | seq a b =>
        simp only [run]
        rcases ihRun a ts ts' at' with ⟨e, e'⟩ | ⟨is, is', mid, mid', e, e', at₁, read₁⟩
        · exact .inl (by simp [e, e'])
        · rcases ihRun b mid mid' at₁ with ⟨f, f'⟩ | ⟨js, js', rest, rest', f, f', at₂, read₂⟩
          · exact .inl (by simp [e, e', f, f'])
          · exact .inr ⟨is ++ js, is' ++ js', rest, rest', by simp [e, f], by simp [e', f'], at₂,
              h.append read₁ read₂⟩
      | alt a b =>
        simp only [run]
        rcases ihRun a ts ts' at' with ⟨e, e'⟩ | ⟨is, is', rest, rest', e, e', at₁, read₁⟩
        · simp only [e, e']
          exact ihRun b ts ts' at'
        · exact .inr ⟨is, is', rest, rest', by simp [e], by simp [e'], at₁, read₁⟩
      | many item =>
        simp only [run]
        rcases ihRun item ts ts' at' with ⟨e, e'⟩ | ⟨is, is', mid, mid', e, e', at₁, read₁⟩
        · exact .inr ⟨[], [], ts, ts', by simp [e], by simp [e'], at', h.nil at'⟩
        · rcases ihRun (.many item) mid mid' at₁ with
            ⟨f, f'⟩ | ⟨js, js', rest, rest', f, f', at₂, read₂⟩
          · exact .inl (by simp [e, e', f, f'])
          · exact .inr ⟨is ++ js, is' ++ js', rest, rest', by simp [e, f], by simp [e', f'], at₂,
              h.append read₁ read₂⟩
      | absent item =>
        simp only [run]
        rcases ihRun item ts ts' at' with ⟨e, e'⟩ | ⟨is, is', rest, rest', e, e', -, -⟩
        · exact .inr ⟨[], [], ts, ts', by simp [e], by simp [e'], at', h.nil at'⟩
        · exact .inl (by simp [e, e'])
      | field label item =>
        simp only [run]
        rcases ihRun item ts ts' at' with ⟨e, e'⟩ | ⟨is, is', rest, rest', e, e', at₁, read₁⟩
        · exact .inl (by simp [e, e'])
        · exact .inr ⟨_, _, rest, rest', by simp only [e], by simp only [e'], at₁,
            h.setField label read₁⟩
      | node form item =>
        simp only [run]
        rcases ihRun item ts ts' at' with ⟨e, e'⟩ | ⟨is, is', rest, rest', e, e', at₁, read₁⟩
        · exact .inl (by simp [e, e'])
        · exact .inr ⟨_, _, rest, rest', by simp only [e], by simp only [e'], at₁,
            h.enclose form read₁⟩
      | rule s => exact ihRun (rules s) ts ts' at'
      | fork base steps =>
        simp only [run]
        rcases ihRun base ts ts' at' with ⟨e, e'⟩ | ⟨is, is', mid, mid', e, e', at₁, read₁⟩
        · exact .inl (by simp [e, e'])
        · simp only [e, e']
          exact ihStep steps ts is is' mid mid' at₁ read₁
      | chain base steps =>
        simp only [run]
        rcases ihRun base ts ts' at' with ⟨e, e'⟩ | ⟨is, is', mid, mid', e, e', at₁, read₁⟩
        · exact .inl (by simp [e, e'])
        · simp only [e, e']
          exact ihGrow steps ts is is' mid mid' at₁ read₁
    · cases steps with
      | nil => exact .inl (by simp [runStep])
      | cons step steps =>
        obtain ⟨form, label, step⟩ := step
        simp only [runStep]
        rcases ihRun step ts ts' at' with ⟨e, e'⟩ | ⟨js, js', rest, rest', e, e', at₁, read₁⟩
        · simp only [e, e']
          exact ihStep steps start items items' ts ts' at' read
        · exact .inr ⟨_, _, rest, rest', by simp only [e], by simp only [e'], at₁,
            h.enclose form (h.append (h.named label read) read₁)⟩
    · simp only [grow]
      rcases ihStep steps start items items' ts ts' at' read with
        ⟨e, e'⟩ | ⟨out, out', rest, rest', e, e', at₁, read₁⟩
      · exact .inr ⟨items, items', ts, ts', by simp [e], by simp [e'], at', read⟩
      · simp only [e, e']
        exact ihGrow steps start out out' rest rest' at₁ read₁

end Transport

/-! ### A source at a distance -/

theorem takeGlued_shift (δ stop : Nat) (parts : List String) (ts : List Token) :
    takeGlued (stop + δ) parts (ts.map (Token.relocate (Span.shift δ))) =
      (takeGlued stop parts ts).map fun (stop, rest) =>
        (stop + δ, rest.map (Token.relocate (Span.shift δ))) := by
  induction parts generalizing stop ts with
  | nil => rfl
  | cons part parts ih =>
    cases ts with
    | nil => rfl
    | cons t ts =>
      have same : ((Pattern.text part).accepts (t.relocate (Span.shift δ)).shape &&
          (t.relocate (Span.shift δ)).comments.isEmpty &&
          (t.relocate (Span.shift δ)).span.start == stop + δ) =
          ((Pattern.text part).accepts t.shape && t.comments.isEmpty && t.span.start == stop) := by
        simp [Token.relocate, Span.shift, Bool.beq_eq_decide_eq]
      simp only [List.map_cons, takeGlued, same]
      split
      · exact ih t.span.stop ts
      · rfl

theorem runGlued_shift (δ : Nat) (parts : List String) (ts : List Token) :
    runGlued parts (ts.map (Token.relocate (Span.shift δ))) =
      (runGlued parts ts).map fun (items, rest) =>
        (items.map (Node.relocate (Span.shift δ)),
          rest.map (Token.relocate (Span.shift δ))) := by
  match parts, ts with
  | [], _ => simp [runGlued]
  | _ :: _, [] => rfl
  | part :: parts, t :: ts =>
    simp only [List.map_cons, runGlued]
    have taken := takeGlued_shift δ t.span.stop parts ts
    split
    · rename_i accepted
      have accepted' : (Pattern.text part).accepts t.shape := accepted
      rw [if_pos accepted']
      change Option.map _ (takeGlued (t.span.stop + δ) _ _) = _
      rw [taken]
      cases takeGlued t.span.stop parts ts with
      | none => rfl
      | some result =>
        simp [Token.relocate, Node.relocate_mk, Span.shift]
    · rename_i accepted
      have accepted' : ¬(Pattern.text part).accepts t.shape := accepted
      rw [if_neg accepted']
      rfl

theorem transport_shift (δ : Nat) :
    Transport (fun ts ts' => ts' = ts.map (Token.relocate (Span.shift δ)))
      (fun _ _ items items' => items' = items.map (Node.relocate (Span.shift δ))) where
  nil _ := rfl
  token {ts ts'} at' := by
    subst at'
    cases ts with
    | nil => exact .inl ⟨rfl, rfl⟩
    | cons t ts =>
      refine .inr ⟨t, t.relocate (Span.shift δ), ts, _, rfl, rfl, rfl, rfl, fun kind => ?_⟩
      simp [Token.relocate, Node.relocate_mk]
  glued {ts ts'} parts at' := by
    subst at'
    rw [runGlued_shift]
    cases runGlued parts ts with
    | none => exact .inl ⟨rfl, rfl⟩
    | some result => exact .inr ⟨_, _, _, _, rfl, rfl, rfl, rfl⟩
  append {_ _ _ _ _ _ _} h h' := by rw [h, h', List.map_append]
  setField {_ _ _ _} label h := by rw [h, Node.setField_relocate]
  enclose {_ _ _ _} form h := by rw [h, Node.enclose_relocate fun _ _ => rfl]

/-- A run at a distance reads the same at that distance. -/
theorem run_shift (δ fuel : Nat) {p : Phrase σ} {ts rest : List Token} {items : List Node}
    (ran : run rules fuel p ts = some (items, rest)) :
    run rules fuel p (ts.map (Token.relocate (Span.shift δ))) =
      some (items.map (Node.relocate (Span.shift δ)),
        rest.map (Token.relocate (Span.shift δ))) := by
  rcases ((transport_shift δ).run_matches fuel).1 p ts _ rfl with
    ⟨e, -⟩ | ⟨is, is', rest₁, rest₁', e, e', at₁, read₁⟩
  · rw [ran] at e
    cases e
  · rw [ran] at e
    cases e
    rw [e', at₁, read₁]

/-! ### Comments in front -/

theorem setField_comments {comments : List Node} (h : ∀ c ∈ comments, c.isComment = true)
    (label : Field) (items : List Node) :
    Node.setField label (comments ++ items) = comments ++ Node.setField label items := by
  simp only [Node.setField, List.map_append]
  congr 1
  apply (List.map_congr_left _).trans (List.map_id comments)
  intro c hc
  cases c
  simp only [h _ hc, if_true, id]

theorem enclose_comments {comments : List Node} (h : ∀ c ∈ comments, c.isComment = true)
    (form : Form) (items : List Node) :
    Node.enclose form (comments ++ items) = comments ++ Node.enclose form items := by
  simp only [Node.enclose, List.dropWhile_append_of_pos h, List.takeWhile_append_of_pos h]
  cases (items.dropWhile Node.isComment).head? with
  | none => rfl
  | some first =>
    cases (items.dropWhile Node.isComment).getLast? with
    | none => rfl
    | some last => exact List.append_assoc _ _ _

/-- The comments in front of the first token only stand in front of what is read. -/
theorem transport_comments {t : Token} (comments : ∀ c ∈ t.comments, c.isComment = true)
    (tail : List Token) :
    -- the first token has been read as soon as no more than `tail` is left
    Transport
      (fun ts ts' => ts = t :: tail ∧ ts' = { t with comments := [] } :: tail ∨
        ts = ts' ∧ ts.length ≤ tail.length)
      (fun ts rest items items' =>
        tail.length < ts.length ∧ tail.length < rest.length ∧ items = [] ∧ items' = [] ∨
        rest.length ≤ tail.length ∧
          items = (if tail.length < ts.length then t.comments else []) ++ items') where
  nil {ts ts'} at' := by
    rcases at' with ⟨rfl, rfl⟩ | ⟨rfl, short⟩
    · exact .inl ⟨by simp, by simp, rfl, rfl⟩
    · exact .inr ⟨short, by rw [if_neg (by omega)]; rfl⟩
  token {ts ts'} at' := by
    rcases at' with ⟨rfl, rfl⟩ | ⟨rfl, short⟩
    · refine .inr ⟨t, { t with comments := [] }, tail, tail, rfl, rfl, rfl,
        .inr ⟨rfl, Nat.le_refl _⟩, fun kind => .inr ⟨Nat.le_refl _, ?_⟩⟩
      rw [if_pos (by simp)]
      rfl
    · cases ts with
      | nil => exact .inl ⟨rfl, rfl⟩
      | cons u ts =>
        have shorter : ts.length ≤ tail.length := by
          rw [List.length_cons] at short
          omega
        refine .inr ⟨u, u, ts, ts, rfl, rfl, rfl, .inr ⟨rfl, shorter⟩,
          fun kind => .inr ⟨shorter, ?_⟩⟩
        rw [if_neg (by omega)]
        rfl
  glued {ts ts'} parts at' := by
    rcases at' with ⟨rfl, rfl⟩ | ⟨rfl, short⟩
    · cases parts with
      | nil => exact .inl ⟨rfl, rfl⟩
      | cons part parts =>
        simp only [runGlued]
        split
        · cases taken : takeGlued t.span.stop parts tail with
          | none => exact .inl ⟨rfl, rfl⟩
          | some result =>
            obtain ⟨stop, rest⟩ := result
            obtain ⟨used, eq, -⟩ := takeGlued_append taken
            have shorter : rest.length ≤ tail.length := by
              rw [eq, List.length_append]
              omega
            refine .inr ⟨_, _, rest, rest, rfl, rfl, .inr ⟨rfl, shorter⟩, .inr ⟨shorter, ?_⟩⟩
            rw [if_pos (by simp)]
            rfl
        · exact .inl ⟨rfl, rfl⟩
    · cases ran : runGlued parts ts with
      | none => exact .inl ⟨rfl, rfl⟩
      | some result =>
        obtain ⟨items, rest⟩ := result
        obtain ⟨used, eq, -⟩ := runGlued_append ran
        have shorter : rest.length ≤ tail.length := by
          rw [eq, List.length_append] at short
          omega
        refine .inr ⟨items, items, rest, rest, rfl, rfl, .inr ⟨rfl, shorter⟩, .inr ⟨shorter, ?_⟩⟩
        rw [if_neg (by omega)]
        rfl
  append {ts mid rest items items' more more'} h h' := by
    rcases h with ⟨long, longMid, rfl, rfl⟩ | ⟨shortMid, rfl⟩
    · rcases h' with ⟨-, longRest, rfl, rfl⟩ | ⟨shortRest, rfl⟩
      · exact .inl ⟨long, longRest, rfl, rfl⟩
      · exact .inr ⟨shortRest, by rw [if_pos long, if_pos longMid]; rfl⟩
    · rcases h' with ⟨longMid, -⟩ | ⟨shortRest, rfl⟩
      · omega
      · refine .inr ⟨shortRest, ?_⟩
        rw [if_neg (by omega : ¬tail.length < mid.length), List.nil_append, List.append_assoc]
  setField {ts rest items items'} label h := by
    rcases h with ⟨long, longRest, rfl, rfl⟩ | ⟨shortRest, rfl⟩
    · exact .inl ⟨long, longRest, rfl, rfl⟩
    · refine .inr ⟨shortRest, ?_⟩
      split
      · exact setField_comments comments label items'
      · rfl
  enclose {ts rest items items'} form h := by
    rcases h with ⟨long, longRest, rfl, rfl⟩ | ⟨shortRest, rfl⟩
    · exact .inl ⟨long, longRest, rfl, rfl⟩
    · refine .inr ⟨shortRest, ?_⟩
      split
      · exact enclose_comments comments form items'
      · rfl

/-- A run that reads a token does so without the comments in front of it, and then reads all but
these. -/
theorem run_without_comments {t : Token} (comments : ∀ c ∈ t.comments, c.isComment = true)
    {fuel : Nat} {p : Phrase σ} {tail rest : List Token} {items : List Node}
    (ran : run rules fuel p (t :: tail) = some (items, rest)) (read : rest.length ≤ tail.length) :
    ∃ items', items = t.comments ++ items' ∧
      run rules fuel p ({ t with comments := [] } :: tail) = some (items', rest) := by
  rcases ((transport_comments comments tail).run_matches fuel).1 p _ _ (.inl ⟨rfl, rfl⟩) with
    ⟨e, -⟩ | ⟨is, is', rest₁, rest₁', e, e', at₁, read₁⟩
  · rw [ran] at e
    cases e
  · rw [ran] at e
    cases e
    rcases at₁ with ⟨rfl, -⟩ | ⟨rfl, -⟩
    · exact absurd read (Nat.not_succ_le_self _)
    · rcases read₁ with ⟨-, long, -⟩ | ⟨-, eq⟩
      · omega
      · rw [if_pos (by simp)] at eq
        exact ⟨is', eq, e'⟩

/-! ### First nodes -/

mutual

/-- Is no node that the phrase builds a comment? -/
def silent : Phrase σ → Bool
  | .empty => true
  | .token kind _ => kind != .form .lineComment && kind != .form .blockComment
  | .glued _ => true
  | .seq a b => a.silent && b.silent
  | .alt a b => a.silent && b.silent
  | .many p => p.silent
  | .absent p => p.silent
  | .field _ p => p.silent
  | .node form p => form != .lineComment && form != .blockComment && p.silent
  | .rule _ => true
  | .fork base steps => base.silent && silentAll steps
  | .chain base steps => base.silent && silentAll steps

def silentAll : List (Form × Option Field × Phrase σ) → Bool
  | [] => true
  | (form, _, p) :: steps =>
    form != .lineComment && form != .blockComment && p.silent && silentAll steps

end

theorem silentAll_of_mem {form : Form} {label : Option Field} {p : Phrase σ}
    {steps : List (Form × Option Field × Phrase σ)} (mem : (form, label, p) ∈ steps)
    (h : silentAll steps) : form ≠ .lineComment ∧ form ≠ .blockComment ∧ p.silent = true := by
  induction steps with
  | nil => cases mem
  | cons step steps ih =>
    rcases List.mem_cons.1 mem with rfl | mem
    · simp only [silentAll, Bool.and_eq_true, bne_iff_ne] at h
      exact ⟨h.1.1.1, h.1.1.2, h.1.2⟩
    · simp only [silentAll, Bool.and_eq_true] at h
      exact ih mem h.2

/-- The items start with the comments of a token and then a node that starts where it does. -/
def Leads (t : Token) (items : List Node) : Prop :=
  ∃ n after, items = t.comments ++ n :: after ∧ n.isComment = false ∧ n.span.start = t.span.start

theorem Leads.append {t : Token} {items : List Node} (h : Leads t items) (more : List Node) :
    Leads t (items ++ more) := by
  obtain ⟨n, after, rfl, comment, start⟩ := h
  exact ⟨n, after ++ more, by simp, comment, start⟩

/-- The first of two parts that is not empty decides how they start. -/
theorem Leads.of_append {t : Token} {us vs tail : List Token} {is js : List Node}
    (start : us ++ vs = t :: tail) (empty : us = [] → is = [])
    (first : ∀ tail, us = t :: tail → Leads t is) (second : ∀ tail, vs = t :: tail → Leads t js) :
    Leads t (is ++ js) := by
  cases us with
  | nil =>
    rw [empty rfl]
    exact second tail start
  | cons u us =>
    cases start
    exact (first us rfl).append js

theorem Leads.setField {t : Token} {items : List Node} (h : Leads t items)
    (comments : ∀ c ∈ t.comments, c.isComment = true) (label : Field) :
    Leads t (Node.setField label items) := by
  obtain ⟨⟨kind, field, span, children⟩, after, rfl, comment, start⟩ := h
  refine ⟨.mk kind (some label) span children, Node.setField label after, ?_, comment, start⟩
  rw [setField_comments comments]
  simp [Node.setField, comment]

theorem named_nil (label : Option Field) : named label [] = [] := by
  cases label <;> rfl

theorem Leads.named {t : Token} {items : List Node} (h : Leads t items)
    (comments : ∀ c ∈ t.comments, c.isComment = true) (label : Option Field) :
    Leads t (named label items) := by
  cases label with
  | none => exact h
  | some label => exact h.setField comments label

theorem Leads.enclose_eq {t : Token} {items : List Node} (h : Leads t items)
    (comments : ∀ c ∈ t.comments, c.isComment = true) (form : Form) :
    ∃ children last, items = t.comments ++ children ∧ children.getLast? = some last ∧
      Node.enclose form items =
        t.comments ++ [.mk (.form form) none ⟨t.span.start, last.span.stop⟩ children] := by
  obtain ⟨n, after, rfl, comment, start⟩ := h
  obtain ⟨last, hl⟩ : ∃ last, (n :: after).getLast? = some last :=
    ⟨_, List.getLast?_eq_some_getLast (List.cons_ne_nil _ _)⟩
  have drop : (n :: after).dropWhile Node.isComment = n :: after := by
    rw [List.dropWhile_cons, if_neg (by simp [comment])]
  refine ⟨n :: after, last, rfl, hl, ?_⟩
  rw [enclose_comments comments, ← start]
  simp only [Node.enclose, drop, List.head?_cons, hl, List.takeWhile_cons, comment,
    Bool.false_eq_true, if_false, List.nil_append]

theorem Leads.enclose {t : Token} {items : List Node} (h : Leads t items)
    (comments : ∀ c ∈ t.comments, c.isComment = true) {form : Form}
    (line : form ≠ .lineComment) (block : form ≠ .blockComment) :
    Leads t (Node.enclose form items) := by
  obtain ⟨children, last, -, -, eq⟩ := h.enclose_eq comments form
  refine ⟨_, [], eq, ?_, rfl⟩
  simp [Node.isComment, Node.hasForm, Node.kind, line, block]

/-- What a phrase reads starts where its first token does. -/
theorem Reads.leads (solid : ∀ s, (rules s).nullable = false)
    (quiet : ∀ s, (rules s).silent = true) {p : Phrase σ} {used tail : List Token}
    {items : List Node} {t : Token} (h : Reads rules p used items) (hp : p.silent = true)
    (start : used = t :: tail) (comments : ∀ c ∈ t.comments, c.isComment = true) :
    Leads t items := by
  induction h generalizing tail with
  | empty => cases start
  | @token kind pattern u accepted =>
    cases start
    simp only [silent, Bool.and_eq_true, bne_iff_ne] at hp
    refine ⟨_, [], rfl, ?_, rfl⟩
    simp [Node.isComment, Node.hasForm, Node.kind, hp.1, hp.2]
  | @glued parts used items ran =>
    obtain ⟨part, parts, u, tokens, stop, rfl, rfl, -, -, rfl⟩ := runGlued_cases ran
    cases start
    exact ⟨_, [], rfl, rfl, rfl⟩
  | @seq a b us vs is js readA _ ihA ihB =>
    simp only [silent, Bool.and_eq_true] at hp
    exact .of_append start (fun none => (readA.nullable solid none).2) (fun _ => ihA hp.1)
      fun _ => ihB hp.2
  | first _ ih =>
    simp only [silent, Bool.and_eq_true] at hp
    exact ih hp.1 start
  | second _ ih =>
    simp only [silent, Bool.and_eq_true] at hp
    exact ih hp.2 start
  | done => cases start
  | more readHead _ ihHead ihTail =>
    exact .of_append start (fun none => (readHead.nullable solid none).2) (fun _ => ihHead hp)
      fun _ => ihTail hp
  | absent => cases start
  | field _ ih => exact (ih hp start).setField comments _
  | node _ ih =>
    simp only [silent, Bool.and_eq_true, bne_iff_ne] at hp
    exact (ih hp.2 start).enclose comments hp.1.1 hp.1.2
  | @rule s _ _ _ ih => exact ih (quiet s) start
  | @fork base step steps form label us vs is js readBase mem _ ihBase ihStep =>
    simp only [silent, Bool.and_eq_true] at hp
    obtain ⟨line, block, hStep⟩ := silentAll_of_mem mem hp.2
    refine (Leads.of_append start (fun none => ?_)
      (fun _ start => (ihBase hp.1 start).named comments label) fun _ => ihStep hStep).enclose
      comments line block
    rw [(readBase.nullable solid none).2, named_nil]
  | base _ ih =>
    simp only [silent, Bool.and_eq_true] at hp
    exact ih hp.1 start
  | @grown base step steps form label us vs is js readChain mem _ ihChain ihStep =>
    have hSteps := hp
    simp only [silent, Bool.and_eq_true] at hSteps
    obtain ⟨line, block, hStep⟩ := silentAll_of_mem mem hSteps.2
    refine (Leads.of_append start (fun none => ?_)
      (fun _ start => (ihChain hp start).named comments label) fun _ => ihStep hStep).enclose
      comments line block
    rw [(readChain.nullable solid none).2, named_nil]

/-! ### Nodes inside their tokens -/

theorem stop_of_takeGlued {Q : Span → Prop} {first : Span} (hq : Q first)
    (join : ∀ a b, Q a → Q b → Q ⟨a.start, b.stop⟩) {stop : Nat} (hs : Q ⟨first.start, stop⟩)
    {parts : List String} {used rest : List Token} {stop' : Nat} (hu : ∀ t ∈ used, Q t.span)
    (h : takeGlued stop parts used = some (stop', rest)) : Q ⟨first.start, stop'⟩ := by
  induction parts generalizing stop used with
  | nil =>
    cases h
    exact hs
  | cons part parts ih =>
    cases used with
    | nil => cases h
    | cons t used =>
      simp only [takeGlued] at h
      split at h
      · exact ih (join _ _ hq (hu t List.mem_cons_self))
          (fun u hm => hu u (List.mem_cons_of_mem _ hm)) h
      · cases h

theorem within_setField {Q : Span → Prop} {label : Field} {items : List Node}
    (h : ∀ n ∈ items, n.Within Q) : ∀ n ∈ Node.setField label items, n.Within Q := by
  intro n hn
  obtain ⟨⟨kind, field, span, children⟩, mem, rfl⟩ := List.mem_map.1 hn
  have := Node.within_mk.1 (h _ mem)
  dsimp only
  split
  · exact h _ mem
  · exact Node.within_mk.2 this

theorem within_named {Q : Span → Prop} {label : Option Field} {items : List Node}
    (h : ∀ n ∈ items, n.Within Q) : ∀ n ∈ named label items, n.Within Q := by
  cases label with
  | none => exact h
  | some label => exact within_setField h

theorem within_enclose {Q : Span → Prop} (join : ∀ a b, Q a → Q b → Q ⟨a.start, b.stop⟩)
    {form : Form} {items : List Node} (h : ∀ n ∈ items, n.Within Q) :
    ∀ n ∈ Node.enclose form items, n.Within Q := by
  intro n hn
  simp only [Node.enclose] at hn
  split at hn
  · rename_i first last hfirst hlast
    have body : ∀ m ∈ items.dropWhile Node.isComment, m.Within Q := fun m hm =>
      h m ((List.dropWhile_sublist _).subset hm)
    rcases List.mem_append.1 hn with hn | hn
    · exact h n ((List.takeWhile_sublist _).subset hn)
    · rw [List.mem_singleton.1 hn]
      exact Node.within_mk.2 ⟨join _ _ (body first (List.mem_of_head? hfirst)).span
        (body last (List.mem_of_getLast? hlast)).span, body⟩
  · exact h n hn

theorem within_step {Q : Span → Prop} (join : ∀ a b, Q a → Q b → Q ⟨a.start, b.stop⟩)
    {form : Form} {label : Option Field} {items more : List Node}
    (h : ∀ n ∈ items, n.Within Q) (h' : ∀ n ∈ more, n.Within Q) :
    ∀ n ∈ Node.enclose form (named label items ++ more), n.Within Q := by
  apply within_enclose join
  intro n hn
  rcases List.mem_append.1 hn with hn | hn
  · exact within_named h n hn
  · exact h' n hn

/-- The nodes that a phrase builds do not reach beyond the tokens it reads. -/
theorem Reads.within {Q : Span → Prop} (join : ∀ a b, Q a → Q b → Q ⟨a.start, b.stop⟩)
    {p : Phrase σ} {used : List Token} {items : List Node} (h : Reads rules p used items)
    (tokens : ∀ t ∈ used, Q t.span ∧ ∀ c ∈ t.comments, c.Within Q) :
    ∀ n ∈ items, n.Within Q := by
  induction h with
  | empty => intro n hn; cases hn
  | @token kind pattern t accepted =>
    intro n hn
    obtain ⟨span, inner⟩ := tokens t List.mem_cons_self
    rcases List.mem_append.1 hn with hn | hn
    · exact inner n hn
    · rw [List.mem_singleton.1 hn]
      exact Node.within_mk.2 ⟨span, nofun⟩
  | @glued parts used items ran =>
    obtain ⟨part, parts, t, tail, stop, rfl, rfl, -, taken, rfl⟩ := runGlued_cases ran
    obtain ⟨span, inner⟩ := tokens t List.mem_cons_self
    intro n hn
    rcases List.mem_append.1 hn with hn | hn
    · exact inner n hn
    · rw [List.mem_singleton.1 hn]
      exact Node.within_mk.2 ⟨stop_of_takeGlued span join span
        (fun u hu => (tokens u (List.mem_cons_of_mem _ hu)).1) taken, nofun⟩
  | seq _ _ ihA ihB =>
    intro n hn
    rcases List.mem_append.1 hn with hn | hn
    · exact ihA (fun t ht => tokens t (List.mem_append_left _ ht)) n hn
    · exact ihB (fun t ht => tokens t (List.mem_append_right _ ht)) n hn
  | first _ ih => exact ih tokens
  | second _ ih => exact ih tokens
  | done => intro n hn; cases hn
  | more _ _ ihHead ihTail =>
    intro n hn
    rcases List.mem_append.1 hn with hn | hn
    · exact ihHead (fun t ht => tokens t (List.mem_append_left _ ht)) n hn
    · exact ihTail (fun t ht => tokens t (List.mem_append_right _ ht)) n hn
  | absent => intro n hn; cases hn
  | field _ ih => exact within_setField (ih tokens)
  | node _ ih => exact within_enclose join (ih tokens)
  | rule _ ih => exact ih tokens
  | fork _ _ _ ihBase ihStep =>
    exact within_step join (ihBase fun t ht => tokens t (List.mem_append_left _ ht))
      (ihStep fun t ht => tokens t (List.mem_append_right _ ht))
  | base _ ih => exact ih tokens
  | grown _ _ _ ihChain ihStep =>
    exact within_step join (ihChain fun t ht => tokens t (List.mem_append_left _ ht))
      (ihStep fun t ht => tokens t (List.mem_append_right _ ht))

end Phrase

end Java

end JakartaCheck
