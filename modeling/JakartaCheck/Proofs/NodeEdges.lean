import JakartaCheck.Proofs.DeclarationSeams
import JakartaCheck.Proofs.TokenTexts

/-!
# Where nodes start and stop

Annotations, keywords and imports start and end with a word or a mark, so that no white space stands
at their ends; arguments open with a parenthesis, bodies with a brace; and the name of an annotation
is made of words and points, up to comments between them (`Node.Edged`). Which parts of a phrase a
node can come from is read off the phrase (`Phrase.pieces`), and that the grammar of Java puts nodes
together so is checked rule by rule (`production_edged`).
-/

namespace JakartaCheck.Java

variable {text : String}

/-! ### Patterns -/

namespace Pattern

/-- Do words and marks only fit the pattern? -/
def isPlain : Pattern → Bool
  | .literal _ => false
  | _ => true

/-- Does only that text fit the pattern? -/
def isText (s : String) : Pattern → Bool
  | .text t => t == s
  | _ => false

end Pattern

theorem Token.Hits.plain {t : Token} (h : t.Hits Pattern.isPlain) (form : Form) :
    t.shape ≠ .literal form := by
  obtain ⟨pattern, plain, accepted⟩ := h
  intro literal
  rw [literal] at accepted
  cases pattern with
  | text s => cases accepted
  | word except => cases accepted
  | literal form => cases plain

theorem Token.Hits.text_eq {s : String} {t : Token} (h : t.Hits (Pattern.isText s)) :
    t.shape.text = s ∧ ∀ form, t.shape ≠ .literal form := by
  obtain ⟨pattern, here, accepted⟩ := h
  cases pattern with
  | text s' =>
    obtain rfl : s' = s := beq_iff_eq.1 here
    refine ⟨Pattern.text_of_accepts accepted, fun form literal => ?_⟩
    rw [literal] at accepted
    cases accepted
  | word except => cases here
  | literal form => cases here

namespace Phrase

variable {σ : Type} {rules : σ → Phrase σ} {p : Phrase σ} {used : List Token} {items : List Node}

/-- Does the phrase, if it reads anything, start with a token of a pattern that `hit` names? -/
def startsIn (rules : σ → Phrase σ) (depth : Nat) (hit : Pattern → Bool) (p : Phrase σ) : Bool :=
  !p.mayStart (fun pattern => !hit pattern) (ruleStarts rules (fun pattern => !hit pattern) depth)

theorem Reads.startsIn (solid : ∀ s, (rules s).nullable = false) {depth : Nat}
    {hit : Pattern → Bool} (h : Reads rules p used items)
    (hp : p.startsIn rules depth hit = true) {t : Token} (first : used.head? = some t) :
    t.Hits hit := by
  obtain ⟨tail, rfl⟩ := List.head?_eq_some_iff.1 first
  by_contra other
  have all : ∀ pattern : Pattern, pattern.accepts t.shape → (!hit pattern) = true := by
    intro pattern accepted
    rw [Bool.not_eq_true']
    exact Bool.eq_false_iff.2 fun here => other ⟨pattern, here, accepted⟩
  rw [Phrase.startsIn, h.mayStart solid all rfl depth] at hp
  cases hp

/-! ### Parts of phrases -/

/-- Does every part of the phrase fit, down through sequences, choices and repetitions? -/
def pieces (fits : Phrase σ → Bool) : Phrase σ → Bool
  | .empty => true
  | .absent _ => true
  | .seq a b => a.pieces fits && b.pieces fits
  | .alt a b => a.pieces fits && b.pieces fits
  | .many p => p.pieces fits
  | p => fits p

/-- A node comes from a part that fits. -/
theorem Reads.piece {fits : Phrase σ → Bool} (h : Reads rules p used items)
    (hp : p.pieces fits = true) {n : Node} (mem : n ∈ items) :
    ∃ q us is, fits q = true ∧ us <:+: used ∧ Reads rules q us is ∧ n ∈ is := by
  induction h with
  | empty => cases mem
  | seq _ _ ihA ihB =>
    simp only [Phrase.pieces, Bool.and_eq_true] at hp
    rcases List.mem_append.1 mem with mem | mem
    · obtain ⟨q, us, is, hq, sub, reads, mem⟩ := ihA hp.1 mem
      exact ⟨q, us, is, hq, sub.trans (List.prefix_append _ _).isInfix, reads, mem⟩
    · obtain ⟨q, us, is, hq, sub, reads, mem⟩ := ihB hp.2 mem
      exact ⟨q, us, is, hq, sub.trans (List.suffix_append _ _).isInfix, reads, mem⟩
  | first _ ih =>
    simp only [Phrase.pieces, Bool.and_eq_true] at hp
    exact ih hp.1 mem
  | second _ ih =>
    simp only [Phrase.pieces, Bool.and_eq_true] at hp
    exact ih hp.2 mem
  | done => cases mem
  | more _ _ ihHead ihTail =>
    rcases List.mem_append.1 mem with mem | mem
    · obtain ⟨q, us, is, hq, sub, reads, mem⟩ := ihHead hp mem
      exact ⟨q, us, is, hq, sub.trans (List.prefix_append _ _).isInfix, reads, mem⟩
    · obtain ⟨q, us, is, hq, sub, reads, mem⟩ := ihTail hp mem
      exact ⟨q, us, is, hq, sub.trans (List.suffix_append _ _).isInfix, reads, mem⟩
  | absent => cases mem
  | token accepted => exact ⟨_, _, _, hp, List.infix_refl _, .token accepted, mem⟩
  | glued ran => exact ⟨_, _, _, hp, List.infix_refl _, .glued ran, mem⟩
  | field read _ => exact ⟨_, _, _, hp, List.infix_refl _, .field read, mem⟩
  | node read _ => exact ⟨_, _, _, hp, List.infix_refl _, .node read, mem⟩
  | rule read _ => exact ⟨_, _, _, hp, List.infix_refl _, .rule read, mem⟩
  | fork read step next _ _ => exact ⟨_, _, _, hp, List.infix_refl _, .fork read step next, mem⟩
  | base read _ => exact ⟨_, _, _, hp, List.infix_refl _, .base read, mem⟩
  | grown read step next _ _ => exact ⟨_, _, _, hp, List.infix_refl _, .grown read step next, mem⟩

/-! ### Single nodes -/

theorem solid_enclose {form : Form} {n : Node} (mem : n ∈ Node.enclose form items)
    (hn : n.isComment = false) : Node.solid (Node.enclose form items) = [n] := by
  obtain ⟨front, eq, comments⟩ := enclose_single mem hn
  rw [eq]
  exact Node.solid_comments comments hn

/-- Is the phrase a node, or a rule for one? -/
def isNode (rules : σ → Phrase σ) : Phrase σ → Bool
  | .node _ _ => true
  | .rule s =>
    match rules s with
    | .node _ _ => true
    | _ => false
  | _ => false

theorem Reads.solid_of_isNode (h : Reads rules p used items) (hp : p.isNode rules = true)
    {n : Node} (mem : n ∈ items) (hn : n.isComment = false) : Node.solid items = [n] := by
  cases h with
  | node read => exact solid_enclose mem hn
  | @rule s us is read =>
    cases eq : rules s with
    | node form q =>
      rw [eq] at read
      cases read with
      | node read => exact solid_enclose mem hn
    | _ => simp [Phrase.isNode, eq] at hp
  | _ => cases hp

/-- A single node reaches from the first token to the last. -/
theorem edges_of_single {n : Node} (row : InRow text used items) (single : Node.solid items = [n]) :
    used.head?.map (·.span.start) = some n.span.start ∧
      used.getLast?.map (·.span.stop) = some n.span.stop := by
  have start := row.start
  have stop := row.stop
  rw [single] at start stop
  exact ⟨start.symm, stop.symm⟩

end Phrase

/-! ### Names -/

open Phrase

/-- Do only words and points fit the pattern? -/
def Pattern.isNamePart : Pattern → Bool
  | .text s => s == "."
  | .word _ => true
  | .literal _ => false

/-- Do only words fit the pattern? -/
def Pattern.isWord : Pattern → Bool
  | .word _ => true
  | _ => false

theorem Token.Hits.word {t : Token} (h : t.Hits Pattern.isWord) : ∃ w, t.shape = .word w := by
  obtain ⟨pattern, word, accepted⟩ := h
  cases pattern with
  | word except =>
    cases shape : t.shape with
    | word w => exact ⟨w, rfl⟩
    | mark m => rw [shape] at accepted; cases accepted
    | literal form => rw [shape] at accepted; cases accepted
  | text s => cases word
  | literal form => cases word

theorem Token.Hits.namedBetween {t : Token} (h : t.Hits Pattern.isNamePart) (spelled : t.Spelled text) :
    NamedBetween text t.span.start t.span.stop := by
  obtain ⟨pattern, part, accepted⟩ := h
  have plain : ∀ form, t.shape ≠ .literal form := by
    refine Token.Hits.plain ⟨pattern, ?_, accepted⟩
    cases pattern <;> first | rfl | cases part
  refine ⟨_, (spelled.spells plain).1, .of_forall fun c hc => ?_⟩
  cases pattern with
  | text s =>
    obtain rfl : s = "." := beq_iff_eq.1 part
    rw [Pattern.text_of_accepts accepted] at hc
    exact .inr (.inl (by simpa using hc))
  | word except =>
    cases shape : t.shape with
    | word w =>
      rw [shape] at hc
      exact .inl (spelled.clear.word w shape c hc)
    | mark m => rw [shape] at accepted; cases accepted
    | literal form => exact absurd shape (plain form)
  | literal form => cases part

/-- A dotted name is read from words and points, a word last. -/
theorem reads_dottedName {used : List Token} {items : List Node}
    (h : Reads production (.rule .dottedName) used items) : ∀ t ∈ used, t.Hits Pattern.isNamePart := by
  have single : ∀ {us : List Token} {is : List Node}, Reads production anyName us is →
      ∀ t ∈ us, t.Hits Pattern.isNamePart := by
    intro us is read t ht
    cases read with
    | token accepted =>
      obtain rfl := List.mem_singleton.1 ht
      exact ⟨_, rfl, accepted⟩
  cases h with
  | rule read =>
    have chain : production .dottedName =
      .chain anyName [(.scopedIdentifier, some .scope, all [".", .field .name anyName])] := rfl
    rw [chain] at read
    clear chain
    generalize name : Phrase.chain anyName
      [(.scopedIdentifier, some .scope, all [".", .field .name anyName])] = p at read
    induction read with
    | base start ih =>
      cases name
      exact single start
    | grown start mem next ih _ =>
      cases name
      cases List.mem_singleton.1 mem
      refine List.forall_mem_append.2 ⟨ih rfl, ?_⟩
      cases next with
      | seq point last =>
        cases point with
        | token accepted =>
          cases last with
          | field last =>
            refine List.forall_mem_append.2 ⟨?_, single last⟩
            exact List.forall_mem_singleton.2 ⟨_, rfl, accepted⟩
    | _ => cases name

/-! ### What is checked of the grammar -/

/-- The forms of nodes that start and end with a word or a mark. -/
def plainForms : List Form := .importDeclaration :: annotationForms

/-- The forms of nodes with a part that starts with a bracket, the name of the part and the
bracket. -/
def openings : List (Form × Field × String) :=
  (.annotationUse, .arguments, "(") :: typeForms.map fun form => (form, .body, "\x7b")

/-- Are parts of that name single nodes that start with the bracket? -/
def opensWith (label : Field) (bracket : String) : Phrase Symbol → Bool
  | .field f q =>
    f != label || q.isNode production && q.passes plainChecks &&
      q.startsIn production 2 (Pattern.isText bracket)
  | q => !q.mayBear production 2 (.field label)

/-- Are parts that are called `name` dotted names? -/
def isNamed : Phrase Symbol → Bool
  | .field .name (.rule .dottedName) => true
  | .field .name _ => false
  | .field _ _ => true
  | q => !q.mayBear production 2 (.field .name)

/-- Are bare leaves words or marks? -/
def isKeyword : Phrase Symbol → Bool
  | .token kind pattern => !kind.isBare || pattern.isPlain
  | .glued _ => true
  | q => q.yieldsOnly (fun _ => false) (fun _ => true)
    (ruleYieldsOnly production (fun _ => false) (fun _ => true) 2)

/-- The rules that always end in a word or a mark. -/
def endsPlain (s : Symbol) : Bool := s == .dottedName

/-- What the edges of a node of that form ask of the phrase inside of it. -/
def fitsEdges (form : Form) (p : Phrase Symbol) : Bool :=
  p.passes plainChecks &&
    (!plainForms.contains form ||
      p.startsIn production 2 Pattern.isPlain && p.endsIn Pattern.isPlain endsPlain) &&
    openings.all (fun opening => opening.1 != form || p.pieces (opensWith opening.2.1 opening.2.2)) &&
    (!annotationForms.contains form || p.pieces isNamed) &&
    (form != .modifiers || p.pieces isKeyword)

theorem production_endsPlain (s : Symbol) (h : endsPlain s = true) :
    (production s).endsIn Pattern.isPlain endsPlain = true := by
  obtain rfl := beq_iff_eq.1 h
  decide

theorem production_endsWord (s : Symbol) (h : endsPlain s = true) :
    (production s).endsIn Pattern.isWord endsPlain = true := by
  obtain rfl := beq_iff_eq.1 h
  decide

theorem production_edged (s : Symbol) : (production s).builds fitsEdges = true := by
  induction s using forall_symbol with
  | listed s mem =>
    revert s
    decide +kernel
  | beyond level arrows ge =>
    rw [production_binary ge]
    rfl

/-! ### The texts of nodes -/

/-- What is known of the tokens of a source. -/
structure Texts (text : String) (tokens : List Token) : Prop where
  notes : ∀ t ∈ tokens, ∀ c ∈ t.comments, IsNote c
  between : tokens.IsChain fun u v => NamedBetween text u.span.stop v.span.start
  spelled : ∀ t ∈ tokens, t.Spelled text

namespace Texts

variable {tokens used : List Token} {s : Span}

theorem sub (h : Texts text tokens) (hsub : used <:+: tokens) : Texts text used :=
  ⟨fun t ht => h.notes t (hsub.subset ht), h.between.infix hsub,
    fun t ht => h.spelled t (hsub.subset ht)⟩

theorem comments (h : Texts text tokens) : ∀ t ∈ tokens, ∀ c ∈ t.comments, c.isComment = true :=
  fun t ht c hc => (h.notes t ht c hc).1

/-- What reaches from a word or mark to a word or mark is solid. -/
theorem solid (h : Texts text used) (fits : s.Fits text)
    (start : used.head?.map (·.span.start) = some s.start)
    (stop : used.getLast?.map (·.span.stop) = some s.stop)
    (first : ∀ t, used.head? = some t → t.Hits Pattern.isPlain)
    (last : ∀ t, used.getLast? = some t → t.Hits Pattern.isPlain) : s.Solid text := by
  obtain ⟨t, ht, start⟩ := Option.map_eq_some_iff.1 start
  obtain ⟨u, hu, stop⟩ := Option.map_eq_some_iff.1 stop
  exact fits.solid ((h.spelled t (List.mem_of_head? ht)).solid (first t ht).plain)
    ((h.spelled u (List.mem_of_getLast? hu)).solid (last u hu).plain) start stop

/-- Between words and points stand only comments and white space. -/
theorem namedBetween {start stop : Nat} (h : Texts text used)
    (parts : ∀ t ∈ used, t.Hits Pattern.isNamePart)
    (first : used.head?.map (·.span.start) = some start)
    (last : used.getLast?.map (·.span.stop) = some stop) : NamedBetween text start stop := by
  induction used generalizing start with
  | nil => cases first
  | cons t used ih =>
    obtain rfl := Option.some.inj first
    have here := (parts t List.mem_cons_self).namedBetween (h.spelled t List.mem_cons_self)
    cases used with
    | nil =>
      obtain rfl := Option.some.inj last
      exact here
    | cons u used =>
      have rest := ih (h.sub (List.suffix_cons t _).isInfix)
        (fun v hv => parts v (List.mem_cons_of_mem _ hv)) rfl last
      exact (here.trans (List.isChain_cons_cons.1 h.between).1).trans rest

end Texts

theorem hits_of_takeGlued {parts : List String} {used : List Token} {stop stop' : Nat}
    (h : takeGlued stop parts used = some (stop', [])) : ∀ t ∈ used, t.Hits Pattern.isPlain := by
  induction parts generalizing stop used with
  | nil =>
    cases h
    exact nofun
  | cons part parts ih =>
    cases used with
    | nil => cases h
    | cons t used =>
      simp only [takeGlued] at h
      split at h
      · rename_i fits
        rw [Bool.and_eq_true, Bool.and_eq_true] at fits
        exact List.forall_mem_cons.2 ⟨⟨_, rfl, fits.1.1⟩, ih h⟩
      · cases h

section Reading

variable {q : Phrase Symbol} {used : List Token} {items : List Node} {n : Node}

/-- Bare words and marks among the modifiers. -/
theorem solid_of_isKeyword (reads : Reads production q used items) (hq : isKeyword q = true)
    (texts : Texts text used) (mem : n ∈ items) (bare : n.kind.isBare = true)
    (fits : n.span.Fits text) : n.span.Solid text := by
  have solid : n.isComment = false := by
    cases kind : n.kind with
    | token s => simp [Node.isComment, Node.hasForm, kind]
    | form f => rw [kind] at bare; cases bare
  unfold isKeyword at hq
  split at hq
  · rename_i kind pattern
    cases reads with
    | @token _ _ t accepted =>
      rcases List.mem_append.1 mem with mem | mem
      · rw [texts.comments t List.mem_cons_self n mem] at solid
        cases solid
      · obtain rfl := List.mem_singleton.1 mem
        have hits : t.Hits Pattern.isPlain :=
          ⟨pattern, by simpa [show kind.isBare = true from bare] using hq, accepted⟩
        exact (texts.spelled t List.mem_cons_self).solid hits.plain
  · rename_i parts
    have row : InRow text used items := reads.inRow production_plain rfl texts.comments
    cases reads with
    | glued ran =>
      obtain ⟨part, parts, t, tail, stop, rfl, rfl, accepted, taken, rfl⟩ := runGlued_cases ran
      have hits : ∀ u ∈ t :: tail, u.Hits Pattern.isPlain :=
        List.forall_mem_cons.2 ⟨⟨_, rfl, accepted⟩, hits_of_takeGlued taken⟩
      rcases List.mem_append.1 mem with mem | mem
      · rw [texts.comments t List.mem_cons_self n mem] at solid
        cases solid
      · obtain rfl := List.mem_singleton.1 mem
        obtain ⟨start, stop⟩ := edges_of_single row
          (Node.solid_comments (texts.comments t List.mem_cons_self) rfl)
        exact texts.solid fits start stop (fun u hu => hits u (List.mem_of_head? hu))
          fun u hu => hits u (List.mem_of_getLast? hu)
  · rcases reads.yieldsOnly hq texts.comments mem solid with ⟨-, leaf⟩ | ⟨-, form, kind, -⟩
    · cases leaf
    · rw [kind] at bare
      cases bare

theorem bears_label {label : Field} (hn : n.isComment = false) (field : n.field = some label) :
    n.bears (.field label) = true := by
  simp [Node.bears, hn, field]

/-- A node that gets a name stands where it stood. -/
theorem exists_of_mem_setField {label : Field} (mem : n ∈ Node.setField label items)
    (hn : n.isComment = false) : ∃ m ∈ items, m.isComment = false ∧ m.span = n.span := by
  obtain ⟨⟨kind, field, span, children⟩, unnamed, rfl⟩ := List.mem_map.1 mem
  dsimp only at hn ⊢
  split at hn
  · rename_i comment
    rw [comment] at hn
    cases hn
  · rename_i comment
    rw [if_neg comment]
    exact ⟨_, unnamed, Bool.eq_false_iff.2 comment, rfl⟩

theorem field_of_reads {label : Field} (reads : Reads production (.field label q) used items)
    (mem : n ∈ items) (hn : n.isComment = false) : n.field = some label := by
  cases reads with
  | field read => exact field_of_mem_setField mem hn

/-- A part that opens with a bracket. -/
theorem charAt?_of_opensWith {label : Field} {bracket : String}
    (reads : Reads production q used items) (hq : opensWith label bracket q = true)
    (texts : Texts text used) (mem : n ∈ items) (hn : n.isComment = false)
    (field : n.field = some label) :
    Text.charAt? text n.span.start = bracket.toList.head? := by
  unfold opensWith at hq
  split at hq
  · rename_i f q
    obtain rfl : f = label := Option.some.inj ((field_of_reads reads mem hn).symm.trans field)
    simp only [bne_self_eq_false, Bool.false_or, Bool.and_eq_true] at hq
    obtain ⟨⟨node, plain⟩, opens⟩ := hq
    cases reads with
    | field read =>
      obtain ⟨m, mem, hm, same⟩ := exists_of_mem_setField mem hn
      have row : InRow text used _ := read.inRow production_plain plain texts.comments
      obtain ⟨start, -⟩ := edges_of_single row (read.solid_of_isNode node mem hm)
      obtain ⟨t, ht, start⟩ := Option.map_eq_some_iff.1 start
      obtain ⟨spelled, literal⟩ := (read.startsIn production_solid opens ht).text_eq
      obtain ⟨spells, some⟩ := (texts.spelled t (List.mem_of_head? ht)).spells literal
      rw [spelled] at spells some
      obtain ⟨c, cs, eq⟩ := List.exists_cons_of_ne_nil some
      rw [eq, ← same, ← start]
      exact Text.charAt?_of_slice? spells (by rw [eq]; rfl)
  · rw [reads.mayBear texts.comments mem (bears_label hn field)] at hq
    cases hq

/-- A dotted name is a single node. -/
theorem solid_of_dottedName (reads : Reads production (.rule .dottedName) used items)
    (comments : ∀ t ∈ used, ∀ c ∈ t.comments, c.isComment = true) (mem : n ∈ items)
    (hn : n.isComment = false) : Node.solid items = [n] := by
  cases reads with
  | rule read =>
    cases read with
    | base start =>
      cases start with
      | @token _ _ t accepted =>
        rcases List.mem_append.1 mem with mem | mem
        · rw [comments t List.mem_cons_self n mem] at hn
          cases hn
        · obtain rfl := List.mem_singleton.1 mem
          exact Node.solid_comments (comments t List.mem_cons_self) rfl
    | grown _ _ _ => exact solid_enclose mem hn

/-- The name of an annotation. -/
theorem named_of_isNamed (reads : Reads production q used items) (hq : isNamed q = true)
    (texts : Texts text used) (mem : n ∈ items) (hn : n.isComment = false)
    (field : n.field = some .name) : NamedBetween text n.span.start n.span.stop ∧
      (Text.charBefore? text n.span.stop).any continuesWord := by
  unfold isNamed at hq
  split at hq
  · cases reads with
    | field read =>
      obtain ⟨m, mem, hm, same⟩ := exists_of_mem_setField mem hn
      have row : InRow text used _ := read.inRow production_plain rfl texts.comments
      obtain ⟨start, stop⟩ :=
        edges_of_single row (solid_of_dottedName read texts.comments mem hm)
      rw [← same]
      refine ⟨texts.namedBetween (reads_dottedName read) start stop, ?_⟩
      obtain ⟨t, ht, stop⟩ := Option.map_eq_some_iff.1 stop
      have some : used ≠ [] := List.ne_nil_of_mem (List.mem_of_getLast? ht)
      obtain ⟨u, hu, hits⟩ := read.ends production_solid production_endsWord rfl some
      obtain rfl := Option.some.inj (ht.symm.trans hu)
      obtain ⟨w, word⟩ := hits.word
      have spelled := texts.spelled t (List.mem_of_getLast? ht)
      obtain ⟨spells, nonempty⟩ := spelled.spells (by rw [word]; nofun)
      obtain ⟨c, hc⟩ := Option.isSome_iff_exists.1 (List.getLast?_isSome.2 nonempty)
      rw [← stop, Text.charBefore?_of_slice? spells hc]
      have last := List.mem_of_getLast? hc
      rw [word] at last
      exact spelled.clear.word w word c last
  · cases hq
  · rename_i f q _ other
    exact absurd (Option.some.inj ((field_of_reads reads mem hn).symm.trans field)) other
  · rw [reads.mayBear texts.comments mem (bears_label hn field)] at hq
    cases hq

end Reading

/-! ### Edges in a tree -/

/-- Where annotations, keywords, imports and bodies start and stop. -/
structure Node.Edged (text : String) (n : Node) : Prop where
  solid : n.kind.isOneOf plainForms → n.children ≠ [] → n.span.Fits text → n.span.Solid text
  opened : ∀ opening ∈ openings, n.kind = .form opening.1 → ∀ c ∈ n.children, c.isComment = false →
    c.field = some opening.2.1 → Text.charAt? text c.span.start = opening.2.2.toList.head?
  named : n.kind.isOneOf annotationForms → ∀ c ∈ n.children, c.isComment = false →
    c.field = some .name → NamedBetween text c.span.start c.span.stop ∧
      (Text.charBefore? text c.span.stop).any continuesWord
  keywords : n.hasForm .modifiers → ∀ c ∈ n.children, c.kind.isBare → c.span.Fits text →
    c.span.Solid text

theorem Node.edged_leaf {n : Node} (h : n.children = []) : n.Edged text where
  solid _ some := absurd h some
  opened _ _ _ c hc := by simp [h] at hc
  named _ c hc := by simp [h] at hc
  keywords _ c hc := by simp [h] at hc

theorem Node.Wraps.edged {n : Node} {form : Form} {p : Phrase Symbol} {used : List Token}
    {items : List Node} (wraps : n.Wraps items) (kind : n.kind = .form form)
    (reads : Reads production p used items) (fits : fitsEdges form p = true)
    (texts : Texts text used) : n.Edged text := by
  simp only [fitsEdges, Bool.and_eq_true, Bool.or_eq_true, Bool.not_eq_true', bne_iff_ne] at fits
  obtain ⟨⟨⟨⟨plain, edges⟩, opens⟩, named⟩, keywords⟩ := fits
  have row : InRow text used items := reads.inRow production_plain plain texts.comments
  constructor
  case solid =>
    intro isPlain some fits
    rw [kind] at isPlain
    obtain ⟨starts, ends⟩ := edges.resolve_left (by simpa [Kind.isOneOf] using isPlain)
    have first := wraps.head? row
    refine texts.solid fits first (wraps.getLast? row)
      (fun t ht => reads.startsIn production_solid starts ht) fun t ht => ?_
    obtain ⟨u, hu, hits⟩ := reads.ends production_solid production_endsPlain ends
      (List.ne_nil_of_mem (List.mem_of_getLast? ht))
    obtain rfl := Option.some.inj (ht.symm.trans hu)
    exact hits
  case opened =>
    intro opening mem kind' c hc hn field
    obtain rfl := Kind.form.inj (kind.symm.trans kind')
    have opens := List.all_eq_true.1 opens opening mem
    simp only [bne_self_eq_false, Bool.false_or] at opens
    obtain ⟨q, us, is, hq, sub, read, mem⟩ := reads.piece opens (wraps.mem_children hc)
    exact charAt?_of_opensWith read hq (texts.sub sub) mem hn field
  case named =>
    intro isUse c hc hn field
    rw [kind] at isUse
    have named := named.resolve_left (by simpa [Kind.isOneOf] using isUse)
    obtain ⟨q, us, is, hq, sub, read, mem⟩ := reads.piece named (wraps.mem_children hc)
    exact named_of_isNamed read hq (texts.sub sub) mem hn field
  case keywords =>
    intro isModifiers c hc bare fits
    obtain rfl := Kind.form.inj (kind.symm.trans (beq_iff_eq.1 isModifiers))
    have keywords := keywords.resolve_left (· rfl)
    obtain ⟨q, us, is, hq, sub, read, mem⟩ := reads.piece keywords (wraps.mem_children hc)
    exact solid_of_isKeyword read hq (texts.sub sub) mem bare fits

theorem Node.BuiltFrom.edged {n : Node} {tokens : List Token} (texts : Texts text tokens)
    (h : n.BuiltFrom production fitsEdges tokens) : n.Edged text := by
  rcases h with leaf | ⟨form, p, us, is, kind, fits, sub, reads, wraps⟩
  · exact edged_leaf leaf
  · exact wraps.edged kind reads fits (texts.sub sub)

/-- The edges of the nodes in the tree of a source. -/
theorem edged_of_parse {root : Node} (h : parse text = some root) :
    ∀ n ∈ root.children, n.Everywhere (Node.Edged text) := by
  obtain ⟨tokens, items, last, scanned, reads, rfl⟩ := exists_reads_of_parse h
  obtain ⟨-, notes, lastNotes⟩ := tokenize_chained scanned
  obtain ⟨between, spelled⟩ := tokenize_spelled scanned
  have texts : Texts text tokens := ⟨notes, between, spelled⟩
  intro n hn
  have built : n.Everywhere (Node.BuiltFrom production fitsEdges tokens) := by
    rcases List.mem_append.1 hn with hn | hn
    · exact reads.builtFrom production_edged rfl notes n hn
    · exact (lastNotes n hn).builtFrom
  exact built.imp fun _ h => h.edged texts

end JakartaCheck.Java
