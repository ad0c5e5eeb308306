import JakartaCheck.Proofs.GrammarSeams
import JakartaCheck.Proofs.JavaItems

/-!
# Seams of declarations

In the tree of a source no word ends where a declaration starts, since the token in front of it is a
bracket or a mark that ends something (`Node.Seamed`). A declaration starts with its modifiers, and
these are bare words and annotations in a row. So what an annotation touches on its left is another
modifier. This is asked of a parser (`Parser.KeepsSeams`); that the grammar puts declarations so is
checked rule by rule (`production_seamed`, `grammar_keepsSeams`).
-/

namespace JakartaCheck.Java

open Phrase

variable {text : String}

/-! ### Tokens behind which no word ends -/

/-- Marks that are no words. -/
def clearMarks : List String := ["\x7b", "\x7d", ";", "(", ")", ",", ":"]

/-- Do only such marks fit the pattern? -/
def isClear : Pattern → Bool
  | .text s => clearMarks.contains s
  | _ => false

theorem loose_stop_of_hits {t : Token} (spelled : t.EndsAsText text) (h : t.Hits isClear) :
    Loose text t.span.stop := by
  obtain ⟨pattern, clear, accepted⟩ := h
  cases pattern with
  | text s =>
    have mark : s ∈ clearMarks := by simpa [isClear] using clear
    have plain : ∀ form, t.shape ≠ .literal form := by
      intro form literal
      rw [literal] at accepted
      cases accepted
    have ends : ∀ s ∈ clearMarks, s.toList.getLast?.any continuesWord = false := by
      decide +kernel
    intro c hc
    rw [spelled plain, Pattern.text_of_accepts accepted] at hc
    have last := ends s mark
    rwa [hc] at last
  | word except => cases clear
  | literal form => cases clear

theorem loose_behind {u v : Token} (spelled : u.EndsAsText text) (adjoins : Adjoins text u v)
    (h : u.Hits isClear) : Loose text v.span.start := by
  rcases adjoins with here | loose
  · exact here ▸ loose_stop_of_hits spelled h
  · exact loose

/-- The rules that always end in such a mark. -/
def endsClear (s : Symbol) : Bool :=
  mustEnd s || [.classMember, .interfaceMember, .annotationMember].contains s

theorem production_endsClear (s : Symbol) (h : endsClear s = true) :
    (production s).endsIn isClear endsClear = true := by
  revert h
  induction s using forall_symbol with
  | listed s mem =>
    revert s
    decide +kernel
  | beyond level arrows ge =>
    intro h
    cases h

/-! ### Phrases of declarations -/

/-- Is a node of that kind of one of the forms? -/
def Kind.isOneOf (forms : List Form) : Kind → Bool
  | .token _ => false
  | .form f => forms.contains f

theorem Kind.isOneOf_iff {kind : Kind} {forms : List Form} :
    kind.isOneOf forms = true ↔ ∃ form ∈ forms, kind = .form form := by
  cases kind <;> simp [Kind.isOneOf]

theorem Node.isComment_of_isOneOf {n : Node} {forms : List Form}
    (h : n.kind.isOneOf forms = true)
    (plain : (forms.contains .lineComment || forms.contains .blockComment) = false) :
    n.isComment = false := by
  rw [Bool.or_eq_false_iff] at plain
  refine Bool.eq_false_iff.2 fun comment => ?_
  rcases Node.isComment_iff.1 comment with kind | kind
  · rw [kind, Kind.isOneOf, plain.1] at h
    cases h
  · rw [kind, Kind.isOneOf, plain.2] at h
    cases h

/-- Is a leaf of that kind a bare word or mark? -/
def Kind.isBare : Kind → Bool
  | .token _ => true
  | .form _ => false

/-- The declarations with modifiers that are read, and parameters. -/
def declarationForms : List Form :=
  typeForms ++ [.methodDeclaration, .constructorDeclaration, .fieldDeclaration,
    .constantDeclaration, .formalParameter, .spreadParameter]

/-- The statements that have statements as branches. A branch may be a declaration. -/
def branchingForms : List Form :=
  [.ifStatement, .whileStatement, .doStatement, .forStatement, .enhancedForStatement]

def annotationForms : List Form := [.annotationUse, .markerAnnotationUse]

/-- The marks that no part of a node of that form bears. -/
def lacking (form : Form) : List Mark :=
  if declarationForms.contains form then .field .modifiers :: branchingForms.map .form
  else if form == .markerAnnotationUse then [.field .arguments]
  else []

/-- Do declarations among the parts stand behind clear marks? -/
def holdsApart (p : Phrase Symbol) : Bool :=
  p.parted isClear endsClear (Kind.isOneOf declarationForms)
    (ruleParted production isClear endsClear (Kind.isOneOf declarationForms) 18) false

/-- Do modifiers stand at the front only? -/
def startsWithModifiers (p : Phrase Symbol) : Bool :=
  p.parted (fun _ => false) (fun _ => false) (Kind.isOneOf [.modifiers])
    (ruleParted production (fun _ => false) (fun _ => false) (Kind.isOneOf [.modifiers]) 16) true

/-- Does the phrase read bare words and annotations only? -/
def listsModifiers (p : Phrase Symbol) : Bool :=
  p.yieldsOnly Kind.isBare annotationForms.contains
    (ruleYieldsOnly production Kind.isBare annotationForms.contains 1)

/-- What the seams of a node of that form ask of the phrase inside of it. -/
def fitsSeams (form : Form) (p : Phrase Symbol) : Bool :=
  p.silent && p.passes plainChecks &&
    (lacking form).all (fun mark => !p.mayBear production 8 mark) &&
    (branchingForms.contains form || holdsApart p) &&
    (!declarationForms.contains form || startsWithModifiers p) &&
    (form != .modifiers || listsModifiers p) &&
    (form != .annotationUse || p.endsIn isClear endsClear) &&
    (!annotationForms.contains form || p.offers .name)

theorem production_plain (s : Symbol) : (production s).passes plainChecks = true := by
  induction s using forall_symbol with
  | listed s mem =>
    revert s
    decide +kernel
  | beyond level arrows ge =>
    rw [production_binary ge]
    rfl

theorem production_seamed (s : Symbol) : (production s).builds fitsSeams = true := by
  induction s using forall_symbol with
  | listed s mem =>
    revert s
    decide +kernel
  | beyond level arrows ge =>
    rw [production_binary ge]
    rfl

/-- The first declaration stands at the front of the source. -/
theorem source_apart : (Phrase.many (.rule Symbol.topLevel)).parted isClear endsClear
    (Kind.isOneOf declarationForms)
    (ruleParted production isClear endsClear (Kind.isOneOf declarationForms) 18) true = true := by
  decide +kernel

/-! ### Seams in a tree -/

/-- Where declarations and modifiers stand among the parts of a node. -/
structure Node.Seamed (text : String) (n : Node) : Prop where
  lacks : ∀ form, n.kind = .form form → ∀ mark ∈ lacking form, ∀ c ∈ n.children, ¬ c.bears mark
  /-- No word ends where a declaration starts. -/
  apart : n.kind.isOneOf branchingForms = false → ∀ c ∈ n.children,
    c.kind.isOneOf declarationForms → Loose text c.span.start
  front : n.kind.isOneOf declarationForms → ∀ c ∈ n.children, c.hasForm .modifiers →
    c.span.start = n.span.start
  /-- Modifiers are bare words and annotations. -/
  modifiers : n.hasForm .modifiers → ∀ c ∈ Node.solid n.children,
    c.kind.isBare ∨ c.children ≠ [] ∧ c.kind.isOneOf annotationForms
  /-- They stand in a row. -/
  row : n.hasForm .modifiers → (Node.solid n.children).IsChain (Node.Adjoins text) ∧
    ∀ c, (Node.solid n.children).head? = some c → c.span.start = n.span.start
  /-- An annotation with arguments ends in a parenthesis. -/
  closed : n.hasForm .annotationUse → n.children ≠ [] → Loose text n.span.stop
  named : n.kind.isOneOf annotationForms → n.children ≠ [] → (n.child? .name).isSome

theorem Node.seamed_leaf {n : Node} (h : n.children = []) : n.Seamed text where
  lacks _ _ _ _ c hc := by simp [h] at hc
  apart _ c hc := by simp [h] at hc
  front _ c hc := by simp [h] at hc
  modifiers _ c hc := by simp [h, Node.solid] at hc
  row _ := by simp [h, Node.solid]
  closed _ some := absurd h some
  named _ some := absurd h some

section Wraps

variable {n : Node} {used : List Token} {items : List Node}

theorem Node.Wraps.mem_children (h : n.Wraps items) {c : Node} (hc : c ∈ n.children) : c ∈ items :=
  (List.dropWhile_sublist _).subset (h.children ▸ hc)

theorem Node.Wraps.solid_eq (h : n.Wraps items) : solid n.children = solid items := by
  rw [h.children, solid_dropWhile]

/-- A node starts with the first token of what is read in it. -/
theorem Node.Wraps.head? (h : n.Wraps items) (row : InRow text used items) :
    used.head?.map (·.span.start) = some n.span.start := by
  rw [← row.start, ← h.start, h.children, head?_dropWhile]

theorem Node.Wraps.getLast? (h : n.Wraps items) (row : InRow text used items) :
    used.getLast?.map (·.span.stop) = some n.span.stop := by
  have stop := h.stop
  obtain ⟨last, hlast, -⟩ := Option.map_eq_some_iff.1 stop
  rw [h.children] at stop hlast
  have same : items.getLast? = (items.dropWhile isComment).getLast? := by
    conv_lhs => rw [← List.takeWhile_append_dropWhile (p := isComment) (l := items)]
    rw [List.getLast?_append, hlast, Option.some_or]
  rw [← row.stop, ← row.last, same, stop]

end Wraps

/-- What is known of the tokens of a source. -/
structure Seams (text : String) (tokens : List Token) : Prop where
  notes : ∀ t ∈ tokens, ∀ c ∈ t.comments, IsNote c
  adjoins : tokens.IsChain (Adjoins text)
  spelled : ∀ t ∈ tokens, t.EndsAsText text

namespace Seams

variable {tokens used : List Token}

theorem sub (h : Seams text tokens) (hsub : used <:+: tokens) : Seams text used :=
  ⟨fun t ht => h.notes t (hsub.subset ht), h.adjoins.infix hsub,
    fun t ht => h.spelled t (hsub.subset ht)⟩

theorem comments (h : Seams text tokens) : ∀ t ∈ tokens, ∀ c ∈ t.comments, c.isComment = true :=
  fun t ht c hc => (h.notes t ht c hc).1

theorem clear (h : Seams text tokens) :
    tokens.IsChain fun u v => u.Hits isClear → Loose text v.span.start :=
  h.adjoins.imp_of_mem_imp fun _ _ hu _ adjoins hits => loose_behind (h.spelled _ hu) adjoins hits

end Seams

theorem Phrase.Reads.start_of_startsWithModifiers {p : Phrase Symbol} {used : List Token}
    {items : List Node} (h : Reads production p used items) (silent : p.silent = true)
    (hp : startsWithModifiers p = true)
    (comments : ∀ t ∈ used, ∀ c ∈ t.comments, c.isComment = true) {c : Node} (mem : c ∈ items)
    (hc : c.kind.isOneOf [.modifiers] = true) :
    used.head?.map (·.span.start) = some c.span.start := by
  let front (offset : Nat) : Prop := used.head?.map (·.span.start) = some offset
  have chain : used.IsChain fun u v => u.Hits (fun _ => false) → front v.span.start :=
    (List.pairwise_of_forall fun _ _ ⟨_, hit, _⟩ => by cases hit).isChain
  have start : front c.span.start :=
    h.parted production_solid production_silent (by intro s known; cases known) silent hp comments
      chain (fun _ t ht => congrArg _ ht) mem (Node.isComment_of_isOneOf hc (by decide)) hc
  exact start

/-- The parts of a node that is built from a phrase that fits. -/
theorem Node.Wraps.seamed {n : Node} {form : Form} {p : Phrase Symbol} {used : List Token}
    {items : List Node} (wraps : n.Wraps items) (kind : n.kind = .form form)
    (reads : Reads production p used items) (fits : fitsSeams form p = true)
    (seams : Seams text used) : n.Seamed text := by
  simp only [fitsSeams, Bool.and_eq_true, Bool.or_eq_true, Bool.not_eq_true', bne_iff_ne] at fits
  obtain ⟨⟨⟨⟨⟨⟨⟨silent, plain⟩, lacks⟩, apart⟩, front⟩, modifiers⟩, closed⟩, named⟩ := fits
  have comments := seams.comments
  have row : InRow text used items := reads.inRow production_plain plain comments
  constructor
  case lacks =>
    intro form' kind' mark hmark c hc bears
    obtain rfl := Kind.form.inj (kind.symm.trans kind')
    have may := reads.mayBear comments (wraps.mem_children hc) bears 8
    simpa [may] using List.all_eq_true.1 lacks mark hmark
  case apart =>
    intro other c hc declares
    rw [kind] at other
    have apart := apart.resolve_left (Bool.eq_false_iff.1 other)
    exact reads.parted production_solid production_silent production_endsClear silent apart comments
      seams.clear nofun (wraps.mem_children hc) (isComment_of_isOneOf declares (by decide)) declares
  case front =>
    intro declares c hc isModifiers
    rw [kind] at declares
    have front := front.resolve_left (by simpa [Kind.isOneOf] using declares)
    have marked : c.kind.isOneOf [.modifiers] = true := by
      rw [beq_iff_eq.1 isModifiers]
      decide
    exact Option.some.inj ((reads.start_of_startsWithModifiers silent front comments
      (wraps.mem_children hc) marked).symm.trans (wraps.head? row))
  case modifiers =>
    intro isModifiers c hc
    obtain rfl := Kind.form.inj (kind.symm.trans (beq_iff_eq.1 isModifiers))
    have modifiers := modifiers.resolve_left (· rfl)
    rw [wraps.solid_eq, mem_solid] at hc
    rcases reads.yieldsOnly modifiers comments hc.1 hc.2 with ⟨-, bare⟩ | ⟨some, form, kind, inner⟩
    · exact .inl bare
    · rw [kind]
      exact .inr ⟨some, inner⟩
  case row =>
    intro isModifiers
    rw [wraps.solid_eq]
    refine ⟨row.chain seams.adjoins, fun c hc => ?_⟩
    have start := row.start.trans (wraps.head? row)
    rw [hc] at start
    exact Option.some.inj start
  case closed =>
    intro isUse some
    obtain rfl := Kind.form.inj (kind.symm.trans (beq_iff_eq.1 isUse))
    obtain ⟨t, ht, stop⟩ := Option.map_eq_some_iff.1 (wraps.getLast? row)
    obtain ⟨u, hu, hits⟩ := reads.ends production_solid production_endsClear
      (closed.resolve_left (· rfl)) (fun none => by rw [none] at ht; cases ht)
    obtain rfl := Option.some.inj (ht.symm.trans hu)
    rw [← stop]
    exact loose_stop_of_hits (seams.spelled t (List.mem_of_getLast? ht)) hits
  case named =>
    intro isUse some
    rw [kind] at isUse
    have named := named.resolve_left (by simpa [Kind.isOneOf] using isUse)
    obtain ⟨c, hc, hn, field⟩ := reads.offers production_solid production_silent named comments
    have solid : c ∈ Node.solid n.children := by
      rw [wraps.solid_eq, mem_solid]
      exact ⟨hc, hn⟩
    exact List.find?_isSome.2 ⟨c, (mem_solid.1 solid).1, by simp [field]⟩

theorem Node.BuiltFrom.seamed {n : Node} {tokens : List Token} (seams : Seams text tokens)
    (h : n.BuiltFrom production fitsSeams tokens) : n.Seamed text := by
  rcases h with leaf | ⟨form, p, us, is, kind, fits, sub, reads, wraps⟩
  · exact seamed_leaf leaf
  · exact wraps.seamed kind reads fits (seams.sub sub)

/-- In the tree of a source no word ends where a declaration starts, unless it is a branch. -/
theorem seamed_of_parse {root : Node} (h : parse text = some root) : ∀ n ∈ root.children,
    n.Everywhere (Node.Seamed text) ∧
      (n.kind.isOneOf declarationForms → Loose text n.span.start) := by
  obtain ⟨tokens, items, last, scanned, reads, rfl⟩ := exists_reads_of_parse h
  obtain ⟨-, notes, lastNotes⟩ := tokenize_chained scanned
  obtain ⟨first, adjoins, spelled⟩ := tokenize_seams scanned
  have seams : Seams text tokens := ⟨notes, adjoins, spelled⟩
  intro n hn
  rcases List.mem_append.1 hn with hn | hn
  · have built := reads.builtFrom production_seamed rfl notes n hn
    refine ⟨built.imp fun _ h => h.seamed seams, fun declares => ?_⟩
    exact reads.parted production_solid production_silent production_endsClear rfl source_apart
      seams.comments seams.clear (fun _ => first) hn
      (Node.isComment_of_isOneOf declares (by decide)) declares
  · have built : n.Everywhere (Node.BuiltFrom production fitsSeams tokens) :=
      (lastNotes n hn).builtFrom
    refine ⟨built.imp fun _ h => h.seamed seams, fun declares => ?_⟩
    have comment := (lastNotes n hn).1
    rw [Node.isComment_of_isOneOf declares (by decide)] at comment
    cases comment

/-! ### Parsers -/

/-- How a parser puts declarations and tokens next to each other, in sources without syntax errors. -/
structure Parser.KeepsSeams (parser : Parser) : Prop where
  /-- Nodes are pieces of the text, one behind the other, and comments are leaves. -/
  shaped : ∀ {text root}, parser text = some ⟨root, false⟩ → root.Everywhere (Node.Shaped text)
  /-- Modifiers stand in a row at the front of a declaration, and in front of it ends no word. -/
  seamed : ∀ {text root}, parser text = some ⟨root, false⟩ →
    ∀ n ∈ root.children, n.Everywhere (Node.Seamed text)
  /-- Nor does one end in front of a declaration at the top. -/
  top : ∀ {text root}, parser text = some ⟨root, false⟩ →
    ∀ n ∈ root.children, n.kind.isOneOf declarationForms → Loose text n.span.start

theorem grammar_keepsSeams : grammar.KeepsSeams where
  shaped h := shaped_of_parse (grammar_eq_some_iff.1 h).1
  seamed h n hn := (seamed_of_parse (grammar_eq_some_iff.1 h).1 n hn).1
  top h n hn := (seamed_of_parse (grammar_eq_some_iff.1 h).1 n hn).2

end JakartaCheck.Java
