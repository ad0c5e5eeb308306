import JakartaCheck.Proofs.GrammarTrees
import JakartaCheck.Proofs.JavaRules
import JakartaCheck.Proofs.SourceLayout
import JakartaCheck.Proofs.TreeShape

/-!
# The trees of sources

The tree of a source has the shape of a concrete syntax tree: its nodes are arranged
(`Node.Arranged`), comments are leaves (`Node.Bare`) and declarations are complete (`Node.Regular`).
Tokens and comments stand in a row in the text (`tokensFrom_chained`), and a phrase keeps the nodes
that it builds in this row.
-/

namespace JakartaCheck.Java

variable {text : String} {lo mid hi : Nat}

/-! ### Spans in a row -/

/-- The spans cut pieces out of the text one after the other, all between two offsets. -/
def Chained (text : String) (lo hi : Nat) : List Span → Prop
  | [] => lo ≤ hi
  | s :: ss => lo ≤ s.start ∧ s.Fits text ∧ Chained text s.stop hi ss

namespace Chained

variable {s : Span} {as bs : List Span}

theorem le (h : Chained text lo hi as) : lo ≤ hi := by
  induction as generalizing lo with
  | nil => exact h
  | cons s ss ih =>
    obtain ⟨start, fits, rest⟩ := h
    have := fits.nonempty
    have := ih rest
    omega

theorem mono {lo' hi' : Nat} (hlo : lo' ≤ lo) (hhi : hi ≤ hi') (h : Chained text lo hi as) :
    Chained text lo' hi' as := by
  induction as generalizing lo lo' with
  | nil => exact Nat.le_trans hlo (Nat.le_trans h hhi)
  | cons s ss ih =>
    obtain ⟨start, fits, rest⟩ := h
    exact ⟨Nat.le_trans hlo start, fits, ih (Nat.le_refl _) rest⟩

theorem append_iff :
    Chained text lo hi (as ++ bs) ↔ ∃ mid, Chained text lo mid as ∧ Chained text mid hi bs := by
  induction as generalizing lo with
  | nil =>
    exact ⟨fun h => ⟨lo, Nat.le_refl _, h⟩, fun ⟨mid, first, second⟩ =>
      second.mono first (Nat.le_refl _)⟩
  | cons s ss ih =>
    constructor
    · rintro ⟨start, fits, rest⟩
      obtain ⟨mid, first, second⟩ := ih.1 rest
      exact ⟨mid, ⟨start, fits, first⟩, second⟩
    · rintro ⟨mid, ⟨start, fits, first⟩, second⟩
      exact ⟨start, fits, ih.2 ⟨mid, first, second⟩⟩

theorem append (first : Chained text lo mid as) (second : Chained text mid hi bs) :
    Chained text lo hi (as ++ bs) :=
  append_iff.2 ⟨mid, first, second⟩

theorem mem (h : Chained text lo hi as) (hs : s ∈ as) :
    s.Fits text ∧ lo ≤ s.start ∧ s.stop ≤ hi := by
  obtain ⟨before, after, rfl⟩ := List.append_of_mem hs
  obtain ⟨mid, first, start, fits, rest⟩ := append_iff.1 h
  exact ⟨fits, Nat.le_trans first.le start, rest.le⟩

theorem ordered (h : Chained text lo hi as) : as.Pairwise fun a b => a.stop ≤ b.start := by
  induction as generalizing lo with
  | nil => exact .nil
  | cons s ss ih =>
    obtain ⟨-, -, rest⟩ := h
    exact List.pairwise_cons.2 ⟨fun b hb => (rest.mem hb).2.1, ih rest⟩

/-- A row reaches from the start of its first span to the end of its last. -/
theorem between {first last : Span} (h : Chained text lo hi as) (hfirst : as.head? = some first)
    (hlast : as.getLast? = some last) (hs : s ∈ as) :
    first.start ≤ s.start ∧ s.stop ≤ last.stop := by
  have nonempty := fun t (ht : t ∈ as) => (h.mem ht).1.nonempty
  constructor
  · obtain ⟨rest, rfl⟩ := List.head?_eq_some_iff.1 hfirst
    rcases List.mem_cons.1 hs with rfl | mem
    · exact Nat.le_refl _
    · have := (List.pairwise_cons.1 h.ordered).1 s mem
      have := nonempty first List.mem_cons_self
      omega
  · obtain ⟨front, rfl⟩ := List.getLast?_eq_some_iff.1 hlast
    rcases List.mem_append.1 hs with mem | mem
    · have := (List.pairwise_append.1 h.ordered).2.2 s mem last (List.mem_singleton_self _)
      have := nonempty last (List.mem_append_right _ (List.mem_singleton_self _))
      omega
    · rw [List.mem_singleton.1 mem]

/-- A row as one span. -/
theorem cover {first last : Span} (h : Chained text lo hi as) (hfirst : as.head? = some first)
    (hlast : as.getLast? = some last) : Chained text lo hi [⟨first.start, last.stop⟩] := by
  obtain ⟨fits, start, -⟩ := h.mem (List.mem_of_head? hfirst)
  obtain ⟨fits', -, stop⟩ := h.mem (List.mem_of_getLast? hlast)
  obtain ⟨-, before⟩ := h.between hfirst hlast (List.mem_of_head? hfirst)
  exact ⟨start, ⟨Nat.lt_of_lt_of_le fits.nonempty before, fits.start_cut, fits'.stop_cut⟩, stop⟩

end Chained

/-! ### Tokens -/

/-- The spans of the comments in front of a token and of the token. -/
def Token.spans (t : Token) : List Span := t.comments.map Node.span ++ [t.span]

/-- Is the node a comment as the scanner makes it? -/
def IsNote (n : Node) : Prop := n.isComment = true ∧ n.field = none ∧ n.children = []

theorem fits_of_cut {pre m post : List Char} (split : text.toList = pre ++ (m ++ post))
    (some : m ≠ []) :
    Span.Fits text ⟨Text.byteLen pre, Text.byteLen pre + Text.byteLen m⟩ where
  nonempty := by
    have := mt Text.byteLen_eq_zero.1 some
    dsimp only
    omega
  start_cut := Text.isBoundary_iff.2 ⟨pre, m ++ post, split, rfl⟩
  stop_cut := Text.isBoundary_iff.2 ⟨pre ++ m, post, by rw [split, List.append_assoc],
    Text.byteLen_append pre m⟩

/-- Tokens and comments stand in a row. -/
theorem tokensFrom_chained {modes : List Mode} {pending last : List Node} {pre cs : List Char}
    {tokens : List Token} (split : text.toList = pre ++ cs)
    (before : Chained text lo (Text.byteLen pre) (pending.reverse.map Node.span))
    (notes : ∀ c ∈ pending, IsNote c)
    (h : tokensFrom (Text.byteLen pre) modes pending cs = some (tokens, last)) :
    Chained text lo (Text.length text) (tokens.flatMap Token.spans ++ last.map Node.span) ∧
      (∀ t ∈ tokens, ∀ c ∈ t.comments, IsNote c) ∧ ∀ c ∈ last, IsNote c := by
  induction hlen : cs.length using Nat.strongRecOn generalizing lo modes pending pre cs tokens with
  | _ len ih =>
    cases cs with
    | nil =>
      simp only [tokensFrom_nil, Option.some.injEq, Prod.mk.injEq] at h
      obtain ⟨rfl, rfl⟩ := h
      have whole : Text.byteLen pre = Text.length text := by
        rw [Text.length_eq, split, List.append_nil]
      rw [whole] at before
      exact ⟨before, nofun, by simpa using notes⟩
    | cons c cs =>
      have shorter := length_drop_lt hlen
      have cut : ∀ n, text.toList = pre ++ ((c :: cs.take n) ++ cs.drop n) := by
        intro n
        rw [List.cons_append, List.take_append_drop, split]
      have stop : ∀ n, Text.byteLen pre + Text.byteLen (c :: cs.take n) =
          Text.byteLen (pre ++ (c :: cs.take n)) := fun n => (Text.byteLen_append _ _).symm
      have split' : ∀ n, text.toList = (pre ++ (c :: cs.take n)) ++ cs.drop n := by
        intro n
        rw [cut n, List.append_assoc]
      have fits : ∀ n, Span.Fits text
          ⟨Text.byteLen pre, Text.byteLen pre + Text.byteLen (c :: cs.take n)⟩ :=
        fun n => fits_of_cut (cut n) (List.cons_ne_nil _ _)
      rw [tokensFrom_cons] at h
      split at h
      · rw [show c.utf8Size = Text.byteLen (c :: cs.take 0) from rfl, stop] at h
        refine ih _ (shorter 0) (split' 0) (before.mono (Nat.le_refl _) ?_) notes h rfl
        rw [← stop]
        omega
      · split at h
        · cases h
        · rename_i form n lexeme
          rw [stop] at h
          refine ih _ (shorter n) (split' n) ?_ (List.forall_mem_cons.2 ⟨?_, notes⟩) h rfl
          · rw [List.reverse_cons, List.map_append]
            have fits := fits n
            rw [stop] at fits
            exact before.append ⟨Nat.le_refl _, fits, Nat.le_refl _⟩
          · refine ⟨?_, rfl, rfl⟩
            rcases lexemeAt_comment lexeme with rfl | rfl <;> rfl
        · rename_i shape n lexeme
          obtain ⟨⟨more, last'⟩, ran, eq⟩ := Option.map_eq_some_iff.1 h
          cases eq
          rw [stop] at ran
          obtain ⟨chained, notes', lastNotes⟩ :=
            ih _ (shorter n) (split' n) (Nat.le_refl _) (by simp) ran rfl
          refine ⟨?_, List.forall_mem_cons.2 ⟨by simpa using notes, notes'⟩, lastNotes⟩
          rw [List.flatMap_cons, List.append_assoc]
          refine Chained.append ?_ chained
          exact before.append ⟨Nat.le_refl _, fits n, Nat.le_of_eq (stop n)⟩

/-! ### Nodes -/

theorem Node.shaped_leaf (text : String) {kind : Kind} {span : Span}
    (plain : typeKind? (.mk kind none span []) = none) :
    (Node.mk kind none span []).Everywhere (Node.Shaped text) := by
  refine Node.everywhere_mk.2 ⟨⟨⟨⟨nofun, nofun, .nil⟩, ?_, nofun⟩, fun _ => ⟨rfl, rfl⟩⟩, nofun⟩
  intro declares
  rw [plain] at declares
  cases declares

theorem map_span_setField (f : Field) (items : List Node) :
    (Node.setField f items).map Node.span = items.map Node.span := by
  rw [Node.setField, List.map_map]
  refine List.map_congr_left fun n _ => ?_
  obtain ⟨kind, field, span, children⟩ := n
  dsimp only [Function.comp_apply]
  split <;> rfl

theorem shaped_setField {f : Field} {items : List Node}
    (shaped : ∀ n ∈ items, n.Everywhere (Node.Shaped text))
    (plain : f = .body → ∀ n ∈ items, n.isComment = false →
      ∀ form ∈ Node.clauseForms, n.hasForm form = false) :
    ∀ n ∈ Node.setField f items, n.Everywhere (Node.Shaped text) := by
  intro n hn
  obtain ⟨⟨kind, field, span, children⟩, mem, rfl⟩ := List.mem_map.1 hn
  obtain ⟨⟨⟨arranged, regular⟩, -⟩, inner⟩ := Node.everywhere_mk.1 (shaped _ mem)
  dsimp only
  split
  · exact shaped _ mem
  · rename_i comment
    refine Node.everywhere_mk.2 ⟨⟨⟨?_, regular.declares, ?_⟩, fun h => absurd h comment⟩, inner⟩
    · exact ⟨arranged.fits, arranged.inside, arranged.ordered⟩
    · intro named
      have here := plain (Option.some.inj named) (.mk kind field span children) mem
      exact here (Bool.eq_false_iff.2 comment)

/-- What is needed to enclose nodes in one of that form. -/
structure Encloses (form : Form) (items : List Node) : Prop where
  plain : form ≠ .lineComment ∧ form ≠ .blockComment
  complete : ∀ field span children, (typeKind? (.mk (.form form) field span children)).isSome →
    ∀ f ∈ [Field.name, Field.body], ∃ n ∈ items, n.isComment = false ∧ n.field = some f

theorem isSome_child? {form : Form} {f : Field} {span : Span} {items : List Node}
    (h : ∃ n ∈ items, n.isComment = false ∧ n.field = some f) :
    ((Node.mk (.form form) none span (items.dropWhile Node.isComment)).child? f).isSome := by
  obtain ⟨n, hn, comment, named⟩ := h
  rw [← List.takeWhile_append_dropWhile (p := Node.isComment) (l := items)] at hn
  rcases List.mem_append.1 hn with hn | hn
  · rw [List.mem_takeWhile_imp hn] at comment
    cases comment
  · exact List.find?_isSome.2 ⟨n, hn, by simp [named]⟩

theorem arranged_of_chained {kind : Kind} {field : Option Field} {children : List Node}
    {first last : Span} (h : Chained text lo hi (children.map Node.span))
    (hfirst : (children.map Node.span).head? = some first)
    (hlast : (children.map Node.span).getLast? = some last) :
    (Node.mk kind field ⟨first.start, last.stop⟩ children).Arranged text where
  fits _ hc := (h.mem (List.mem_map_of_mem hc)).1
  inside _ hc := by
    have between := h.between hfirst hlast (List.mem_map_of_mem hc)
    exact Span.contains_iff.2 between
  ordered := List.pairwise_map.1 h.ordered

theorem shaped_enclose {form : Form} {items : List Node} (encloses : Encloses form items)
    (chained : Chained text lo hi (items.map Node.span))
    (shaped : ∀ n ∈ items, n.Everywhere (Node.Shaped text)) :
    Chained text lo hi ((Node.enclose form items).map Node.span) ∧
      ∀ n ∈ Node.enclose form items, n.Everywhere (Node.Shaped text) := by
  simp only [Node.enclose]
  split
  · rename_i first last hfirst hlast
    rw [← List.takeWhile_append_dropWhile (p := Node.isComment) (l := items), List.map_append]
      at chained
    obtain ⟨mid, notes, body⟩ := Chained.append_iff.1 chained
    have head : ((items.dropWhile Node.isComment).map Node.span).head? = some first.span := by
      rw [List.head?_map, hfirst, Option.map_some]
    have tail : ((items.dropWhile Node.isComment).map Node.span).getLast? = some last.span := by
      rw [List.getLast?_map, hlast, Option.map_some]
    have shapedBody : ∀ n ∈ items.dropWhile Node.isComment, n.Everywhere (Node.Shaped text) :=
      fun n hn => shaped n ((List.dropWhile_sublist _).subset hn)
    constructor
    · rw [List.map_append]
      exact notes.append (body.cover head tail)
    · intro n hn
      rcases List.mem_append.1 hn with hn | hn
      · exact shaped n ((List.takeWhile_sublist _).subset hn)
      · rw [List.mem_singleton.1 hn]
        refine Node.everywhere_mk.2 ⟨⟨⟨?_, ?_, fun named => by cases named⟩, ?_⟩, shapedBody⟩
        · exact arranged_of_chained body head tail
        · intro declares
          have complete := encloses.complete _ _ _ declares
          exact ⟨isSome_child? (complete _ (by simp)), isSome_child? (complete _ (by simp))⟩
        · intro comment
          rcases Node.isComment_iff.1 comment with h | h
          · exact absurd (Kind.form.inj h) encloses.plain.1
          · exact absurd (Kind.form.inj h) encloses.plain.2
  · exact ⟨chained, shaped⟩

/-! ### Phrases -/

/-- The tokens that `parts` take in follow each other, so that together they are one piece. -/
theorem takeGlued_chained {parts : List String} {used : List Token} {stop stop' : Nat}
    (cut : Text.isBoundary text stop) (chained : Chained text stop hi (used.flatMap Token.spans))
    (h : Phrase.takeGlued stop parts used = some (stop', [])) :
    stop ≤ stop' ∧ stop' ≤ hi ∧ Text.isBoundary text stop' := by
  induction parts generalizing stop used with
  | nil =>
    cases h
    exact ⟨Nat.le_refl _, chained, cut⟩
  | cons part parts ih =>
    cases used with
    | nil => cases h
    | cons t used =>
      simp only [Phrase.takeGlued] at h
      split at h
      · rw [List.flatMap_cons] at chained
        obtain ⟨mid, here, rest⟩ := Chained.append_iff.1 chained
        obtain ⟨fits, start, stop⟩ := here.mem (s := t.span) (by simp [Token.spans])
        obtain ⟨le, hi, cut⟩ := ih fits.stop_cut (rest.mono stop (Nat.le_refl _)) h
        have := fits.nonempty
        exact ⟨by omega, hi, cut⟩
      · cases h

/-- The nodes that are read stand in a row where the tokens do, and they have their shape. -/
def KeepsShape (text : String) (used : List Token) (items : List Node) : Prop :=
  (∀ t ∈ used, ∀ c ∈ t.comments, IsNote c) →
    ∀ lo hi, Chained text lo hi (used.flatMap Token.spans) →
      Chained text lo hi (items.map Node.span) ∧ ∀ n ∈ items, n.Everywhere (Node.Shaped text)

theorem IsNote.shaped {n : Node} (h : IsNote n) : n.Everywhere (Node.Shaped text) := by
  obtain ⟨comment, bare, leaf⟩ := h
  obtain ⟨kind, field, span, children⟩ := n
  cases bare
  cases leaf
  refine Node.shaped_leaf text ?_
  rcases Node.isComment_iff.1 comment with h | h
  · cases h
    rfl
  · cases h
    rfl

theorem shaped_comments {t : Token} {n : Node} (notes : ∀ c ∈ t.comments, IsNote c)
    (leaf : n.Everywhere (Node.Shaped text)) :
    ∀ m ∈ t.comments ++ [n], m.Everywhere (Node.Shaped text) := by
  intro m hm
  rcases List.mem_append.1 hm with hm | hm
  · exact (notes m hm).shaped
  · rw [List.mem_singleton.1 hm]
    exact leaf

/-- What the rules of Java make sure of where they build nodes. -/
def treeChecks : Phrase.Checks Symbol where
  token kind := (typeKind? (.mk kind none ⟨0, 0⟩ [])).isNone
  node form p := form != .lineComment && form != .blockComment &&
    ((typeKind? (.mk (.form form) none ⟨0, 0⟩ [])).isNone || p.offers .name && p.offers .body)
  field f p := f != .body ||
    Node.clauseForms.all fun form => !p.mayYield form (Phrase.ruleYields production form 24)
  label f := f != .body

theorem production_passes (s : Symbol) : (production s).passes treeChecks = true := by
  induction s using forall_symbol with
  | listed s mem =>
    revert s
    decide +kernel
  | beyond level arrows ge =>
    rw [production_binary ge]
    rfl

theorem encloses_of_passes {form : Form} {p : Phrase Symbol} {vs : List Token} {is js : List Node}
    (h : treeChecks.node form p = true) (reads : Phrase.Reads production p vs js)
    (notes : ∀ t ∈ vs, ∀ c ∈ t.comments, IsNote c) : Encloses form (is ++ js) := by
  simp only [treeChecks, Bool.and_eq_true, Bool.or_eq_true, bne_iff_ne, Option.isNone_iff_eq_none]
    at h
  obtain ⟨⟨line, block⟩, complete⟩ := h
  refine ⟨⟨line, block⟩, fun field span children declares f hf => ?_⟩
  rcases complete with other | ⟨name, body⟩
  · rw [show typeKind? (.mk (.form form) field span children) = none from other] at declares
    cases declares
  · have offers : p.offers f = true := by
      rcases List.mem_pair.1 hf with rfl | rfl
      · exact name
      · exact body
    obtain ⟨n, hn, named⟩ := reads.offers production_solid production_silent offers
      fun t ht c hc => (notes t ht c hc).1
    exact ⟨n, List.mem_append_right _ hn, named⟩

theorem KeepsShape.append {us vs : List Token} {is js : List Node} (first : KeepsShape text us is)
    (second : KeepsShape text vs js) : KeepsShape text (us ++ vs) (is ++ js) := by
  intro notes lo hi h
  rw [List.flatMap_append] at h
  obtain ⟨mid, before, after⟩ := Chained.append_iff.1 h
  obtain ⟨chained, shaped⟩ := first (fun t ht => notes t (List.mem_append_left _ ht)) _ _ before
  obtain ⟨chained', shaped'⟩ := second (fun t ht => notes t (List.mem_append_right _ ht)) _ _ after
  rw [List.map_append]
  exact ⟨chained.append chained', fun n hn => (List.mem_append.1 hn).elim (shaped n) (shaped' n)⟩

theorem hasForm_of_passes {p : Phrase Symbol} {us : List Token} {is : List Node}
    (h : treeChecks.field .body p = true) (reads : Phrase.Reads production p us is)
    (notes : ∀ t ∈ us, ∀ c ∈ t.comments, IsNote c) {n : Node} (hn : n ∈ is)
    (comment : n.isComment = false) : ∀ form ∈ Node.clauseForms, n.hasForm form = false := by
  intro form hform
  cases found : n.hasForm form with
  | false => rfl
  | true =>
    have none := List.all_eq_true.1 h form hform
    rw [reads.mayYield (fun t ht c hc => (notes t ht c hc).1) hn comment (beq_iff_eq.1 found) 24]
      at none
    cases none

theorem closed_keepsShape (text : String) :
    Phrase.Closed production treeChecks (KeepsShape text) where
  empty _ _ _ h := ⟨h, nofun⟩
  token := by
    intro kind t plain notes lo hi h
    have plain : typeKind? (.mk kind none t.span []) = none := Option.isNone_iff_eq_none.1 plain
    rw [List.flatMap_singleton] at h
    refine ⟨?_, shaped_comments (notes t List.mem_cons_self) (Node.shaped_leaf text plain)⟩
    rw [List.map_append]
    exact h
  glued := by
    intro parts used items ran notes lo hi h
    obtain ⟨part, parts, t, tail, stop, rfl, rfl, -, taken, rfl⟩ := Phrase.runGlued_cases ran
    refine ⟨?_, shaped_comments (notes t List.mem_cons_self) (Node.shaped_leaf text rfl)⟩
    rw [List.flatMap_cons, Token.spans, List.append_assoc] at h
    obtain ⟨mid, comments, start, fits, rest⟩ := Chained.append_iff.1 h
    obtain ⟨le, stop, cut⟩ := takeGlued_chained fits.stop_cut rest taken
    rw [List.map_append]
    exact comments.append ⟨start, ⟨Nat.lt_of_lt_of_le fits.nonempty le, fits.start_cut, cut⟩, stop⟩
  append := KeepsShape.append
  field := by
    intro f p us is passes reads keeps notes lo hi h
    obtain ⟨chained, shaped⟩ := keeps notes lo hi h
    rw [map_span_setField]
    refine ⟨chained, shaped_setField shaped ?_⟩
    rintro rfl n hn comment
    exact hasForm_of_passes passes reads notes hn comment
  label := by
    intro f us is passes keeps notes lo hi h
    obtain ⟨chained, shaped⟩ := keeps notes lo hi h
    rw [map_span_setField]
    refine ⟨chained, shaped_setField shaped ?_⟩
    rintro rfl
    cases passes
  enclose := by
    intro form p us vs is js passes reads before after notes lo hi h
    obtain ⟨chained, shaped⟩ := before.append after notes lo hi h
    exact shaped_enclose (encloses_of_passes passes reads fun t ht =>
      notes t (List.mem_append_right _ ht)) chained shaped

/-! ### Sources -/

theorem tokenize_chained {tokens : List Token} {last : List Node}
    (h : tokenize text = some (tokens, last)) :
    Chained text 0 (Text.length text) (tokens.flatMap Token.spans ++ last.map Node.span) ∧
      (∀ t ∈ tokens, ∀ c ∈ t.comments, IsNote c) ∧ ∀ c ∈ last, IsNote c := by
  unfold tokenize at h
  split at h
  · rename_i cs split
    have mark : Text.byteLen ['\uFEFF'] = 3 := by decide
    rw [← mark] at h
    have split : text.toList = ['\uFEFF'] ++ cs := split
    exact tokensFrom_chained split (Nat.zero_le _) (by simp) h
  · have split : text.toList = [] ++ text.toList := rfl
    exact tokensFrom_chained split (Nat.le_refl _) (by simp) h

/-- The tree of a source is read from all of its tokens. -/
theorem exists_reads_of_parse {root : Node} (h : parse text = some root) :
    ∃ tokens items last, tokenize text = some (tokens, last) ∧
      Phrase.Reads production (.many (.rule .topLevel)) tokens items ∧
      root = .mk (.form .program) none ⟨0, Text.length text⟩ (items ++ last) := by
  unfold parse Phrase.parse at h
  split at h
  · cases h
  · rename_i tokens last scanned
    split at h
    · rename_i items ran
      obtain ⟨used, split, reads⟩ := Phrase.reads_of_run ran
      rw [List.append_nil] at split
      subst split
      exact ⟨tokens, items, last, scanned, reads, (Option.some.inj h).symm⟩
    · cases h

/-- The tree of a source has the shape of a concrete syntax tree. -/
theorem shaped_of_parse {root : Node} (h : parse text = some root) :
    root.Everywhere (Node.Shaped text) := by
  obtain ⟨tokens, items, last, scanned, reads, rfl⟩ := exists_reads_of_parse h
  obtain ⟨chained, notes, lastNotes⟩ := tokenize_chained scanned
  obtain ⟨mid, inside, behind⟩ := Chained.append_iff.1 chained
  have passes : (Phrase.many (.rule Symbol.topLevel)).passes treeChecks = true := rfl
  obtain ⟨inside, shaped⟩ :=
    (reads.closed (closed_keepsShape text) production_passes passes) notes _ _ inside
  have all := inside.append behind
  rw [← List.map_append] at all
  refine Node.everywhere_mk.2 ⟨⟨⟨⟨?_, ?_, ?_⟩, nofun, nofun⟩, nofun⟩, ?_⟩
  · exact fun c hc => (all.mem (List.mem_map_of_mem hc)).1
  · exact fun c hc => Span.contains_iff.2 (all.mem (List.mem_map_of_mem hc)).2
  · exact List.pairwise_map.1 all.ordered
  · exact fun c hc => (List.mem_append.1 hc).elim (shaped c) fun hc => (lastNotes c hc).shaped

end JakartaCheck.Java
