import JakartaCheck.Java.Reading
import JakartaCheck.Proofs.JavaRules
import JakartaCheck.Proofs.TokenPlaces

/-!
# The items of a source

A source is read item by item (`parse_eq_some_iff`). An item ends in a semicolon or a closing
brace outside brackets, so in front of a declaration the items before it are read alike whatever
follows (`parsed_replace`). An import or a package is itself read alike whatever follows
(`Heading.gives`), and an import that is written out is read as one (`gives_import`).
-/

namespace JakartaCheck.Java

open Phrase

/-! ### Sources as sequences of items -/

/-- An item of a source. -/
def topItem : Phrase Symbol := .rule .topLevel

/-- The tokens of some pieces of a source. -/
def tokensOf (pieces : List (List Token × List Node)) : List Token := pieces.flatMap (·.1)

/-- The nodes of some pieces of a source. -/
def itemsOf (pieces : List (List Token × List Node)) : List Node := pieces.flatMap (·.2)

/-- The tree of a source with these nodes. -/
def programOf (place : Span) (children : List Node) : Node :=
  .mk (.form .program) none place children

theorem parse_eq_some_iff {text : String} {root : Node} :
    parse text = some root ↔ ∃ tokens last pieces, tokenize text = some (tokens, last) ∧
      Parsed production topItem tokens pieces ∧
      root = programOf ⟨0, Text.length text⟩ (itemsOf pieces ++ last) := by
  have fit : (Phrase.many topItem).fits callDepth depthPerToken = true := by decide +kernel
  have fitItem : topItem.fits callDepth depthPerToken = true := by decide +kernel
  have enough : ∀ tokens : List Token,
      depthPerToken * tokens.length + (Phrase.many topItem).cost callDepth ≤
        depthPerToken * (tokens.length + 2) := by
    intro tokens
    have : (Phrase.many topItem).cost callDepth = 79 := by decide +kernel
    rw [this, Nat.mul_add]
    have : depthPerToken = 400 := rfl
    omega
  unfold parse Phrase.parse
  constructor
  · intro h
    split at h
    · cases h
    · rename_i tokens last scanned
      split at h
      · rename_i items ran
        cases h
        obtain ⟨pieces, parsed, rfl⟩ :=
          parsed_of_run production_bounded fitItem (by decide +kernel) (enough tokens) ran
        exact ⟨tokens, last, pieces, scanned, parsed, rfl⟩
      · cases h
  · rintro ⟨tokens, last, pieces, scanned, parsed, rfl⟩
    have ran := production_bounded.run_eq fit (enough tokens) parsed.gives
    simp only [scanned]
    rw [show Phrase.rule Symbol.topLevel = topItem from rfl, ran]
    rfl

theorem parsed_split {tokens : List Token} {before after : List (List Token × List Node)}
    (h : Parsed production topItem tokens (before ++ after)) :
    ∃ rest, tokens = tokensOf before ++ rest ∧ Parsed production topItem rest after := by
  induction before generalizing tokens with
  | nil => exact ⟨tokens, rfl, h⟩
  | cons piece before ih =>
    cases h with
    | piece first more =>
      obtain ⟨rest, rfl, parsed⟩ := ih more
      exact ⟨rest, by simp [tokensOf], parsed⟩

/-! ### Ends of items -/

section Item

variable {used rest rest' : List Token} {items : List Node}

/-- An item reads something, ends in a stop and leaves no bracket open. -/
theorem closes_of_gives (h : Gives production topItem (used ++ rest) (some (items, rest))) :
    used ≠ [] ∧ Closes used ∧
      ((∀ t ∈ used, t.shape.Plain) → balance used = 0) := by
  obtain ⟨used', split, reads⟩ := h.reads
  obtain rfl := List.append_cancel_right split
  have some : used ≠ [] := by
    rintro rfl
    have : topItem.nullable = true := (reads.nullable production_solid rfl).1
    cases this
  refine ⟨some, ?_, fun plain => ?_⟩
  · exact reads.mustStop production_solid production_mustEnd rfl some
  · exact reads.balance production_even plain rfl

theorem reaches_of_parsed {tokens : List Token} {before after : List (List Token × List Node)}
    (h : Parsed production topItem tokens (before ++ after)) (some : before ≠ [])
    (plain : ∀ t ∈ tokensOf before, t.shape.Plain) : Border.Reaches 0 (tokensOf before) := by
  induction before generalizing tokens with
  | nil => exact absurd rfl some
  | cons piece before ih =>
    cases h with
    | @piece used rest items _ first more =>
      have eq : tokensOf ((used, items) :: before) = used ++ tokensOf before := by simp [tokensOf]
      rw [eq] at plain ⊢
      obtain ⟨-, closes, even⟩ := closes_of_gives first
      have even := even fun t ht => plain t (List.mem_append_left _ ht)
      by_cases hb : before = []
      · subst hb
        rw [tokensOf, List.flatMap_nil, List.append_nil] at plain ⊢
        exact ⟨plain, closes, even⟩
      · have tail := ih more hb fun t ht => plain t (List.mem_append_right _ ht)
        have nonempty : tokensOf before ≠ [] := by
          intro none
          obtain ⟨t, last, -⟩ := tail.closes
          rw [none] at last
          cases last
        refine ⟨plain, (closes_append nonempty).2 tail.closes, ?_⟩
        rw [balance_append, even, tail.depth]
        rfl

/-- In front of a declaration the items before it are read alike, whatever declaration it is. -/
theorem parsed_replace {before after after' : List (List Token × List Node)}
    (h : Parsed production topItem (tokensOf before ++ rest) (before ++ after))
    (plain : ∀ t ∈ tokensOf before, t.shape.Plain) (hr : declarationBorder.Blocks rest)
    (hr' : declarationBorder.Blocks rest') (h' : Parsed production topItem rest' after') :
    Parsed production topItem (tokensOf before ++ rest') (before ++ after') := by
  induction before with
  | nil => exact h'
  | cons piece before ih =>
    obtain ⟨used, items⟩ := piece
    have eq : tokensOf ((used, items) :: before) = used ++ tokensOf before := by simp [tokensOf]
    have reaches := reaches_of_parsed h (List.cons_ne_nil _ _) plain
    rw [eq] at plain reaches
    rw [eq, List.append_assoc] at h ⊢
    generalize split : used ++ (tokensOf before ++ rest) = tokens at h
    cases h with
    | @piece _ mid _ _ first more =>
      obtain rfl := List.append_cancel_left split
      refine .piece ?_ (ih more fun t ht => plain t (List.mem_append_right _ ht))
      -- the run of the first item ends before the border, which the items behind it reach
      obtain ⟨n, hn⟩ := first
      refine ⟨n, fun fuel hf => ?_⟩
      have ran := hn fuel hf
      rw [← List.append_assoc] at ran ⊢
      exact declarationBorder_tame.run_agrees hr hr' rfl rfl reaches ran

end Item

/-! ### Kinds of items -/

/-- The patterns that fit a word or mark with one of the texts. -/
def fitsOne (texts : List String) : Pattern → Bool
  | .text s => texts.contains s
  | .word except => texts.any fun s => !except.contains s
  | .literal _ => false

/-- The patterns that fit something else. -/
def fitsOther (texts : List String) : Pattern → Bool
  | .text s => !texts.contains s
  | .word _ => true
  | .literal _ => true

theorem fitsOne_of_accepts {texts : List String} {shape : Shape} (h : shape.text ∈ texts)
    (empty : "" ∉ texts) (pattern : Pattern) (accepted : pattern.accepts shape) :
    fitsOne texts pattern = true := by
  cases pattern with
  | text s =>
    rw [Pattern.text_of_accepts accepted] at h
    simpa [fitsOne] using h
  | word except =>
    cases shape with
    | word text =>
      simp only [fitsOne, List.any_eq_true]
      exact ⟨text, h, by simpa [Pattern.accepts] using accepted⟩
    | mark text => cases accepted
    | literal form => cases accepted
  | literal form =>
    cases shape with
    | word text => cases accepted
    | mark text => cases accepted
    | literal form => exact absurd h empty

theorem fitsOther_of_accepts {texts : List String} {shape : Shape} (h : shape.text ∉ texts)
    (pattern : Pattern) (accepted : pattern.accepts shape) : fitsOther texts pattern = true := by
  cases pattern with
  | text s =>
    rw [Pattern.text_of_accepts accepted] at h
    simpa [fitsOther] using h
  | word except => rfl
  | literal form => rfl

/-- The alternative of statements with that number reads all items with a node of the form. -/
structure Reader (form : Form) (place : Nat) (p : Phrase Symbol) : Prop where
  here : statement.alternatives =
    statement.alternatives.take place ++ p :: statement.alternatives.drop (place + 1)
  alone : ((statement.alternatives.take place ++ statement.alternatives.drop (place + 1)).all
    fun o => !o.mayYield form (ruleYields production form 1)) = true
  noMethod : (declared [methodStep]).mayYield form (ruleYields production form 1) = false
  plain : form ≠ .lineComment ∧ form ≠ .blockComment

theorem import_reader : Reader .importDeclaration 16 importDeclaration :=
  ⟨rfl, by decide +kernel, by decide +kernel, by decide⟩

theorem package_reader : Reader .packageDeclaration 15 packageDeclaration :=
  ⟨rfl, by decide +kernel, by decide +kernel, by decide⟩

/-- The forms of declared types. -/
def typeForms : List Form :=
  [.classDeclaration, .interfaceDeclaration, .enumDeclaration, .recordDeclaration,
    .annotationTypeDeclaration]

theorem type_reader {form : Form} (h : form ∈ typeForms) :
    Reader form 19 (declared (typeSteps ++ [localStep])) := by
  have alone : ∀ f ∈ typeForms,
      ((statement.alternatives.take 19 ++ statement.alternatives.drop 20).all
        fun o => !o.mayYield f (ruleYields production f 1)) = true := by decide +kernel
  have noMethod : ∀ f ∈ typeForms,
      (declared [methodStep]).mayYield f (ruleYields production f 1) = false := by decide +kernel
  have plain : ∀ f ∈ typeForms, f ≠ .lineComment ∧ f ≠ .blockComment := by decide
  exact ⟨rfl, alone form h, noMethod form h, plain form h⟩

section Kinds

variable {form : Form} {place : Nat} {p : Phrase Symbol} {used rest : List Token}
  {items : List Node} {n : Node}

/-- An item with a node of the form is read by that alternative. -/
theorem Reader.gives (reader : Reader form place p)
    (h : Gives production topItem (used ++ rest) (some (items, rest)))
    (comments : ∀ t ∈ used, ∀ c ∈ t.comments, c.isComment = true) (mem : n ∈ items)
    (hn : n.kind = .form form) : Gives production p (used ++ rest) (some (items, rest)) := by
  have notComment : n.isComment = false := by
    simp [Node.isComment, Node.hasForm, hn, reader.plain.1, reader.plain.2]
  have cannot : ∀ o : Phrase Symbol, o.mayYield form (ruleYields production form 1) = false →
      ∀ fuel, run production fuel o (used ++ rest) ≠ some (items, rest) := by
    intro o quiet fuel ran
    obtain ⟨used', split, reads⟩ := reads_of_run ran
    obtain rfl := List.append_cancel_right split
    rw [reads.mayYield comments mem notComment hn 1] at quiet
    cases quiet
  -- an item is a statement or else a method, and neither methods nor other statements build the form
  have top : Gives production (.rule .statement) (used ++ rest) (some (items, rest)) := by
    refine (gives_rule_iff.1 h).alternative
      (show (production .topLevel).alternatives =
        [] ++ .rule .statement :: [declared [methodStep]] from rfl) fun o mem => ?_
    rw [List.nil_append, List.mem_singleton] at mem
    rw [mem]
    exact cannot _ reader.noMethod
  refine (gives_rule_iff.1 top).alternative reader.here fun o mem => ?_
  exact cannot o (by simpa using List.all_eq_true.1 reader.alone o mem)

/-- An alternative is taken where none before it can start. -/
theorem Reader.gives_topItem (reader : Reader form place p) {texts : List String}
    (first : ((statement.alternatives.take place).all fun o => !o.nullable &&
      !o.mayStart (fitsOne texts) (ruleStarts production (fitsOne texts) 3)) = true)
    (empty : "" ∉ texts) {t : Token} (ht : t.shape.text ∈ texts) {tail : List Token}
    (h : Gives production p (t :: tail) (some (items, rest))) :
    Gives production topItem (t :: tail) (some (items, rest)) := by
  have inStatement : Gives production statement (t :: tail) (some (items, rest)) := by
    refine h.of_alternative reader.here fun o mem => gives_of_none fun fuel => ?_
    have fails := List.all_eq_true.1 first o mem
    simp only [Bool.and_eq_true, Bool.not_eq_true'] at fails
    exact run_eq_none_of_mayStart production_solid (fitsOne_of_accepts ht empty) 3 fails.1 fails.2
      fuel tail
  exact gives_rule_iff.2 (Gives.first (gives_rule_iff.2 inStatement))

end Kinds

/-! ### Imports and packages -/

theorem reads_all_last {p : Phrase Symbol} {ps : List (Phrase Symbol)} {used : List Token}
    {items : List Node} (h : Reads production (all ps) used items) (last : ps.getLast? = some p) :
    ∃ us vs is js, used = us ++ vs ∧ items = is ++ js ∧ Reads production p vs js := by
  match ps with
  | [] => cases last
  | [q] =>
    cases last
    exact ⟨[], used, [], items, rfl, rfl, h⟩
  | q :: q' :: ps =>
    rw [all] at h
    · cases h with
      | @seq _ _ us vs is js _ second =>
        obtain ⟨us', vs', is', js', rfl, rfl, reads⟩ :=
          reads_all_last second (by rwa [List.getLast?_cons_cons] at last)
        exact ⟨us ++ us', vs', is ++ is', js', by simp, by simp, reads⟩
    · simp

/-- What imports and packages have in common: a node around phrases, the last of which is a
semicolon, that starts with one of the texts. -/
structure Heading (form : Form) (place : Nat) (texts : List String)
    (parts : List (Phrase Symbol)) : Prop where
  reader : Reader form place (.node form (all parts))
  ends : parts.getLast? = some ";"
  empty : "" ∉ texts
  starts : (Phrase.node form (all parts)).mayStart (fitsOther texts)
    (ruleStarts production (fitsOther texts) 3) = false
  first : ((statement.alternatives.take place).all fun o => !o.nullable &&
    !o.mayStart (fitsOne texts) (ruleStarts production (fitsOne texts) 3)) = true
  balanced : (all parts).balanced = true ∧ (all parts).net = 0
  safe : openBorder.safe 0 (all parts) = true
  silent : (all parts).silent = true
  solid : (all parts).nullable = false

theorem import_heading : Heading .importDeclaration 16 ["import"]
    ["import", opt "static", .rule .dottedName, opt (all [".", leaf .asterisk "*"]), ";"] :=
  ⟨import_reader, rfl, by decide, by decide +kernel, by decide +kernel, by decide +kernel,
    by decide +kernel, by decide +kernel, by decide +kernel⟩

theorem package_heading : Heading .packageDeclaration 15 ["package", "@"]
    [annotations, "package", .rule .dottedName, ";"] :=
  ⟨package_reader, rfl, by decide, by decide +kernel, by decide +kernel, by decide +kernel,
    by decide +kernel, by decide +kernel, by decide +kernel⟩

section Headings

variable {form : Form} {place : Nat} {texts : List String} {parts : List (Phrase Symbol)}
  {used rest : List Token} {items : List Node} {n : Node}

theorem Heading.of_reads (heading : Heading form place texts parts)
    (reads : Reads production (.node form (all parts)) used items)
    (comments : ∀ t ∈ used, ∀ c ∈ t.comments, c.isComment = true) :
    ∃ t tail front last children, used = t :: tail ∧ used = front ++ [last] ∧
      t.shape.text ∈ texts ∧ last.shape.text = ";" ∧
      items = t.comments ++ [.mk (.form form) none ⟨t.span.start, last.span.stop⟩ children] := by
  have text : ∀ t tail, used = t :: tail → t.shape.text ∈ texts := by
    intro t tail eq
    by_contra other
    have := reads.mayStart production_solid (fitsOther_of_accepts other) eq 3
    rw [heading.starts] at this
    cases this
  cases reads with
  | node inner =>
    have nonempty : used ≠ [] := by
      rintro rfl
      have := (inner.nullable production_solid rfl).1
      rw [heading.solid] at this
      cases this
    obtain ⟨t, tail, rfl⟩ := List.exists_cons_of_ne_nil nonempty
    have ownComments := comments t List.mem_cons_self
    obtain ⟨us, vs, is, js, split, rfl, semicolon⟩ := reads_all_last inner heading.ends
    cases semicolon with
    | @token _ _ last accepted =>
      have leads := inner.leads production_solid production_silent heading.silent rfl ownComments
      obtain ⟨children, final, eq, hfinal, enclosed⟩ := leads.enclose_eq ownComments form
      have whole := congrArg List.getLast? eq
      rw [List.getLast?_append (l := t.comments), hfinal] at whole
      obtain rfl : Node.mk (.token ";") none last.span [] = final := by simpa using whole
      exact ⟨t, tail, us, last, children, rfl, split, text t tail rfl,
        Pattern.text_of_accepts accepted, enclosed⟩

/-- An import or a package is read alike whatever follows. -/
theorem Heading.gives (heading : Heading form place texts parts)
    (h : Gives production topItem (used ++ rest) (some (items, rest)))
    (plain : ∀ t ∈ used, t.shape.Plain)
    (comments : ∀ t ∈ used, ∀ c ∈ t.comments, c.isComment = true) (mem : n ∈ items)
    (hn : n.kind = .form form) (rest' : List Token) :
    Gives production topItem (used ++ rest') (some (items, rest')) := by
  have read := heading.reader.gives h comments mem hn
  obtain ⟨used', split, reads⟩ := read.reads
  obtain rfl := List.append_cancel_right split
  obtain ⟨t, tail, front, last, children, rfl, eq, text, -, -⟩ := heading.of_reads reads comments
  obtain ⟨-, closes, even⟩ := closes_of_gives h
  have read' : Gives production (.node form (all parts)) (t :: tail ++ rest')
      (some (items, rest')) := by
    obtain ⟨m, hm⟩ := read
    refine ⟨m, fun fuel hf => ?_⟩
    exact openBorder_tame.run_agrees (p := .node form (all parts)) (Y := [])
      (openBorder_blocks rest) (openBorder_blocks rest') heading.balanced.1 heading.safe
      ⟨plain, closes, even plain⟩ (hm fuel hf)
  exact heading.reader.gives_topItem heading.first heading.empty text read'

/-- The place of an import or a package, and its first and last tokens. -/
theorem Heading.place_eq (heading : Heading form place texts parts)
    (h : Gives production topItem (used ++ rest) (some (items, rest)))
    (comments : ∀ t ∈ used, ∀ c ∈ t.comments, c.isComment = true) (mem : n ∈ items)
    (hn : n.kind = .form form) :
    ∃ t tail front last, used = t :: tail ∧ used = front ++ [last] ∧ t.shape.text ∈ texts ∧
      last.shape.text = ";" ∧ n.span.stop = last.span.stop := by
  obtain ⟨used', split, reads⟩ := (heading.reader.gives h comments mem hn).reads
  obtain rfl := List.append_cancel_right split
  obtain ⟨t, tail, front, last, children, rfl, eq, text, semicolon, rfl⟩ :=
    heading.of_reads reads comments
  refine ⟨t, tail, front, last, rfl, eq, text, semicolon, ?_⟩
  rcases List.mem_append.1 mem with mem | mem
  · have := comments t List.mem_cons_self n mem
    simp [Node.isComment, Node.hasForm, hn, heading.reader.plain.1, heading.reader.plain.2] at this
  · rw [List.mem_singleton.1 mem]
    rfl

end Headings

/-! ### Declared types -/

/-- An item that declares a type: how it starts, and its only node. -/
theorem type_item {used rest : List Token} {items : List Node} {n : Node} {form : Form}
    (h : Gives production topItem (used ++ rest) (some (items, rest)))
    (comments : ∀ t ∈ used, ∀ c ∈ t.comments, c.isComment = true) (mem : n ∈ items)
    (hn : n.kind = .form form) (hf : form ∈ typeForms) :
    ∃ t tail, used = t :: tail ∧ t.shape.text ∈ declarationStarts ∧ items = t.comments ++ [n] ∧
      n.span.start = t.span.start := by
  have nonempty := (closes_of_gives h).1
  obtain ⟨t, tail, rfl⟩ := List.exists_cons_of_ne_nil nonempty
  have ownComments := comments t List.mem_cons_self
  obtain ⟨used', split, reads⟩ := ((type_reader hf).gives h comments mem hn).reads
  obtain rfl := List.append_cancel_right split
  have notComment : n.isComment = false := by
    simp [Node.isComment, Node.hasForm, hn, (type_reader hf).plain.1, (type_reader hf).plain.2]
  have leads := reads.leads production_solid production_silent (by decide +kernel) rfl ownComments
  generalize eq : t :: tail = used at reads
  cases reads with
  | @fork _ step _ form' label us vs is js start memStep next =>
    obtain rfl : form' = form :=
      Kind.form.inj ((enclosed_of_mem mem notComment).1.symm.trans hn)
    -- the local variables are the only step that builds no type
    have memType : (form', label, step) ∈ typeSteps := by
      rcases List.mem_append.1 memStep with memStep | memStep
      · exact memStep
      · rw [List.mem_singleton] at memStep
        cases memStep
        exact absurd hf (by decide)
    refine ⟨t, tail, eq.symm, ?_, ?_⟩
    · -- modifiers and keywords of types start with no other text
      by_contra other
      have := (Reads.fork start memType next).mayStart production_solid
        (fitsOther_of_accepts other) eq.symm 3
      rw [show (Phrase.fork (opt (.rule .modifiers)) typeSteps).mayStart _ _ = false by
        decide +kernel] at this
      cases this
    · obtain ⟨front, single, onlyComments⟩ := enclose_single mem notComment
      obtain ⟨m, after, items, isNode, begins⟩ := leads
      have both := congrArg (List.dropWhile Node.isComment) (single.symm.trans items)
      rw [List.dropWhile_append_of_pos onlyComments, List.dropWhile_append_of_pos ownComments,
        List.dropWhile_cons, List.dropWhile_cons, if_neg (by simp [notComment]),
        if_neg (by simp [isNode])] at both
      cases both
      exact ⟨items, begins⟩

/-! ### An import that is written out -/

/-- A plain or dotted name at a place. -/
structure NamedAt (span : Span) (n : Node) : Prop where
  form : isName n = true
  place : n.span = span
  noCall : ∀ m ∈ n.preorder, m.hasForm .methodInvocation = false

theorem NamedAt.not_comment {span : Span} {n : Node} (h : NamedAt span n) :
    n.isComment = false := by
  have form := h.form
  simp only [isName, Node.hasForm, Bool.or_eq_true, beq_iff_eq] at form
  rcases form with form | form
  all_goals simp [Node.isComment, Node.hasForm, form]

theorem NamedAt.next {span : Span} {n : Node} (h : NamedAt span n) (dot part : Span) :
    ∃ m, Node.enclose .scopedIdentifier (named (some .scope) [n] ++
        ([Node.mk (.token ".") none dot []] ++
          Node.setField .name [.mk (.form .identifier) none part []])) = [m] ∧
      NamedAt ⟨span.start, part.stop⟩ m := by
  obtain ⟨kind, field, place, children⟩ := n
  have comment := h.not_comment
  have relabelled : (Node.mk kind (some .scope) place children).isComment = false := comment
  obtain rfl : place = span := h.place
  refine ⟨.mk (.form .scopedIdentifier) none ⟨place.start, part.stop⟩
    [.mk kind (some .scope) place children, .mk (.token ".") none dot [],
      .mk (.form .identifier) (some .name) part []], ?_, rfl, rfl, ?_⟩
  · simp only [Phrase.named, Node.setField, List.map_cons, List.map_nil, comment,
      Bool.false_eq_true, if_false, Node.enclose, List.cons_append, List.nil_append,
      List.dropWhile_cons, List.takeWhile_cons, relabelled]
    rfl
  · have noCall := h.noCall
    rw [Node.preorder_mk, List.forall_mem_cons] at noCall
    intro m hm
    simp only [Node.preorder_mk, List.flatMap_cons, List.flatMap_nil, List.mem_cons,
      List.mem_append, List.not_mem_nil, or_false] at hm
    rcases hm with rfl | (rfl | hm) | rfl | rfl
    · rfl
    · exact noCall.1
    · exact noCall.2 m hm
    · rfl
    · rfl

theorem grows_nameTail {pos : Nat} {span : Span} {n : Node} (h : NamedAt span n)
    (hpos : span.stop = pos) (parts : List (List Char)) :
    ∃ stop m, stop = pos + Text.byteLen (parts.flatMap ('.' :: ·)) ∧
      NamedAt ⟨span.start, stop⟩ m ∧ ∀ rest,
      Grows production [(.scopedIdentifier, some .scope, all [".", .field .name anyName])] [n]
        (nameTail pos parts ++ rest)
        (some ([m], ⟨[], .mark ";", ⟨stop, stop + 1⟩⟩ :: rest)) := by
  induction parts generalizing pos span n with
  | nil =>
    subst hpos
    exact ⟨span.stop, n, rfl, h, fun rest => (Gives.seq_none (gives_token_none rfl)).stops [n]⟩
  | cons part parts ih =>
    obtain ⟨m, enclosed, named⟩ :=
      h.next ⟨pos, pos + 1⟩ ⟨pos + 1, pos + 1 + Text.byteLen part⟩
    obtain ⟨stop, m', eq, named', grows⟩ := ih named rfl
    refine ⟨stop, m', ?_, named', fun rest => ?_⟩
    · rw [eq, List.flatMap_cons, Text.byteLen_append, Text.byteLen_cons]
      have : '.'.utf8Size = 1 := rfl
      dsimp only
      omega
    · have step : Gives production (all [".", .field .name anyName])
          (nameTail pos (part :: parts) ++ rest)
          (some ([.mk (.token ".") none ⟨pos, pos + 1⟩ []] ++
            Node.setField .name
              [.mk (.form .identifier) none ⟨pos + 1, pos + 1 + Text.byteLen part⟩ []],
            nameTail (pos + 1 + Text.byteLen part) parts ++ rest)) :=
        Gives.seq (gives_token rfl) (Gives.field (gives_token rfl))
      refine step.grows ?_
      rw [enclosed]
      exact grows rest

/-- A node of an import of a dotted name. -/
structure ImportedAt (pos : Nat) (name : Span) (n : Node) : Prop where
  kind : n.kind = .form .importDeclaration
  place : n.span = ⟨pos, name.stop + 1⟩
  children : ∃ path : Node, NamedAt name path ∧ n.children =
    [.mk (.token "import") none ⟨pos, pos + 6⟩ [], path,
      .mk (.token ";") none ⟨name.stop, name.stop + 1⟩ []]

/-- An import that is written out is read as one, whatever follows. -/
theorem gives_import (pos : Nat) (pending : List Node)
    (comments : ∀ c ∈ pending, c.isComment = true) {first : List Char}
    (parts : List (List Char)) (hfirst : isIdentifier first = true) :
    ∃ n, ImportedAt pos
        ⟨pos + 7, pos + 7 + Text.byteLen (first ++ parts.flatMap ('.' :: ·))⟩ n ∧
      ∀ rest, Gives production topItem (importTokens pos pending first parts ++ rest)
        (some (pending.reverse ++ [n], rest)) := by
  have notStatic : (Pattern.text "static").accepts (.word (String.ofList first)) = false := by
    cases first with
    | nil => cases hfirst
    | cons c first =>
      obtain ⟨-, -, noKeyword⟩ := isIdentifier_cons hfirst
      simp only [Pattern.accepts, beq_eq_false_iff_ne]
      intro eq
      rw [← eq] at noKeyword
      exact noKeyword (by decide)
  have start : NamedAt ⟨pos + 7, pos + 7 + Text.byteLen first⟩
      (.mk (.form .identifier) none ⟨pos + 7, pos + 7 + Text.byteLen first⟩ []) :=
    ⟨rfl, rfl, by simp [Node.preorder_mk, Node.hasForm, Node.kind]⟩
  obtain ⟨stop, path, rfl, named, grows⟩ := grows_nameTail start rfl parts
  rw [Text.byteLen_append, ← Nat.add_assoc]
  generalize pos + 7 + Text.byteLen first + Text.byteLen (parts.flatMap ('.' :: ·)) = stop
    at named grows ⊢
  refine ⟨.mk (.form .importDeclaration) none ⟨pos, stop + 1⟩
    [.mk (.token "import") none ⟨pos, pos + 6⟩ [], path,
      .mk (.token ";") none ⟨stop, stop + 1⟩ []], ⟨rfl, rfl, path, named, rfl⟩, fun rest => ?_⟩
  have name : Gives production (.rule .dottedName)
      (⟨[], .word (String.ofList first), ⟨pos + 7, pos + 7 + Text.byteLen first⟩⟩ ::
        (nameTail (pos + 7 + Text.byteLen first) parts ++ rest))
      (some ([path], ⟨[], .mark ";", ⟨stop, stop + 1⟩⟩ :: rest)) :=
    gives_rule_iff.2 (Gives.chain (gives_token rfl) (grows rest))
  have ending : Gives production (all [opt (all [".", leaf .asterisk "*"]), ";"])
      (⟨[], .mark ";", ⟨stop, stop + 1⟩⟩ :: rest)
      (some ([] ++ [.mk (.token ";") none ⟨stop, stop + 1⟩ []], rest)) :=
    (Gives.opt_none (Gives.seq_none (gives_token_none rfl))).seq (gives_token rfl)
  have body : Gives production importDeclaration (importTokens pos pending first parts ++ rest)
      (some (Node.enclose .importDeclaration (pending.reverse ++
        [.mk (.token "import") none ⟨pos, pos + 6⟩ []] ++ ([] ++ ([path] ++ ([] ++
          [.mk (.token ";") none ⟨stop, stop + 1⟩ []])))), rest)) := by
    exact Gives.node ((gives_token rfl).seq
      ((Gives.opt_none (gives_token_none notStatic)).seq (name.seq ending)))
  have commentsReversed : ∀ c ∈ pending.reverse, c.isComment = true := fun c hc =>
    comments c (List.mem_reverse.1 hc)
  rw [List.append_assoc, enclose_comments commentsReversed] at body
  exact import_reader.gives_topItem import_heading.first import_heading.empty
    (by simp [Shape.text]) body

end JakartaCheck.Java
