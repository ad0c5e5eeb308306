import JakartaCheck.Proofs.JavaItems

/-!
# A source with a new import

An import put in after another import or a package, or in front of a declared type, leaves the rest
of the tree as it is: nodes up to that place stay, and the nodes behind it move by the length of what
was put in. A parser with which it is so takes imports (`Parser.TakesImports`), and the grammar is one
(`grammar_takesImports`).
-/

namespace JakartaCheck.Java

open Phrase

/-! ### Tokens -/

/-- The tokens of a text, behind the byte order mark if there is one. -/
theorem tokenize_eq (text : String) :
    ∃ mark cs, text.toList = mark ++ cs ∧
      tokenize text = tokensFrom (Text.byteLen mark) [.code 0] [] cs ∧
      (mark = [] → cs.head? ≠ some '\uFEFF') ∧
      ∀ (text' : String) (cs' : List Char), text'.toList = mark ++ cs' →
        (mark = [] → cs'.head? ≠ some '\uFEFF') →
        tokenize text' = tokensFrom (Text.byteLen mark) [.code 0] [] cs' := by
  have plain : ∀ (t : String) (cs : List Char), t.toList = cs → cs.head? ≠ some '\uFEFF' →
      tokenize t = tokensFrom 0 [.code 0] [] cs := by
    intro t cs eq head
    unfold tokenize
    rw [eq]
    split
    · exact absurd rfl head
    · rfl
  by_cases marked : text.toList.head? = some '\uFEFF'
  · obtain ⟨cs, eq⟩ : ∃ cs, text.toList = '\uFEFF' :: cs := by
      cases h : text.toList with
      | nil => simp [h] at marked
      | cons c cs =>
        rw [h] at marked
        cases marked
        exact ⟨cs, rfl⟩
    refine ⟨['\uFEFF'], cs, eq, ?_, nofun, fun text' cs' eq' _ => ?_⟩
    · rw [tokenize, eq]
      rfl
    · rw [tokenize, eq']
      rfl
  · exact ⟨[], text.toList, rfl, plain text _ rfl marked, fun _ => marked,
      fun text' cs' eq' head => plain text' cs' eq' (head rfl)⟩

/-- The text of an import of a dotted name. -/
def importText (first : List Char) (parts : List (List Char)) : List Char :=
  "import ".toList ++ ((first ++ parts.flatMap ('.' :: ·)) ++ [';'])

theorem head?_importText (first : List Char) (parts : List (List Char)) :
    (importText first parts).head? = some 'i' := by
  have : "import ".toList = ['i', 'm', 'p', 'o', 'r', 't', ' '] := by decide
  unfold importText
  rw [this, List.cons_append, List.head?_cons]

section Tokens

variable {pos : Nat} {modes modes' : List Mode} {pending pending' : List Node}
  {tokens tokens' after : List Token} {last : List Node} {w ins rest : List Char}

/-- What is put in between two pieces of a text moves the tokens behind it. -/
theorem tokensFrom_insert (front : Scans pos modes pending w tokens modes' pending')
    (new : Scans (pos + Text.byteLen w) modes' pending' ins tokens' modes' [])
    (back : tokensFrom (pos + Text.byteLen w) modes' [] rest = some (after, last)) :
    tokensFrom pos modes pending (w ++ (ins ++ rest)) =
      some (tokens ++ (tokens' ++
        after.map (Token.relocate (Span.shift (Text.byteLen ins)))),
        last.map (Node.relocate (Span.shift (Text.byteLen ins)))) := by
  have moved := tokensFrom_shift (Text.byteLen ins) (pos + Text.byteLen w) modes' [] rest
  rw [List.map_nil, back] at moved
  rw [front, new, moved]
  rfl

theorem Scans.fits {Q : Span → Prop} (h : Scans pos modes [] w tokens modes' pending')
    (hq : ∀ a b, pos ≤ a → a < b → b ≤ pos + Text.byteLen w → Q ⟨a, b⟩) :
    (∀ t ∈ tokens, t.Fits Q) ∧ ∀ c ∈ pending', c.isComment = true ∧ c.Within Q := by
  have alone := h []
  rw [List.append_nil] at alone
  simp only [tokensFrom_nil, Option.map_some, List.append_nil] at alone
  obtain ⟨fits, comments⟩ := tokensFrom_fits (by simp) hq alone
  exact ⟨fits, fun c hc => comments c (List.mem_reverse.2 hc)⟩

end Tokens

/-! ### Pieces -/

/-- Pieces that have moved. -/
def movedPieces (δ : Nat) (pieces : List (List Token × List Node)) :
    List (List Token × List Node) :=
  pieces.map fun (used, items) =>
    (used.map (Token.relocate (Span.shift δ)), items.map (Node.relocate (Span.shift δ)))

theorem itemsOf_movedPieces (δ : Nat) (pieces : List (List Token × List Node)) :
    itemsOf (movedPieces δ pieces) = (itemsOf pieces).map (Node.relocate (Span.shift δ)) := by
  simp [itemsOf, movedPieces, List.flatMap_map, List.map_flatMap]

theorem parsed_moved {tokens : List Token} {pieces : List (List Token × List Node)}
    (h : Parsed production topItem tokens pieces) (δ : Nat) :
    Parsed production topItem (tokens.map (Token.relocate (Span.shift δ)))
      (movedPieces δ pieces) := by
  induction h with
  | done fails => exact .done fails
  | @piece used rest items pieces first _ ih =>
    rw [List.map_append]
    refine .piece ?_ ih
    obtain ⟨n, hn⟩ := first
    refine ⟨n, fun fuel hf => ?_⟩
    rw [← List.map_append]
    exact run_shift δ fuel (hn fuel hf)

theorem exists_piece {pieces : List (List Token × List Node)} {last : List Node} {n : Node}
    (comments : ∀ c ∈ last, c.isComment = true) (mem : n ∈ itemsOf pieces ++ last)
    (hn : n.isComment = false) :
    ∃ before used items after, pieces = before ++ (used, items) :: after ∧ n ∈ items := by
  rcases List.mem_append.1 mem with mem | mem
  · obtain ⟨⟨used, items⟩, memPieces, memItems⟩ := List.mem_flatMap.1 mem
    obtain ⟨before, after, rfl⟩ := List.append_of_mem memPieces
    exact ⟨before, used, items, after, rfl, memItems⟩
  · rw [comments n mem] at hn
    cases hn

theorem within_itemsOf {Q : Span → Prop} (join : ∀ a b, Q a → Q b → Q ⟨a.start, b.stop⟩)
    {tokens : List Token} {before after : List (List Token × List Node)}
    (h : Parsed production topItem tokens (before ++ after))
    (fits : ∀ t ∈ tokensOf before, t.Fits Q) : ∀ n ∈ itemsOf before, n.Within Q := by
  induction before generalizing tokens with
  | nil => intro n hn; cases hn
  | cons piece before ih =>
    cases h with
    | @piece used rest items _ first more =>
      have eq : tokensOf ((used, items) :: before) = used ++ tokensOf before := by simp [tokensOf]
      rw [eq] at fits
      intro n hn
      rw [itemsOf, List.flatMap_cons, List.mem_append] at hn
      rcases hn with hn | hn
      · obtain ⟨used', split, reads⟩ := first.reads
        obtain rfl := List.append_cancel_right split
        refine reads.within join (fun t ht => ?_) n hn
        have fit := fits t (List.mem_append_left _ ht)
        exact ⟨fit.span, fun c hc => (fit.comments c hc).2⟩
      · exact ih more (fun t ht => fits t (List.mem_append_right _ ht)) n hn

/-! ### Trees -/

/-- The place of a name after `import` and a blank. -/
def importedName (pos : Nat) (first : List Char) (parts : List (List Char)) : Span :=
  ⟨pos + 7, pos + 7 + Text.byteLen (first ++ parts.flatMap ('.' :: ·))⟩

/-- The nodes in front end up to the offset, and those behind start from it on. -/
structure Divides (offset : Nat) (front back : List Node) : Prop where
  front : ∀ n ∈ front, n.Within fun s => s.start < offset ∧ s.stop ≤ offset
  back : ∀ n ∈ back, n.Within fun s => offset ≤ s.start ∧ offset < s.stop

/-- Putting `ins` into the text at `offset` gives the parser a source with a new import at `pos`, and
moves what stands behind. -/
def Parser.AddsImport (parser : Parser) (text : String) (root : Node) (offset : Nat)
    (ins : List Char) (pos : Nat) (first : List Char) (parts : List (List Char)) : Prop :=
  ∃ a b front back, text.toList = a ++ b ∧ Text.byteLen a = offset ∧
    root.children = front ++ back ∧ Divides offset front back ∧
    ∀ text' : String, text'.toList = a ++ (ins ++ b) →
      ∃ new place, ImportedAt pos (importedName pos first parts) new ∧
        parser text' = some ⟨programOf place
          (front ++ new :: back.map (Node.relocate (Span.shift (Text.byteLen ins)))), false⟩

/-- How a parser takes imports into a source without syntax errors. -/
structure Parser.TakesImports (parser : Parser) : Prop where
  /-- A source is a program. -/
  program : ∀ {text root}, parser text = some ⟨root, false⟩ → ∃ place ns, root = programOf place ns
  /-- An import may follow an import or a package, with any blanks between them. -/
  behind : ∀ {text root n gaps first parts}, parser text = some ⟨root, false⟩ → n ∈ root.children →
    n.kind = .form .importDeclaration ∨ n.kind = .form .packageDeclaration →
    (∀ c ∈ gaps, isGap c = true) → (∀ part ∈ first :: parts, isIdentifier part = true) →
    parser.AddsImport text root n.span.stop (gaps ++ importText first parts)
      (n.span.stop + Text.byteLen gaps) first parts
  /-- It may stand in front of a declared type. -/
  before : ∀ {text root n form gaps first parts}, parser text = some ⟨root, false⟩ →
    n ∈ root.children → form ∈ typeForms → n.kind = .form form →
    (∀ c ∈ gaps, isGap c = true) → (∀ part ∈ first :: parts, isIdentifier part = true) →
    parser.AddsImport text root n.span.start (importText first parts ++ gaps) n.span.start first
      parts

section Trees

variable {text : String} {root n : Node} {first gaps : List Char} {parts : List (List Char)}

/-- The tokens in front of the place stay, those behind it move, and the pieces in front are read
as before; then there is one import more. -/
theorem addsImport_of_scans (mark w rest : List Char) {ins : List Char} {pos : Nat}
    {inner : List Mode} {pending last : List Node} {front back more : List (List Token × List Node)}
    {tokens : List Token} (eqText : text.toList = mark ++ (w ++ rest))
    (again : ∀ text' : String, text'.toList = mark ++ (w ++ (ins ++ rest)) →
      tokenize text' = tokensFrom (Text.byteLen mark) [.code 0] [] (w ++ (ins ++ rest)))
    (scans : Scans (Text.byteLen mark) [.code 0] [] w (tokensOf front) inner pending)
    (put : Scans (Text.byteLen mark + Text.byteLen w) inner pending ins
      (importTokens pos pending first parts) inner [])
    (scannedRest : tokensFrom (Text.byteLen mark + Text.byteLen w) inner [] rest =
      some (tokensOf back, last))
    (readFront : Parsed production topItem tokens (front ++ more))
    (readBack : Parsed production topItem (tokensOf back) back)
    (glue : ∀ tokens pieces,
      Parsed production topItem (importTokens pos pending first parts ++ tokens) pieces →
      Parsed production topItem (tokensOf front ++ (importTokens pos pending first parts ++ tokens))
        (front ++ pieces))
    (names : ∀ part ∈ first :: parts, isIdentifier part = true)
    (children : root.children = itemsOf front ++ pending.reverse ++ (itemsOf back ++ last)) :
    grammar.AddsImport text root (Text.byteLen mark + Text.byteLen w) ins pos first parts := by
  obtain ⟨fitsFront, fitsPending⟩ := scans.fits
    (Q := fun s => s.start < Text.byteLen mark + Text.byteLen w ∧
      s.stop ≤ Text.byteLen mark + Text.byteLen w)
    (fun a b _ hab hb => ⟨by dsimp only; omega, hb⟩)
  obtain ⟨fitsBack, fitsLast⟩ := tokensFrom_fits
    (Q := fun s => Text.byteLen mark + Text.byteLen w ≤ s.start ∧
      Text.byteLen mark + Text.byteLen w < s.stop)
    (by simp) (fun a b ha hab _ => ⟨ha, by dsimp only; omega⟩) scannedRest
  obtain ⟨new, imported, gives⟩ :=
    gives_import pos pending (fun c hc => (fitsPending c hc).1) parts
      (names first List.mem_cons_self)
  have divides : Divides (Text.byteLen mark + Text.byteLen w)
      (itemsOf front ++ pending.reverse) (itemsOf back ++ last) := by
    refine ⟨fun n hn => ?_, fun n hn => ?_⟩
    · rcases List.mem_append.1 hn with hn | hn
      · exact within_itemsOf (fun _ _ ha hb => ⟨ha.1, hb.2⟩) readFront fitsFront n hn
      · exact (fitsPending n (List.mem_reverse.1 hn)).2
    · rcases List.mem_append.1 hn with hn | hn
      · rw [← List.append_nil back] at readBack
        exact within_itemsOf (fun _ _ ha hb => ⟨ha.1, hb.2⟩) readBack fitsBack n hn
      · exact (fitsLast n hn).2
  refine ⟨mark ++ w, rest, _, _, by rw [eqText, List.append_assoc], Text.byteLen_append _ _,
    children, divides, fun text' eq =>
      ⟨new, ⟨0, Text.length text'⟩, imported, grammar_eq_some_iff.2 ⟨?_, rfl⟩⟩⟩
  rw [List.append_assoc] at eq
  have scanned := tokensFrom_insert scans put scannedRest
  rw [← again text' eq] at scanned
  have read := glue _ _ (.piece (gives _) (parsed_moved readBack (Text.byteLen ins)))
  refine parse_eq_some_iff.2 ⟨_, _, _, scanned, read, ?_⟩
  have moved := itemsOf_movedPieces (Text.byteLen ins) back
  simp only [itemsOf, List.flatMap_append, List.flatMap_cons, List.map_append] at moved ⊢
  rw [moved]
  simp

/-- An import put in after another one, or after a package. -/
theorem parse_after_heading {form : Form} {place : Nat} {texts : List String}
    {phrases : List (Phrase Symbol)} (heading : Heading form place texts phrases)
    (starts : ∀ s ∈ texts, s ∈ declarationStarts) (parsed : parse text = some root)
    (mem : n ∈ root.children) (kind : n.kind = .form form) (hgaps : ∀ c ∈ gaps, isGap c = true)
    (names : ∀ part ∈ first :: parts, isIdentifier part = true) :
    grammar.AddsImport text root n.span.stop (gaps ++ importText first parts)
      (n.span.stop + Text.byteLen gaps) first parts := by
  obtain ⟨tokens, last, pieces, scanned, read, rfl⟩ := parse_eq_some_iff.1 parsed
  obtain ⟨mark, cs, eqText, eqTokens, head, again⟩ := tokenize_eq text
  rw [eqTokens] at scanned
  have fits := tokensFrom_fits (Q := fun _ => True) (by simp) (by simp) scanned
  obtain ⟨before, used, items, after, rfl, memItems⟩ :=
    exists_piece (fun c hc => (fits.2 c hc).1) mem
      (by simp [Node.isComment, Node.hasForm, kind, heading.reader.plain.1,
        heading.reader.plain.2])
  obtain ⟨rest, rfl, readRest⟩ := parsed_split read
  generalize eqRest : rest = rest' at readRest
  cases readRest with
  | @piece _ behind _ _ gives readBehind =>
    subst eqRest
    obtain rfl : behind = tokensOf after := readBehind.tokens_eq
    have plain : ∀ t ∈ used, t.shape.Plain := fun t ht => (fits.1 t (by simp [ht])).plain
    have comments : ∀ t ∈ used, ∀ c ∈ t.comments, c.isComment = true := fun t ht c hc =>
      ((fits.1 t (by simp [ht])).comments c hc).1
    obtain ⟨t, tail, front, semicolon, eqUsed, eqUsed', startsWith, ends, stop⟩ :=
      heading.place_eq gives comments memItems kind
    have blocks : ∀ tokens, declarationBorder.Blocks (used ++ tokens) := by
      intro tokens
      rw [eqUsed]
      exact declarationBorder_blocks (starts _ startsWith) _
    -- the text up to the semicolon is scanned alike whatever follows
    have split : tokensOf before ++ (used ++ tokensOf after) =
        (tokensOf before ++ front) ++ semicolon :: tokensOf after := by simp [eqUsed']
    have front_eq : tokensOf before ++ front ++ [semicolon] =
        tokensOf (before ++ [(used, items)]) := by simp [tokensOf, eqUsed']
    rw [split] at scanned
    obtain ⟨w, s, rest, modes, rfl, -, place, shape, scans, scannedRest, inner, code, rfl⟩ :=
      scans_to_stop scanned (by rw [ends]; rfl)
    -- the stop is the semicolon, so the scanner goes on in the mode it was in
    have same : modesAfter inner semicolon.shape = inner := by
      rw [shape] at ends ⊢
      rw [show String.singleton s = ";" from ends]
      exact modesAfter_mark code (by decide)
    rw [same, front_eq] at scans
    rw [same, place] at scannedRest
    rw [stop, place]
    have readFront : Parsed production topItem (tokensOf before ++ (used ++ tokensOf after))
        ((before ++ [(used, items)]) ++ after) := by simpa using read
    refine addsImport_of_scans mark (w ++ [s]) rest
      (by rw [eqText, List.append_assoc, List.singleton_append]) ?_ scans ?_ scannedRest readFront
      readBehind ?_ names ?_
    · intro text' eq
      exact again text' _ eq (by cases w <;> simpa using head)
    · exact (scans_gaps _ code hgaps).append (scans_import _ code names)
    · intro tokens pieces h
      have := parsed_replace read (fun t ht => (fits.1 t (List.mem_append_left _ ht)).plain)
        (blocks _) (blocks _) (.piece (heading.gives gives plain comments memItems kind _) h)
      simpa [tokensOf] using this
    · simp [programOf, Node.children, itemsOf]

theorem scans_to_piece {pos : Nat} {cs : List Char} {tokens : List Token} {last : List Node}
    {before after : List (List Token × List Node)}
    (scanned : tokensFrom pos [.code 0] [] cs = some (tokensOf before ++ tokens, last))
    (read : Parsed production topItem (tokensOf before ++ tokens) (before ++ after)) :
    ∃ w rest modes, cs = w ++ rest ∧ Scans pos [.code 0] [] w (tokensOf before) modes [] ∧
      tokensFrom (pos + Text.byteLen w) modes [] rest = some (tokens, last) := by
  by_cases hb : before = []
  · subst hb
    exact ⟨[], cs, [.code 0], rfl, .nil, scanned⟩
  · have fits := tokensFrom_fits (Q := fun _ => True) (by simp) (by simp) scanned
    obtain ⟨u, hu, stops⟩ := (reaches_of_parsed read hb
      fun t ht => (fits.1 t (List.mem_append_left _ ht)).plain).closes
    obtain ⟨front, eq⟩ := List.getLast?_eq_some_iff.1 hu
    rw [eq, List.append_assoc, List.singleton_append] at scanned
    obtain ⟨w, s, rest, modes, rfl, -, place, -, scans, scannedRest, -⟩ :=
      scans_to_stop scanned stops
    refine ⟨w ++ [s], rest, modes, by simp, ?_, ?_⟩
    · rwa [eq]
    · rwa [← place]

/-- An import put in before a declared type. -/
theorem parse_before_type {form : Form} (hform : form ∈ typeForms)
    (parsed : parse text = some root) (mem : n ∈ root.children) (kind : n.kind = .form form)
    (hgaps : ∀ c ∈ gaps, isGap c = true)
    (names : ∀ part ∈ first :: parts, isIdentifier part = true) :
    grammar.AddsImport text root n.span.start (importText first parts ++ gaps) n.span.start first
      parts := by
  obtain ⟨tokens, last, pieces, scanned, read, rfl⟩ := parse_eq_some_iff.1 parsed
  obtain ⟨mark, cs, eqText, eqTokens, head, again⟩ := tokenize_eq text
  rw [eqTokens] at scanned
  have fits := tokensFrom_fits (Q := fun _ => True) (by simp) (by simp) scanned
  obtain ⟨before, used, items, after, rfl, memItems⟩ :=
    exists_piece (fun c hc => (fits.2 c hc).1) mem
      (by simp [Node.isComment, Node.hasForm, kind, (type_reader hform).plain.1,
        (type_reader hform).plain.2])
  obtain ⟨rest, rfl, readRest⟩ := parsed_split read
  generalize eqRest : rest = rest' at readRest
  cases readRest with
  | @piece _ behind _ _ gives readBehind =>
    subst eqRest
    obtain rfl : behind = tokensOf after := readBehind.tokens_eq
    have comments : ∀ t ∈ used, ∀ c ∈ t.comments, c.isComment = true := fun t ht c hc =>
      ((fits.1 t (by simp [ht])).comments c hc).1
    obtain ⟨t, tail, rfl, starts, rfl, place⟩ := type_item gives comments memItems kind hform
    obtain ⟨w, rest, modes, rfl, scans, scannedRest⟩ := scans_to_piece scanned read
    obtain ⟨w', rest, rfl, start, scans', code, scannedType⟩ :=
      scans_before_token scannedRest fun quoted => by
        have : ∀ s ∈ declarationStarts, s ∉ quotedTexts := by decide
        exact this _ starts quoted
    -- its comments now stand in front of the import, and the type is read as well without them
    have bare : Gives production topItem
        (({ t with comments := [] } :: tail) ++ tokensOf after) (some ([n], tokensOf after)) := by
      obtain ⟨k, hk⟩ := gives
      refine ⟨k, fun fuel hf => ?_⟩
      obtain ⟨items, eq, ran⟩ := run_without_comments (comments t List.mem_cons_self)
        (hk fuel hf) (by simp)
      obtain rfl := List.append_cancel_left eq
      exact ran
    have scansBoth : Scans (Text.byteLen mark) [.code 0] [] (w ++ w') (tokensOf before) modes
        t.comments.reverse := by simpa using scans.append scans'
    rw [place, start, Nat.add_assoc, ← Text.byteLen_append]
    rw [Nat.add_assoc, ← Text.byteLen_append] at scannedType
    change _ = some (tokensOf (({ t with comments := [] } :: tail, [n]) :: after), last)
      at scannedType
    refine addsImport_of_scans mark (w ++ w') rest (by simpa using eqText) ?_ scansBoth ?_
      scannedType read (.piece bare readBehind) ?_ names ?_
    · intro text' eq
      refine again text' _ eq fun none => ?_
      cases hw : w ++ w' with
      | nil =>
        rw [List.nil_append, List.append_assoc, List.head?_append, head?_importText]
        simp
      | cons c v =>
        rw [← List.append_assoc, hw] at head
        simpa using head none
    · rw [← List.append_nil (importTokens _ _ _ _)]
      exact (scans_import _ code names).append (scans_gaps _ code hgaps)
    · intro tokens pieces h
      exact parsed_replace read (fun t ht => (fits.1 t (List.mem_append_left _ ht)).plain)
        (declarationBorder_blocks starts _)
        (declarationBorder_blocks List.mem_cons_self _) h
    · simp [programOf, Node.children, itemsOf]

end Trees

/-- The grammar takes imports as it should. -/
theorem grammar_takesImports : grammar.TakesImports where
  program h := by
    obtain ⟨_, _, _, _, _, eq⟩ := parse_eq_some_iff.1 (grammar_eq_some_iff.1 h).1
    exact ⟨_, _, eq⟩
  behind h mem kind hgaps names := by
    have parsed := (grammar_eq_some_iff.1 h).1
    rcases kind with kind | kind
    · exact parse_after_heading import_heading (by decide) parsed mem kind hgaps names
    · exact parse_after_heading package_heading (by decide) parsed mem kind hgaps names
  before h mem hform kind hgaps names :=
    parse_before_type hform (grammar_eq_some_iff.1 h).1 mem kind hgaps names

end JakartaCheck.Java
