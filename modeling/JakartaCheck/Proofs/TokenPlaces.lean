import JakartaCheck.Proofs.GrammarTransport
import JakartaCheck.Proofs.TokenLocality

/-!
# Where tokens stand

White space and comments in front of a token are scanned alike whatever follows
(`scans_to_token`), and so is an import declaration (`scans_import`). The same text at another place
gives the same tokens at that place (`tokensFrom_shift`), and no token reaches beyond its text
(`tokensFrom_fits`).
-/

namespace JakartaCheck.Java

/-! ### Comments -/

theorem scanCode_comment_cases {c : Char} {cs : List Char} {form : Form} {n : Nat}
    (h : scanCode c cs = some (.comment form, n)) :
    c = '/' ∧ ((∃ v, cs = '/' :: v ∧ form = .lineComment ∧
        n = 1 + (v.takeWhile (· != '\n')).length) ∨
      ∃ v m, cs = '*' :: v ∧ form = .blockComment ∧ blockCommentLength v = some m ∧ n = 1 + m) := by
  cases lexed_of_scanCode h with
  | line slash slashes => exact ⟨slash, .inl ⟨_, slashes, rfl, rfl⟩⟩
  | block slash star closed => exact ⟨slash, .inr ⟨_, _, star, rfl, closed, rfl⟩⟩

theorem startsWord_slash : startsWord '/' = false := by
  rw [startsWord_eq_of_ascii (by decide)]
  decide

theorem scanCode_line (v : List Char) :
    scanCode '/' ('/' :: v) =
      some (.comment .lineComment, 1 + (v.takeWhile (· != '\n')).length) := by
  simp [scanCode, startsWord_slash, Nat.add_comm]

theorem scanCode_block {v : List Char} {m : Nat} (h : blockCommentLength v = some m) :
    scanCode '/' ('*' :: v) = some (.comment .blockComment, 1 + m) := by
  simp [scanCode, startsWord_slash, h]

/-- A block comment is closed by its own end. -/
theorem blockCommentLength_take {v : List Char} {m : Nat} (h : blockCommentLength v = some m)
    (rest : List Char) : blockCommentLength (v.take m ++ rest) = some m ∧ m ≤ v.length := by
  fun_induction blockCommentLength v generalizing m with
  | case1 v =>
    cases h
    exact ⟨rfl, by simp⟩
  | case2 c v open' ih =>
    obtain ⟨k, hk, rfl⟩ := Option.map_eq_some_iff.1 h
    obtain ⟨taken, le⟩ := ih hk
    refine ⟨?_, by simpa using le⟩
    rw [List.take_succ_cons, List.cons_append, blockCommentLength, taken]
    · rfl
    · -- the end would have been found one character earlier
      rintro tail rfl eq
      have two := two_le_blockCommentLength hk
      cases v with
      | nil => simp [blockCommentLength] at hk
      | cons d v =>
        obtain ⟨j, rfl⟩ : ∃ j, k = j + 1 := ⟨k - 1, by omega⟩
        rw [List.take_succ_cons, List.cons_append] at eq
        cases eq
        exact open' v rfl rfl
  | case3 => cases h

theorem exists_takeWhile (p : Char → Bool) (cs : List Char) : ∃ a b, cs = a ++ b ∧
    cs.takeWhile p = a ∧ (∀ c ∈ a, p c = true) ∧ ∀ c, b.head? = some c → p c = false := by
  induction cs with
  | nil => exact ⟨[], [], rfl, rfl, by simp, by simp⟩
  | cons c cs ih =>
    cases hc : p c with
    | false => exact ⟨[], c :: cs, rfl, by simp [hc], by simp, by simpa using hc⟩
    | true =>
      obtain ⟨a, b, rfl, taken, all, head⟩ := ih
      refine ⟨c :: a, b, rfl, by rw [List.takeWhile_cons, if_pos hc, taken], ?_, head⟩
      exact List.forall_mem_cons.2 ⟨hc, all⟩

/-- A comment in front of white space and a token is scanned alike whatever follows. -/
theorem scanCode_comment_before {c : Char} {cs : List Char} {form : Form} {n : Nat}
    (h : scanCode c cs = some (.comment form, n)) {w : List Char} {d : Char} {rest : List Char}
    (hd : cs.drop n = w ++ d :: rest) (gap : isGap d = false) :
    cs = cs.take n ++ (w ++ d :: rest) ∧
      ∀ rest', scanCode c (cs.take n ++ (w ++ rest')) = some (.comment form, (cs.take n).length) := by
  refine ⟨by rw [← hd, List.take_append_drop], fun rest' => ?_⟩
  obtain ⟨rfl, ⟨v, rfl, rfl, rfl⟩ | ⟨v, m, rfl, rfl, closed, rfl⟩⟩ := scanCode_comment_cases h
  · obtain ⟨a, b, rfl, line, all, ends⟩ := exists_takeWhile (· != '\n') v
    rw [line, Nat.add_comm, List.drop_succ_cons, List.drop_left] at hd
    rw [line, Nat.add_comm, List.take_succ_cons, List.take_left, List.cons_append, scanCode_line,
      List.length_cons]
    -- the line ends in a break, which is white space and so is no token
    cases w with
    | nil =>
      have := ends d (by rw [hd]; rfl)
      simp only [bne_eq_false_iff_eq] at this
      subst this
      cases gap
    | cons x w =>
      have broken := ends x (by rw [hd]; rfl)
      rw [List.takeWhile_append_of_pos all, List.cons_append, List.takeWhile_cons,
        if_neg (by simp [broken]), List.append_nil, Nat.add_comm]
  · obtain ⟨taken, le⟩ := blockCommentLength_take closed (w ++ rest')
    rw [Nat.add_comm, List.take_succ_cons, List.cons_append, scanCode_block taken,
      List.length_cons, List.length_take_of_le le, Nat.add_comm]

/-! ### The way to a token -/

/-- The texts of what is scanned between quotes. -/
def quotedTexts : List String := ["", "\"", "\"\"\"", holeMark]

theorem scanText_text_mem (block : Bool) (c : Char) (cs : List Char) :
    (scanText block c cs).1.text ∈ quotedTexts := by
  unfold scanText
  repeat' split
  all_goals simp only [Shape.text]
  all_goals decide

section Places

variable {pos : Nat} {modes modes' : List Mode} {pending pending' : List Node}

/-- White space and comments in front of a token are scanned alike whatever follows. -/
theorem scans_to_token {cs : List Char} {t : Token} {after : List Token} {last : List Node}
    (h : tokensFrom pos modes pending cs = some (t :: after, last))
    (ht : t.shape.text ∉ quotedTexts) :
    ∃ w d rest n, cs = w ++ d :: rest ∧ t.span.start = pos + Text.byteLen w ∧
      Scans pos modes pending w [] modes t.comments.reverse ∧ inCode modes = true ∧
      isGap d = false ∧ scanCode d rest = some (.token t.shape, n) ∧
      t.span.stop = t.span.start + Text.byteLen (d :: rest.take n) ∧
      tokensFrom t.span.stop (modesAfter modes t.shape) [] (rest.drop n) = some (after, last) := by
  induction hlen : cs.length using Nat.strongRecOn generalizing pos pending cs with
  | _ len ih =>
    cases cs with
    | nil => simp [tokensFrom_nil] at h
    | cons c cs =>
      have shorter := length_drop_lt hlen
      -- between quotes the first lexeme would be a token with one of the quoted texts
      have code : inCode modes = true := by
        match modes with
        | [] => rfl
        | .code depth :: outer => rfl
        | .text block :: outer =>
          rw [tokensFrom_cons] at h
          obtain ⟨⟨tokens, last'⟩, -, eq⟩ := Option.map_eq_some_iff.1 h
          cases eq
          exact absurd (scanText_text_mem block c cs) ht
      rw [tokensFrom_cons, lexemeAt_of_inCode code, code, Bool.true_and] at h
      split at h
      · rename_i gap
        obtain ⟨w, d, rest, n, rfl, start, scans, hm, hd, lexeme, stop, more⟩ :=
          ih _ (shorter 0) h rfl
        refine ⟨c :: w, d, rest, n, rfl, ?_, .gap hm gap scans, hm, hd, lexeme, stop, more⟩
        rw [start, Text.byteLen_cons]
        omega
      · rename_i notGap
        rw [Bool.not_eq_true] at notGap
        split at h
        · cases h
        · rename_i form n comment
          obtain ⟨w, d, rest, k, hd, start, scans, hm, gap, lexeme, stop, more⟩ :=
            ih _ (shorter n) h rfl
          obtain ⟨whole, alike⟩ := scanCode_comment_before comment hd gap
          refine ⟨c :: cs.take n ++ w, d, rest, k, ?_, ?_, ?_, hm, gap, lexeme, stop, more⟩
          · rw [List.append_assoc, List.cons_append, ← whole]
          · rw [start, Text.byteLen_append]
            omega
          · exact .comment (by rw [notGap, Bool.and_false])
              (fun rest' => by rw [lexemeAt_of_inCode hm]; exact alike rest') scans
        · rename_i shape n lexeme
          obtain ⟨⟨tokens, last'⟩, ran, eq⟩ := Option.map_eq_some_iff.1 h
          cases eq
          refine ⟨[], c, cs, n, rfl, rfl, ?_, code, notGap, lexeme, rfl, ran⟩
          rw [List.reverse_reverse]
          exact .nil

/-- Without what stands in front of it, a token has no comments. -/
theorem scans_before_token {cs : List Char} {t : Token} {after : List Token} {last : List Node}
    (h : tokensFrom pos modes [] cs = some (t :: after, last))
    (ht : t.shape.text ∉ quotedTexts) :
    ∃ w rest, cs = w ++ rest ∧ t.span.start = pos + Text.byteLen w ∧
      Scans pos modes [] w [] modes t.comments.reverse ∧ inCode modes = true ∧
      tokensFrom (pos + Text.byteLen w) modes [] rest =
        some ({ t with comments := [] } :: after, last) := by
  obtain ⟨w, d, rest, n, rfl, start, scans, code, gap, lexeme, stop, more⟩ := scans_to_token h ht
  refine ⟨w, d :: rest, rfl, start, scans, code, ?_⟩
  rw [tokensFrom_cons, if_neg (by simp [gap]), lexemeAt_of_inCode code, lexeme, ← start]
  simp only [← stop, more, Option.map_some, List.reverse_nil]

/-! ### An import declaration -/

theorem isDigit_of_startsWord {c : Char} (h : startsWord c = true) : c.isDigit = false := by
  cases digit : c.isDigit with
  | false => rfl
  | true =>
    exfalso
    have ascii : c.toNat < 128 := toNat_lt_of_plain (by simp [digit])
    rw [startsWord_eq_of_ascii ascii] at h
    simp only [Bool.or_eq_true, beq_iff_eq] at h
    rcases h with (alpha | rfl) | rfl
    · simp only [Char.isDigit, Bool.and_eq_true, decide_eq_true_eq, ge_iff_le,
        UInt32.le_iff_toNat_le, Char.toNat_val] at digit
      have : '9'.toNat = 57 := rfl
      have := toNat_of_isAlpha alpha
      omega
    · cases digit
    · cases digit

theorem startsWord_of_ascii {c : Char} (hc : c.toNat < 128)
    (no : (c.isAlpha || c == '_' || c == '$' || c.isDigit) = false) : startsWord c = false := by
  rw [startsWord_eq_of_ascii hc]
  exact (Bool.or_eq_false_iff.1 no).1

theorem isGap_of_startsWord {c : Char} (h : startsWord c = true) : isGap c = false := by
  cases gap : isGap c with
  | false => rfl
  | true =>
    simp only [isGap, Bool.or_eq_true, beq_iff_eq] at gap
    rcases gap with ((((rfl | rfl) | rfl) | rfl) | rfl) | rfl
    all_goals
      rw [startsWord_of_ascii (by decide) (by decide)] at h
      cases h

theorem scanCode_word {c x : Char} {w rest : List Char} (hc : startsWord c = true)
    (hw : ∀ d ∈ w, continuesWord d = true) (hx : continuesWord x = false) :
    scanCode c (w ++ x :: rest) = some (.token (.word (String.ofList (c :: w))), w.length) := by
  have taken : (w ++ x :: rest).takeWhile continuesWord = w := by
    rw [List.takeWhile_append_of_pos hw, List.takeWhile_cons, if_neg (by simp [hx]),
      List.append_nil]
  simp only [scanCode, hc, if_true, taken]

theorem scanCode_point {c : Char} (hc : startsWord c = true) (rest : List Char) :
    scanCode '.' (c :: rest) = some (.token (.mark "."), 0) := by
  have point : startsWord '.' = false := startsWord_of_ascii (by decide) (by decide)
  have differ : ('.' == c) = false := by
    cases h : '.' == c with
    | false => rfl
    | true =>
      rw [beq_iff_eq] at h
      rw [← h, point] at hc
      cases hc
  have none : (longMarks.find? fun mark => mark.toList.isPrefixOf ('.' :: c :: rest)) = none := by
    refine List.find?_eq_none.2 fun mark mem => ?_
    have cases' : ∀ m ∈ longMarks, m = "..." ∨ m.toList.head?.any (· != '.') = true := by decide
    rcases cases' mark mem with rfl | first
    · simp [List.isPrefixOf, differ]
    · cases eq : mark.toList with
      | nil => simp [eq] at first
      | cons d ds =>
        have : (d == '.') = false := by simpa [eq] using first
        simp [List.isPrefixOf, this]
  have short : ('.' : Char) ∈ shortMarks := by decide
  simp [scanCode, point, isDigit_of_startsWord hc, none, short]

theorem modesAfter_word (hm : inCode modes = true) (text : String) :
    modesAfter modes (.word text) = modes := by
  unfold modesAfter
  split <;> simp_all

theorem modesAfter_mark (hm : inCode modes = true) {text : String}
    (h : text ∉ ["\x7b", "\x7d", "\"", "\"\"\""]) : modesAfter modes (.mark text) = modes := by
  unfold modesAfter
  split <;> simp_all [inCode]

/-- The tokens of the rest of a dotted name, with a point in front of each part, and of the
semicolon after it. -/
def nameTail (pos : Nat) : List (List Char) → List Token
  | [] => [⟨[], .mark ";", ⟨pos, pos + 1⟩⟩]
  | part :: parts =>
    ⟨[], .mark ".", ⟨pos, pos + 1⟩⟩ ::
      ⟨[], .word (String.ofList part), ⟨pos + 1, pos + 1 + Text.byteLen part⟩⟩ ::
        nameTail (pos + 1 + Text.byteLen part) parts

/-- The tokens of an import of a dotted name, after comments that are pending. -/
def importTokens (pos : Nat) (pending : List Node) (first : List Char) (parts : List (List Char)) :
    List Token :=
  ⟨pending.reverse, .word "import", ⟨pos, pos + 6⟩⟩ ::
    ⟨[], .word (String.ofList first), ⟨pos + 7, pos + 7 + Text.byteLen first⟩⟩ ::
      nameTail (pos + 7 + Text.byteLen first) parts

theorem Scans.word (hm : inCode modes = true) {c x : Char} {part w : List Char}
    (hc : startsWord c = true) (hp : ∀ d ∈ part, continuesWord d = true)
    (hx : continuesWord x = false) {tokens : List Token}
    (after : Scans (pos + Text.byteLen (c :: part)) modes [] (x :: w) tokens modes' pending') :
    Scans pos modes pending (c :: part ++ x :: w)
      (⟨pending.reverse, .word (String.ofList (c :: part)),
        ⟨pos, pos + Text.byteLen (c :: part)⟩⟩ :: tokens) modes' pending' := by
  refine Scans.token (by rw [isGap_of_startsWord hc, Bool.and_false]) (fun tail => ?_) ?_
  · rw [lexemeAt_of_inCode hm]
    exact scanCode_word hc hp hx
  · rwa [modesAfter_word hm]

theorem not_continuesWord_point : continuesWord '.' = false := by
  rw [continuesWord_of_ascii (by decide)]
  decide

/-- The rest of a dotted name and a semicolon are scanned alike whatever follows. -/
theorem scans_nameTail (pos : Nat) (hm : inCode modes = true) (parts : List (List Char))
    (h : ∀ part ∈ parts, isIdentifier part = true) :
    ∃ x w, parts.flatMap ('.' :: ·) ++ [';'] = x :: w ∧ continuesWord x = false ∧
      Scans pos modes [] (x :: w) (nameTail pos parts) modes [] := by
  induction parts generalizing pos with
  | nil =>
    refine ⟨';', [], rfl, not_continuesWord_stop rfl, ?_⟩
    have alike : ∀ rest, lexemeAt modes ';' ([] ++ ([] ++ rest)) =
        some (.token (.mark ";"), 0) := fun rest => by
      rw [lexemeAt_of_inCode hm]
      exact scanCode_stopChar rfl _
    refine Scans.token (by simp [isGap]) alike ?_
    rw [modesAfter_mark hm (by decide)]
    exact .nil
  | cons part parts ih =>
    obtain ⟨hp, hparts⟩ := List.forall_mem_cons.1 h
    obtain ⟨x, w, eq, hx, scans⟩ := ih (pos + 1 + Text.byteLen part) hparts
    cases part with
    | nil => cases hp
    | cons c part =>
      obtain ⟨start, rest, -⟩ := isIdentifier_cons hp
      refine ⟨'.', c :: part ++ x :: w, ?_, not_continuesWord_point, ?_⟩
      · rw [List.flatMap_cons, List.append_assoc, eq, List.cons_append]
      · have alike : ∀ tail, lexemeAt modes '.' ([] ++ (c :: part ++ x :: w ++ tail)) =
            some (.token (.mark "."), 0) := fun tail => by
          rw [lexemeAt_of_inCode hm]
          exact scanCode_point start _
        refine Scans.token (by simp [isGap]) alike ?_
        rw [modesAfter_mark hm (by decide)]
        exact .word hm start rest hx scans

/-- An import declaration is scanned alike whatever follows. -/
theorem scans_import (pos : Nat) (hm : inCode modes = true) {first : List Char}
    {parts : List (List Char)} (h : ∀ part ∈ first :: parts, isIdentifier part = true) :
    Scans pos modes pending
      ("import ".toList ++ ((first ++ parts.flatMap ('.' :: ·)) ++ [';']))
      (importTokens pos pending first parts) modes [] := by
  obtain ⟨hfirst, hparts⟩ := List.forall_mem_cons.1 h
  obtain ⟨x, w, eq, hx, scans⟩ := scans_nameTail (pos + 7 + Text.byteLen first) hm parts hparts
  rw [List.append_assoc, eq]
  cases first with
  | nil => cases hfirst
  | cons c first =>
    obtain ⟨start, rest, -⟩ := isIdentifier_cons hfirst
    have blank : continuesWord ' ' = false := by
      rw [continuesWord_of_ascii (by decide)]
      decide
    have keyword : startsWord 'i' = true ∧ "mport".toList.all continuesWord = true := by decide
    exact .word hm keyword.1 (List.all_eq_true.1 keyword.2) blank
      (.gap hm rfl (.word hm start rest hx scans))

theorem scans_gaps (pos : Nat) (hm : inCode modes = true) {w : List Char}
    (h : ∀ c ∈ w, isGap c = true) : Scans pos modes pending w [] modes pending := by
  induction w generalizing pos with
  | nil => exact .nil
  | cons c w ih =>
    obtain ⟨hc, hw⟩ := List.forall_mem_cons.1 h
    exact .gap hm hc (ih _ hw)

/-! ### The same text at another place -/

theorem tokensFrom_shift (δ pos : Nat) (modes : List Mode) (pending : List Node)
    (cs : List Char) :
    tokensFrom (pos + δ) modes (pending.map (Node.relocate (Span.shift δ))) cs =
      (tokensFrom pos modes pending cs).map fun (tokens, last) =>
        (tokens.map (Token.relocate (Span.shift δ)), last.map (Node.relocate (Span.shift δ))) := by
  induction hlen : cs.length using Nat.strongRecOn generalizing pos modes pending cs with
  | _ len ih =>
    cases cs with
    | nil => simp [tokensFrom_nil]
    | cons c cs =>
      have shorter := length_drop_lt hlen
      have move : ∀ k, pos + δ + k = pos + k + δ := fun k => by omega
      rw [tokensFrom_cons, tokensFrom_cons]
      split
      · rw [move]
        exact ih _ (shorter 0) (pos + c.utf8Size) modes pending cs rfl
      · split
        · rfl
        · rename_i form n _
          rw [move]
          exact ih _ (shorter n) _ modes
            (.mk (.form form) none ⟨pos, pos + Text.byteLen (c :: cs.take n)⟩ [] :: pending) _ rfl
        · rename_i shape n _
          rw [move]
          have := ih _ (shorter n) (pos + Text.byteLen (c :: cs.take n)) (modesAfter modes shape) []
            (cs.drop n) rfl
          rw [List.map_nil] at this
          rw [this]
          cases tokensFrom (pos + Text.byteLen (c :: cs.take n)) (modesAfter modes shape) []
            (cs.drop n) with
          | none => rfl
          | some result => simp [Token.relocate, Span.shift]

/-! ### Tokens inside their text -/

/-- What the scanner promises of a token: a plain shape, a place that satisfies `Q`, and comments in
front of it that do. -/
structure Token.Fits (Q : Span → Prop) (t : Token) : Prop where
  plain : t.shape.Plain
  span : Q t.span
  comments : ∀ c ∈ t.comments, c.isComment = true ∧ c.Within Q

theorem not_mem_of_startsWord {c : Char} (hc : startsWord c = true) (w : List Char)
    (texts : List String)
    (h : (texts.all fun text => text.toList.head?.any (!startsWord ·)) = true) :
    String.ofList (c :: w) ∉ texts := by
  intro mem
  have := List.all_eq_true.1 h _ mem
  simp [hc] at this

theorem scanCode_plain {c : Char} {cs : List Char} {shape : Shape} {n : Nat}
    (h : scanCode c cs = some (.token shape, n)) : shape.Plain := by
  cases lexed_of_scanCode h with
  | literal => trivial
  | longMark => trivial
  | shortMark => trivial
  | word start =>
    have opening := not_mem_of_startsWord start (cs.takeWhile continuesWord)
      ["(", "[", "\x7b", holeMark] (by decide +kernel)
    have closing := not_mem_of_startsWord start (cs.takeWhile continuesWord)
      [")", "]", "\x7d"] (by decide +kernel)
    have stops := not_mem_of_startsWord start (cs.takeWhile continuesWord)
      [";", "\x7d"] (by decide +kernel)
    refine ⟨?_, ?_⟩
    · rw [Shape.weight, if_neg (by simpa using opening), if_neg (by simpa using closing)]
    · simpa [Shape.isStop] using stops

/-- There are no comments between quotes. -/
theorem scanCode_of_comment {c : Char} {cs : List Char} {form : Form} {n : Nat}
    (h : lexemeAt modes c cs = some (.comment form, n)) :
    inCode modes = true ∧ scanCode c cs = some (.comment form, n) := by
  have code : inCode modes = true := by
    match modes with
    | [] => rfl
    | .code depth :: outer => rfl
    | .text block :: outer => cases h
  exact ⟨code, (lexemeAt_of_inCode code c cs).symm.trans h⟩

theorem lexemeAt_comment {c : Char} {cs : List Char} {form : Form} {n : Nat}
    (h : lexemeAt modes c cs = some (.comment form, n)) :
    form = .lineComment ∨ form = .blockComment := by
  obtain ⟨-, ⟨v, -, rfl, -⟩ | ⟨v, m, -, rfl, -⟩⟩ :=
    scanCode_comment_cases (scanCode_of_comment h).2
  · exact .inl rfl
  · exact .inr rfl

theorem lexemeAt_plain {c : Char} {cs : List Char} {shape : Shape} {n : Nat}
    (h : lexemeAt modes c cs = some (.token shape, n)) : shape.Plain := by
  match modes with
  | [] => exact scanCode_plain h
  | .code depth :: outer => exact scanCode_plain h
  | .text block :: outer =>
    cases h
    unfold scanText
    repeat' split
    all_goals trivial

/-- The tokens of a text and the comments after them stand inside it. -/
theorem tokensFrom_fits {Q : Span → Prop} {cs : List Char} {tokens : List Token}
    {last : List Node} (hp : ∀ c ∈ pending, c.isComment = true ∧ c.Within Q)
    (hq : ∀ a b, pos ≤ a → a < b → b ≤ pos + Text.byteLen cs → Q ⟨a, b⟩)
    (h : tokensFrom pos modes pending cs = some (tokens, last)) :
    (∀ t ∈ tokens, t.Fits Q) ∧ ∀ c ∈ last, c.isComment = true ∧ c.Within Q := by
  induction hlen : cs.length using Nat.strongRecOn
    generalizing pos modes pending cs tokens with
  | _ len ih =>
    cases cs with
    | nil =>
      simp only [tokensFrom_nil, Option.some.injEq, Prod.mk.injEq] at h
      rw [← h.1, ← h.2]
      exact ⟨nofun, by simpa using hp⟩
    | cons c cs =>
      have shorter := length_drop_lt hlen
      have size := c.utf8Size_pos
      have parts : ∀ n, Text.byteLen cs = Text.byteLen (cs.take n) + Text.byteLen (cs.drop n) := by
        intro n
        rw [← Text.byteLen_append, List.take_append_drop]
      rw [Text.byteLen_cons] at hq
      rw [tokensFrom_cons] at h
      split at h
      · exact ih _ (shorter 0) hp (fun a b ha hab hb => hq a b (by omega) hab (by omega)) h rfl
      · split at h
        · cases h
        · rename_i form n lexeme
          have := parts n
          rw [Text.byteLen_cons] at h
          refine ih _ (shorter n) ?_ (fun a b ha hab hb => hq a b (by omega) hab (by omega)) h rfl
          refine List.forall_mem_cons.2 ⟨⟨?_, ?_⟩, hp⟩
          · rcases lexemeAt_comment lexeme with rfl | rfl <;> rfl
          · exact Node.within_mk.2 ⟨hq _ _ (Nat.le_refl _) (by omega) (by omega), nofun⟩
        · rename_i shape n lexeme
          have := parts n
          rw [Text.byteLen_cons] at h
          obtain ⟨⟨more, last'⟩, ran, eq⟩ := Option.map_eq_some_iff.1 h
          cases eq
          obtain ⟨fits, comments⟩ := ih _ (shorter n) (by simp)
            (fun a b ha hab hb => hq a b (by omega) hab (by omega)) ran rfl
          refine ⟨List.forall_mem_cons.2 ⟨⟨lexemeAt_plain lexeme, ?_, ?_⟩, fits⟩, comments⟩
          · exact hq _ _ (Nat.le_refl _) (by omega) (by omega)
          · simpa using hp

end Places

end JakartaCheck.Java
