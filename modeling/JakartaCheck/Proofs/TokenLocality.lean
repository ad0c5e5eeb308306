import JakartaCheck.Java.Token
import JakartaCheck.Proofs.Cutting
import JakartaCheck.Proofs.DottedNames
import JakartaCheck.Proofs.GrammarBrackets
import Mathlib.Data.List.Basic
import Mathlib.Data.List.Find

/-!
# Scanning a part of a text

The scanner looks ahead, but not far: no lexeme reaches over a semicolon or a closing brace that is
a token of its own. `Scans` says that a piece of text is scanned in the same way whatever follows
it. The text up to such a token is such a piece (`scans_to_stop`), and so is white space with
comments in front of a token (`scans_to_token`).
-/

namespace JakartaCheck.Java

/-! ### Lengths that end at a stop -/

/-- The characters that are tokens of their own and end a declaration. -/
def isStopChar (c : Char) : Bool := c == ';' || c == '\x7d'

theorem isStopChar_cases {s : Char} (h : isStopChar s) : s = ';' ∨ s = '\x7d' := by
  simpa [isStopChar] using h

theorem not_continuesWord_stop {s : Char} (h : isStopChar s) : continuesWord s = false := by
  rcases isStopChar_cases h with rfl | rfl
  · rw [continuesWord_of_ascii (by decide)]
    decide
  · rw [continuesWord_of_ascii (by decide)]
    decide

theorem not_of_stop (p : Char → Bool) (h : p ';' = false ∧ p '\x7d' = false) {s : Char}
    (hs : isStopChar s) : p s = false := by
  rcases isStopChar_cases hs with rfl | rfl
  · exact h.1
  · exact h.2

namespace Regex

/-- No class of the expression holds `s`. -/
def avoids (s : Char) : Regex → Bool
  | .fails | .done => true
  | .one accepts => !accepts s
  | .seq first second | .either first second => first.avoids s && second.avoids s
  | .star body => body.avoids s

variable {s : Char} {p q : Regex}

theorem avoids_andThen (hp : p.avoids s) (hq : q.avoids s) : (p.andThen q).avoids s := by
  cases p <;> simp_all [andThen, avoids]

theorem avoids_orElse (hp : p.avoids s) (hq : q.avoids s) : (p.orElse q).avoids s := by
  cases p <;> cases q <;> simp_all [orElse, avoids]

theorem avoids_after (h : p.avoids s) (c : Char) : (p.after c).avoids s := by
  induction p with
  | fails | done => rfl
  | one accepts =>
    unfold after
    split <;> rfl
  | seq first second ihFirst ihSecond =>
    obtain ⟨hFirst, hSecond⟩ := Bool.and_eq_true_iff.1 h
    have both := avoids_andThen (ihFirst hFirst) hSecond
    unfold after
    split
    · exact avoids_orElse both (ihSecond hSecond)
    · exact both
  | either first second ihFirst ihSecond =>
    obtain ⟨hFirst, hSecond⟩ := Bool.and_eq_true_iff.1 h
    exact avoids_orElse (ihFirst hFirst) (ihSecond hSecond)
  | star body ih => exact avoids_andThen (ih h) h

theorem after_of_avoids (h : p.avoids s) : p.after s = .fails := by
  induction p with
  | fails | done => rfl
  | one accepts =>
    have no : accepts s = false := by simpa [avoids] using h
    simp [after, no]
  | seq first second ihFirst ihSecond =>
    obtain ⟨hFirst, hSecond⟩ := Bool.and_eq_true_iff.1 h
    simp [after, ihFirst hFirst, ihSecond hSecond, andThen, orElse]
  | either first second ihFirst ihSecond =>
    obtain ⟨hFirst, hSecond⟩ := Bool.and_eq_true_iff.1 h
    simp [after, ihFirst hFirst, ihSecond hSecond, orElse]
  | star body ih => simp [after, ih h, andThen]

theorem longest_nil (p : Regex) : p.longest [] = if p.nullable then some 0 else none := by
  cases p <;> simp [longest, nullable]

theorem longest_fails (cs : List Char) : fails.longest cs = none := by simp [longest]

theorem longest_cons (p : Regex) (c : Char) (cs : List Char) :
    p.longest (c :: cs) =
      (((p.after c).longest cs).map (· + 1)).or (if p.nullable then some 0 else none) := by
  cases p <;> simp [longest, after, nullable]

/-- A match ends in front of a character that no class of the expression holds. -/
theorem longest_stop (h : p.avoids s) (v rest : List Char) :
    p.longest (v ++ s :: rest) = p.longest v := by
  induction v generalizing p with
  | nil => rw [List.nil_append, longest_cons, after_of_avoids h, longest_fails, longest_nil,
      Option.map_none, Option.none_or]
  | cons c v ih => rw [List.cons_append, longest_cons, longest_cons, ih (avoids_after h c)]

end Regex

section Lengths

variable {s : Char}

theorem takeWhile_stop (p : Char → Bool) (hs : p s = false) (v rest : List Char) :
    (v ++ s :: rest).takeWhile p = v.takeWhile p := by
  induction v with
  | nil => simp [hs]
  | cons c v ih =>
    rw [List.cons_append, List.takeWhile_cons, List.takeWhile_cons, ih]

variable (hs : isStopChar s)

include hs

/-- A number ends in front of a stop. -/
theorem scanNumber_stop (v rest : List Char) : scanNumber (v ++ s :: rest) = scanNumber v := by
  refine List.foldl_ext _ _ _ fun best n hn => ?_
  have avoided : n.2.avoids s := by
    have all : numberForms.all fun n => n.2.avoids ';' && n.2.avoids '\x7d' := by decide
    have both := Bool.and_eq_true_iff.1 (List.all_eq_true.1 all n hn)
    rcases isStopChar_cases hs with rfl | rfl
    · exact both.1
    · exact both.2
  simp only [Regex.longest_stop avoided]

/-! ### Lexemes that end in front of a stop -/

omit hs in
theorem head?_stop (u rest rest' : List Char) :
    (u ++ s :: rest).head? = (u ++ s :: rest').head? := by
  cases u <;> rfl

omit hs in
/-- What goes on over a stop but has ended before was ended by something else. -/
theorem takeWhile_inside (p : Char → Bool) (hp : p s = true) {u rest : List Char}
    (hn : ((u ++ s :: rest).takeWhile p).length ≤ u.length) (rest' : List Char) :
    (u ++ s :: rest').takeWhile p = (u ++ s :: rest).takeWhile p := by
  induction u with
  | nil => simp [hp] at hn
  | cons c u ih =>
    simp only [List.cons_append, List.takeWhile_cons] at hn ⊢
    split
    · rename_i hc
      rw [if_pos hc, List.length_cons, List.length_cons] at hn
      rw [ih (by omega)]
    · rfl

omit hs in
theorem isPrefixOf_stop {m : List Char} (hm : s ∉ m) (w rest rest' : List Char) :
    m.isPrefixOf (w ++ s :: rest) = m.isPrefixOf (w ++ s :: rest') := by
  induction m generalizing w with
  | nil => rfl
  | cons d m ih =>
    rw [List.mem_cons, not_or] at hm
    cases w with
    | nil =>
      have differ : (d == s) = false := by simpa using Ne.symm hm.1
      simp only [List.nil_append, List.isPrefixOf, differ, Bool.false_and]
    | cons c w => simp only [List.cons_append, List.isPrefixOf, ih hm.2 w]

omit hs in
theorem two_le_blockCommentLength {cs : List Char} {n : Nat}
    (h : blockCommentLength cs = some n) : 2 ≤ n := by
  fun_induction blockCommentLength cs generalizing n with
  | case1 => cases h; exact Nat.le_refl _
  | case2 c cs _ ih =>
    obtain ⟨m, hm, rfl⟩ := Option.map_eq_some_iff.1 h
    have := ih hm
    omega
  | case3 => cases h

theorem blockCommentLength_stop {u rest : List Char} {n : Nat}
    (h : blockCommentLength (u ++ s :: rest) = some n) (hn : n ≤ u.length) (rest' : List Char) :
    blockCommentLength (u ++ s :: rest') = some n := by
  have slash : s ≠ '/' := by simpa using not_of_stop (· == '/') (by decide) hs
  induction u generalizing n with
  | nil =>
    have := two_le_blockCommentLength h
    simp only [List.length_nil] at hn
    omega
  | cons c u ih =>
    by_cases closed : c = '*' ∧ (u ++ s :: rest).head? = some '/'
    · obtain ⟨rfl, head⟩ := closed
      cases u with
      | nil => simp [slash] at head
      | cons d u =>
        cases head
        exact h
    · have step : ∀ tail, blockCommentLength (c :: (u ++ s :: tail)) =
          (blockCommentLength (u ++ s :: tail)).map (· + 1) := by
        intro tail
        rw [blockCommentLength]
        rintro cs rfl eq
        rw [head?_stop u rest tail, eq] at closed
        exact closed ⟨rfl, rfl⟩
      rw [List.cons_append, step] at h
      obtain ⟨m, hm, rfl⟩ := Option.map_eq_some_iff.1 h
      rw [List.length_cons] at hn
      rw [List.cons_append, step, ih hm (by omega)]
      rfl

omit hs in
theorem one_le_characterLength {cs : List Char} {n : Nat} (h : characterLength cs = some n) :
    1 ≤ n := by
  fun_induction characterLength cs generalizing n with
  | case1 => cases h; exact Nat.le_refl _
  | case2 => cases h
  | case3 d cs ih =>
    obtain ⟨m, -, rfl⟩ := Option.map_eq_some_iff.1 h
    omega
  | case4 c cs _ _ _ ih =>
    obtain ⟨m, -, rfl⟩ := Option.map_eq_some_iff.1 h
    omega
  | case5 => cases h

omit hs in
theorem characterLength_stop {u rest : List Char} {n : Nat}
    (h : characterLength (u ++ s :: rest) = some n) (hn : n ≤ u.length) (rest' : List Char) :
    characterLength (u ++ s :: rest') = some n := by
  fun_induction characterLength u generalizing n with
  | case1 => exact h
  | case2 => exact h
  | case3 d u ih =>
    simp only [List.cons_append, characterLength] at h ⊢
    obtain ⟨m, hm, rfl⟩ := Option.map_eq_some_iff.1 h
    simp only [List.length_cons] at hn
    rw [ih hm (by omega)]
    rfl
  | case4 c u quote line escape ih =>
    by_cases backslash : c = '\\'
    · -- the escaped character would be the stop
      cases u with
      | cons d u => exact absurd rfl (escape d u backslash)
      | nil =>
        subst backslash
        simp only [List.cons_append, List.nil_append, characterLength] at h
        obtain ⟨m, -, rfl⟩ := Option.map_eq_some_iff.1 h
        simp only [List.length_cons, List.length_nil] at hn
        omega
    · have step : ∀ tail, characterLength (c :: tail) = (characterLength tail).map (· + 1) := by
        intro tail
        rw [characterLength]
        · exact quote
        · exact line
        · intro d cs hc
          exact absurd hc backslash
      rw [List.cons_append, step] at h
      obtain ⟨m, hm, rfl⟩ := Option.map_eq_some_iff.1 h
      rw [List.length_cons] at hn
      rw [List.cons_append, step, ih hm (by omega)]
      rfl
  | case5 =>
    have := one_le_characterLength h
    simp only [List.length_nil] at hn
    omega

omit hs in
theorem scanCharacter_stop {u rest : List Char} {n : Nat}
    (h : scanCharacter (u ++ s :: rest) = some n) (hn : n ≤ u.length) (rest' : List Char) :
    scanCharacter (u ++ s :: rest') = some n := by
  unfold scanCharacter at h ⊢
  rw [head?_stop u rest' rest]
  split at h
  · cases h
  · rename_i closed
    rw [if_neg closed, characterLength_stop h hn]

theorem scanCode_stop {c : Char} {u rest : List Char} {lexeme : Lexeme} {n : Nat}
    (h : scanCode c (u ++ s :: rest) = some (lexeme, n)) (hn : n ≤ u.length)
    (rest' : List Char) : scanCode c (u ++ s :: rest') = some (lexeme, n) := by
  have word := takeWhile_stop continuesWord (not_continuesWord_stop hs) u
  unfold scanCode at h ⊢
  -- the kind of the lexeme depends on its first two characters, and these are the same
  rw [head?_stop u rest' rest]
  split at h
  · rename_i hc
    rw [if_pos hc, word rest']
    rwa [word rest] at h
  · rename_i hc
    rw [if_neg hc]
    split at h
    · rename_i hd
      rw [if_pos hd, ← List.cons_append, scanNumber_stop hs]
      rwa [← List.cons_append, scanNumber_stop hs] at h
    · rename_i hd
      rw [if_neg hd]
      split at h
      · rename_i hq
        rw [if_pos hq]
        obtain ⟨length, hl, eq⟩ := Option.map_eq_some_iff.1 h
        cases eq
        rw [scanCharacter_stop hl hn]
        rfl
      · rename_i hq
        rw [if_neg hq]
        split at h
        · rename_i hl
          rw [if_pos hl]
          cases h
          rw [takeWhile_inside _ (by simpa using not_of_stop (· == '\n') (by decide) hs) hn]
        · rename_i hl
          rw [if_neg hl]
          split at h
          · rename_i hb
            rw [if_pos hb]
            obtain ⟨length, hlen, eq⟩ := Option.map_eq_some_iff.1 h
            cases eq
            cases u with
            | nil => simp at hn
            | cons d u =>
              simp only [List.cons_append, List.drop_succ_cons, List.drop_zero] at hlen ⊢
              rw [List.length_cons] at hn
              rw [blockCommentLength_stop hs hlen (by omega)]
              rfl
          · rename_i hb
            rw [if_neg hb]
            -- no long mark contains a stop, so the same ones fit
            have marks : ∀ mark ∈ longMarks, mark.toList.isPrefixOf (c :: (u ++ s :: rest')) =
                mark.toList.isPrefixOf (c :: (u ++ s :: rest)) := by
              intro mark mem
              have none := not_of_stop (fun c => longMarks.any (·.toList.contains c)) (by decide) hs
              refine isPrefixOf_stop (fun hm => ?_) (c :: u) rest' rest
              rw [List.any_eq_false] at none
              exact none mark mem (by simpa using hm)
            rw [List.find?_congr marks]
            exact h

theorem escapeLength_stop (u rest rest' : List Char) :
    escapeLength (u ++ s :: rest) = escapeLength (u ++ s :: rest') := by
  have hex := takeWhile_stop isHexDigit (not_of_stop isHexDigit (by decide) hs)
  have octal := takeWhile_stop isOctalDigit (not_of_stop isOctalDigit (by decide) hs)
  cases u with
  | nil => rcases isStopChar_cases hs with rfl | rfl <;> simp [escapeLength, isOctalDigit]
  | cons c u =>
    by_cases hu : c = 'u'
    · subst hu
      simp only [List.cons_append, escapeLength, hex]
    · by_cases hx : c = 'x'
      · subst hx
        simp only [List.cons_append, escapeLength, hex]
      · simp only [List.cons_append, escapeLength, octal]

theorem scanText_stop {block : Bool} {c : Char} {u rest : List Char}
    (hn : (scanText block c (u ++ s :: rest)).2 ≤ u.length) (rest' : List Char) :
    scanText block c (u ++ s :: rest') = scanText block c (u ++ s :: rest) := by
  have quotes : ((u ++ s :: rest').take 2 == ['"', '"']) =
      ((u ++ s :: rest).take 2 == ['"', '"']) := by
    have quote : (s == '"') = false := not_of_stop (· == '"') (by decide) hs
    match u with
    | [] => simp [quote]
    | [a] => rfl
    | a :: b :: u => rfl
  unfold scanText at hn ⊢
  rw [quotes, head?_stop u rest' rest, escapeLength_stop hs u rest' rest]
  split
  · rfl
  · rename_i h₁
    rw [if_neg h₁] at hn
    split
    · rfl
    · rename_i h₂
      rw [if_neg h₂] at hn
      split
      · rfl
      · rename_i h₃
        rw [if_neg h₃] at hn
        rw [takeWhile_inside _ (by rcases isStopChar_cases hs with rfl | rfl <;> decide) hn]

end Lengths

/-! ### One step of the scanner -/

/-- `Lexed c cs lexeme n`: the lexeme starts with `c` in code, and `n` of `cs` belong to it. -/
inductive Lexed (c : Char) (cs : List Char) : Lexeme → Nat → Prop
  | word (start : startsWord c = true) :
      Lexed c cs (.token (.word (String.ofList (c :: cs.takeWhile continuesWord))))
        (cs.takeWhile continuesWord).length
  | literal (form : Form) (n : Nat) : Lexed c cs (.token (.literal form)) n
  | line (slash : c = '/') {v : List Char} (slashes : cs = '/' :: v) :
      Lexed c cs (.comment .lineComment) (1 + (v.takeWhile (· != '\n')).length)
  | block (slash : c = '/') {v : List Char} {m : Nat} (star : cs = '*' :: v)
      (closed : blockCommentLength v = some m) : Lexed c cs (.comment .blockComment) (1 + m)
  | longMark {mark : String} (mem : mark ∈ longMarks)
      (front : mark.toList.isPrefixOf (c :: cs) = true) :
      Lexed c cs (.token (.mark mark)) (mark.length - 1)
  | shortMark (mem : c ∈ shortMarks) : Lexed c cs (.token (.mark (String.singleton c))) 0

theorem lexed_of_scanCode {c : Char} {cs : List Char} {lexeme : Lexeme} {n : Nat}
    (h : scanCode c cs = some (lexeme, n)) : Lexed c cs lexeme n := by
  unfold scanCode at h
  split at h
  · rename_i start
    cases h
    exact .word start
  split at h
  · obtain ⟨_, -, eq⟩ := Option.map_eq_some_iff.1 h
    cases eq
    exact .literal _ _
  split at h
  · obtain ⟨_, -, eq⟩ := Option.map_eq_some_iff.1 h
    cases eq
    exact .literal _ _
  split at h
  · rename_i line
    simp only [Bool.and_eq_true, beq_iff_eq] at line
    cases h
    obtain ⟨v, rfl⟩ := List.head?_eq_some_iff.1 line.2
    rw [List.takeWhile_cons, if_pos (by decide), List.length_cons, Nat.add_comm]
    exact .line line.1 rfl
  split at h
  · rename_i block
    simp only [Bool.and_eq_true, beq_iff_eq] at block
    obtain ⟨m, closed, eq⟩ := Option.map_eq_some_iff.1 h
    cases eq
    obtain ⟨v, rfl⟩ := List.head?_eq_some_iff.1 block.2
    exact .block block.1 rfl closed
  split at h
  · rename_i mark found
    cases h
    have front := List.find?_some found
    exact .longMark (List.mem_of_find?_eq_some found) front
  · split at h
    · rename_i short
      cases h
      exact .shortMark (List.contains_iff_mem.1 short)
    · cases h

/-- Is the scanner outside string literals? -/
def inCode (modes : List Mode) : Bool :=
  match modes with
  | .text _ :: _ => false
  | _ => true

/-- The lexeme that starts with `c`, and how many of `cs` belong to it. -/
def lexemeAt (modes : List Mode) (c : Char) (cs : List Char) : Option (Lexeme × Nat) :=
  match modes with
  | .text block :: _ => some (.token (scanText block c cs).1, (scanText block c cs).2)
  | _ => scanCode c cs

theorem lexemeAt_stop {s : Char} (hs : isStopChar s) {modes : List Mode} {c : Char}
    {u rest : List Char} {lexeme : Lexeme} {n : Nat}
    (h : lexemeAt modes c (u ++ s :: rest) = some (lexeme, n)) (hn : n ≤ u.length)
    (rest' : List Char) : lexemeAt modes c (u ++ s :: rest') = some (lexeme, n) := by
  match modes with
  | .text block :: outer =>
    cases h
    simp only [lexemeAt, scanText_stop hs hn rest']
  | [] => exact scanCode_stop hs h hn rest'
  | .code depth :: outer => exact scanCode_stop hs h hn rest'

theorem tokensFrom_nil (pos : Nat) (modes : List Mode) (pending : List Node) :
    tokensFrom pos modes pending [] = some ([], pending.reverse) := by
  rw [tokensFrom]

theorem tokensFrom_cons (pos : Nat) (modes : List Mode) (pending : List Node) (c : Char)
    (cs : List Char) :
    tokensFrom pos modes pending (c :: cs) =
      if inCode modes && isGap c then tokensFrom (pos + c.utf8Size) modes pending cs
      else
        match lexemeAt modes c cs with
        | none => none
        | some (.comment form, n) =>
          tokensFrom (pos + Text.byteLen (c :: cs.take n)) modes
            (.mk (.form form) none ⟨pos, pos + Text.byteLen (c :: cs.take n)⟩ [] :: pending)
            (cs.drop n)
        | some (.token shape, n) =>
          (tokensFrom (pos + Text.byteLen (c :: cs.take n)) (modesAfter modes shape) []
            (cs.drop n)).map fun (tokens, last) =>
              (⟨pending.reverse, shape, ⟨pos, pos + Text.byteLen (c :: cs.take n)⟩⟩ :: tokens,
                last) := by
  match modes with
  | .text block :: outer =>
    simp only [tokensFrom, inCode, lexemeAt, Bool.false_and, Bool.false_eq_true, if_false]
  | [] =>
    rw [tokensFrom.eq_3 _ _ _ _ _ (by simp)]
    simp only [inCode, lexemeAt, Bool.true_and]
    rcases scanCode c cs with _ | ⟨form | shape, n⟩ <;> rfl
  | .code depth :: outer =>
    rw [tokensFrom.eq_3 _ _ _ _ _ (by simp)]
    simp only [inCode, lexemeAt, Bool.true_and]
    rcases scanCode c cs with _ | ⟨form | shape, n⟩ <;> rfl

/-! ### Pieces that are scanned alike whatever follows -/

/-- From the state `pos`, `modes`, `pending` the piece `w` gives the tokens `tokens`, and leads to
`modes'` and `pending'`, whatever follows. -/
def Scans (pos : Nat) (modes : List Mode) (pending : List Node) (w : List Char)
    (tokens : List Token) (modes' : List Mode) (pending' : List Node) : Prop :=
  ∀ rest, tokensFrom pos modes pending (w ++ rest) =
    (tokensFrom (pos + Text.byteLen w) modes' pending' rest).map fun (more, last) =>
      (tokens ++ more, last)

section Scanning

variable {pos : Nat} {modes modes' modes'' : List Mode} {pending pending' pending'' : List Node}

theorem Scans.nil : Scans pos modes pending [] [] modes pending := by
  intro rest
  cases h : tokensFrom pos modes pending rest <;> simp [h]

theorem Scans.append {w w' : List Char} {tokens tokens' : List Token}
    (h : Scans pos modes pending w tokens modes' pending')
    (h' : Scans (pos + Text.byteLen w) modes' pending' w' tokens' modes'' pending'') :
    Scans pos modes pending (w ++ w') (tokens ++ tokens') modes'' pending'' := by
  intro rest
  rw [List.append_assoc, h, h', Text.byteLen_append, Nat.add_assoc]
  cases tokensFrom (pos + (Text.byteLen w + Text.byteLen w')) modes'' pending'' rest <;> simp

theorem Scans.gap {c : Char} {w : List Char} {tokens : List Token} (hm : inCode modes = true)
    (hc : isGap c = true)
    (after : Scans (pos + c.utf8Size) modes pending w tokens modes' pending') :
    Scans pos modes pending (c :: w) tokens modes' pending' := by
  intro rest
  rw [List.cons_append, tokensFrom_cons, hm, hc, Bool.and_self, if_pos rfl, after,
    Text.byteLen_cons, Nat.add_assoc]

theorem Scans.token {c : Char} {w w' : List Char} {shape : Shape} {tokens : List Token}
    (hm : (inCode modes && isGap c) = false)
    (h : ∀ rest, lexemeAt modes c (w ++ (w' ++ rest)) = some (.token shape, w.length))
    (after : Scans (pos + Text.byteLen (c :: w)) (modesAfter modes shape) [] w' tokens modes'
      pending') :
    Scans pos modes pending (c :: w ++ w')
      (⟨pending.reverse, shape, ⟨pos, pos + Text.byteLen (c :: w)⟩⟩ :: tokens) modes' pending' := by
  intro rest
  rw [List.append_assoc, List.cons_append, tokensFrom_cons, if_neg (by simp [hm]), h rest]
  simp only [List.take_left, List.drop_left]
  rw [after, Text.byteLen_append, Nat.add_assoc, Option.map_map]
  rfl

theorem Scans.comment {c : Char} {w w' : List Char} {form : Form} {tokens : List Token}
    (hm : (inCode modes && isGap c) = false)
    (h : ∀ rest, lexemeAt modes c (w ++ (w' ++ rest)) = some (.comment form, w.length))
    (after : Scans (pos + Text.byteLen (c :: w)) modes
      (.mk (.form form) none ⟨pos, pos + Text.byteLen (c :: w)⟩ [] :: pending) w' tokens modes'
      pending') :
    Scans pos modes pending (c :: w ++ w') tokens modes' pending' := by
  intro rest
  rw [List.append_assoc, List.cons_append, tokensFrom_cons, if_neg (by simp [hm]), h rest]
  simp only [List.take_left, List.drop_left]
  rw [after, Text.byteLen_append, Nat.add_assoc]

theorem scanText_not_stop (block : Bool) (c : Char) (cs : List Char) :
    Shape.isStop (scanText block c cs).1.text = false := by
  unfold scanText
  repeat' split
  all_goals simp only [Shape.text]
  all_goals decide

theorem isStopChar_of_isStop {c : Char} {cs : List Char}
    (h : Shape.isStop (String.ofList (c :: cs)) = true) : isStopChar c = true := by
  simp only [Shape.isStop, Bool.or_eq_true, beq_iff_eq] at h
  rcases h with h | h
  · have := congrArg String.toList h
    rw [String.toList_ofList] at this
    cases this
    rfl
  · have := congrArg String.toList h
    rw [String.toList_ofList] at this
    cases this
    rfl

theorem scanCode_of_isStop {c : Char} {cs : List Char} {shape : Shape} {n : Nat}
    (h : scanCode c cs = some (.token shape, n)) (hs : Shape.isStop shape.text = true) :
    isStopChar c = true ∧ n = 0 ∧ shape = .mark (String.singleton c) := by
  cases lexed_of_scanCode h with
  | word start =>
    -- a word starts with another character
    have head : isStopChar c = true := isStopChar_of_isStop hs
    have := continuesWord_of_startsWord start
    rw [not_continuesWord_stop head] at this
    cases this
  | literal => cases hs
  | longMark mem front =>
    have none : ∀ m ∈ longMarks, Shape.isStop m = false := by decide
    rw [Shape.text, none _ mem] at hs
    cases hs
  | shortMark mem => exact ⟨isStopChar_of_isStop hs, rfl, rfl⟩

theorem lexemeAt_of_isStop {c : Char} {cs : List Char} {shape : Shape} {n : Nat}
    (h : lexemeAt modes c cs = some (.token shape, n)) (hs : Shape.isStop shape.text = true) :
    isStopChar c = true ∧ n = 0 ∧ inCode modes = true ∧ shape = .mark (String.singleton c) := by
  match modes with
  | .text block :: outer =>
    cases h
    rw [scanText_not_stop] at hs
    cases hs
  | [] =>
    obtain ⟨hc, hn, eq⟩ := scanCode_of_isStop h hs
    exact ⟨hc, hn, rfl, eq⟩
  | .code depth :: outer =>
    obtain ⟨hc, hn, eq⟩ := scanCode_of_isStop h hs
    exact ⟨hc, hn, rfl, eq⟩

theorem lexemeAt_of_inCode (hm : inCode modes = true) (c : Char) (cs : List Char) :
    lexemeAt modes c cs = scanCode c cs := by
  match modes with
  | .text block :: outer => cases hm
  | [] => rfl
  | .code depth :: outer => rfl

/-- A mark with which no other lexeme starts is a token of its own. -/
theorem scanCode_mark {c : Char} (hw : startsWord c = false)
    (hd : (c.isDigit || c == '.' || c == '\'' || c == '/') = false)
    (hl : (longMarks.all fun mark => mark.toList.head?.any (· != c)) = true)
    (hs : shortMarks.contains c = true) (cs : List Char) :
    scanCode c cs = some (.token (.mark (String.singleton c)), 0) := by
  have none : (longMarks.find? fun mark => mark.toList.isPrefixOf (c :: cs)) = none := by
    refine List.find?_eq_none.2 fun mark mem => ?_
    have first := List.all_eq_true.1 hl mark mem
    cases eq : mark.toList with
    | nil => simp [eq] at first
    | cons d ds =>
      have : (d == c) = false := by simpa [eq] using first
      simp [List.isPrefixOf, this]
  simp only [Bool.or_eq_false_iff] at hd
  obtain ⟨⟨⟨digit, point⟩, quote⟩, slash⟩ := hd
  simp [scanCode, hw, digit, point, quote, slash, none, List.contains_iff_mem.1 hs]

theorem scanCode_stopChar {c : Char} (hc : isStopChar c = true) (cs : List Char) :
    scanCode c cs = some (.token (.mark (String.singleton c)), 0) := by
  have word : startsWord c = false := by
    cases h : startsWord c with
    | false => rfl
    | true =>
      have := continuesWord_of_startsWord h
      rw [not_continuesWord_stop hc] at this
      cases this
  rcases isStopChar_cases hc with rfl | rfl
  · exact scanCode_mark word (by decide) (by decide) (by decide) cs
  · exact scanCode_mark word (by decide) (by decide) (by decide) cs

theorem lexemeAt_before_stop {c s : Char} {cs w rest : List Char} {lexeme : Lexeme} {n : Nat}
    (h : lexemeAt modes c cs = some (lexeme, n)) (hs : isStopChar s = true)
    (hd : cs.drop n = w ++ s :: rest) :
    cs = cs.take n ++ (w ++ s :: rest) ∧
      ∀ rest', lexemeAt modes c (cs.take n ++ ((w ++ [s]) ++ rest')) =
        some (lexeme, (cs.take n).length) := by
  have whole : cs = cs.take n ++ (w ++ s :: rest) := by rw [← hd, List.take_append_drop]
  have long : n ≤ cs.length := by
    rcases Nat.lt_or_ge cs.length n with less | le
    · rw [List.drop_of_length_le (by omega)] at hd
      simp at hd
    · exact le
  have taken : (cs.take n).length = n := List.length_take_of_le long
  refine ⟨whole, fun rest' => ?_⟩
  rw [whole, ← List.append_assoc] at h
  have := lexemeAt_stop hs h (by rw [List.length_append, taken]; omega) rest'
  rw [taken]
  simpa using this

theorem length_drop_lt {c : Char} {cs : List Char} {len : Nat} (h : (c :: cs).length = len)
    (n : Nat) : (cs.drop n).length < len := by
  rw [List.length_drop]
  rw [List.length_cons] at h
  omega

/-- The text up to a stop is scanned alike whatever follows. -/
theorem scans_to_stop {cs : List Char} {before after : List Token} {t : Token} {last : List Node}
    (h : tokensFrom pos modes pending cs = some (before ++ t :: after, last))
    (ht : Shape.isStop t.shape.text = true) :
    ∃ w s rest modes', cs = w ++ s :: rest ∧ isStopChar s = true ∧
      t.span.stop = pos + Text.byteLen (w ++ [s]) ∧ t.shape = .mark (String.singleton s) ∧
      Scans pos modes pending (w ++ [s]) (before ++ [t]) modes' [] ∧
      tokensFrom t.span.stop modes' [] rest = some (after, last) ∧
      ∃ inner, inCode inner = true ∧ modes' = modesAfter inner t.shape := by
  -- lexemes have any length, so the induction is on what is left of the text
  induction hlen : cs.length using Nat.strongRecOn generalizing pos modes pending cs before with
  | _ len ih =>
    cases cs with
    | nil => simp [tokensFrom_nil] at h
    | cons c cs =>
      have shorter := length_drop_lt hlen
      rw [tokensFrom_cons] at h
      split at h
      · rename_i gap
        simp only [Bool.and_eq_true] at gap
        obtain ⟨w, s, rest, modes', rfl, hs, stop, shape, scans, more, inner⟩ :=
          ih _ (shorter 0) h rfl
        refine ⟨c :: w, s, rest, modes', rfl, hs, ?_, shape, .gap gap.1 gap.2 scans, more, inner⟩
        rw [stop, List.cons_append, Text.byteLen_cons]
        omega
      · rename_i notGap
        rw [Bool.not_eq_true] at notGap
        split at h
        · cases h
        · rename_i form n lexeme
          obtain ⟨w, s, rest, modes', hd, hs, stop, shape, scans, more, inner⟩ :=
            ih _ (shorter n) h rfl
          obtain ⟨whole, alike⟩ := lexemeAt_before_stop lexeme hs hd
          refine ⟨c :: cs.take n ++ w, s, rest, modes', ?_, hs, ?_, shape, ?_, more, inner⟩
          · rw [List.append_assoc, List.cons_append, ← whole]
          · rw [stop, List.append_assoc, Text.byteLen_append (c :: cs.take n)]
            omega
          · rw [List.append_assoc]
            exact .comment notGap alike scans
        · rename_i shape n lexeme
          obtain ⟨⟨tokens, last'⟩, ran, eq⟩ := Option.map_eq_some_iff.1 h
          simp only [Prod.mk.injEq] at eq
          obtain ⟨eq, rfl⟩ := eq
          cases before with
          | nil =>
            -- the stop itself
            cases eq
            obtain ⟨hc, rfl, hm, rfl⟩ := lexemeAt_of_isStop lexeme ht
            refine ⟨[], c, cs, _, rfl, hc, rfl, rfl, ?_, ran, modes, hm, rfl⟩
            have alike : ∀ rest, lexemeAt modes c ([] ++ ([] ++ rest)) =
                some (.token (.mark (String.singleton c)), 0) := fun rest => by
              rw [lexemeAt_of_inCode hm]
              exact scanCode_stopChar hc _
            exact Scans.token notGap alike .nil
          | cons b before =>
            cases eq
            obtain ⟨w, s, rest, modes', hd, hs, stop, shape, scans, more, inner⟩ :=
              ih _ (shorter n) ran rfl
            obtain ⟨whole, alike⟩ := lexemeAt_before_stop lexeme hs hd
            refine ⟨c :: cs.take n ++ w, s, rest, modes', ?_, hs, ?_, shape, ?_, more, inner⟩
            · rw [List.append_assoc, List.cons_append, ← whole]
            · rw [stop, List.append_assoc, Text.byteLen_append (c :: cs.take n)]
              omega
            · rw [List.append_assoc]
              exact .token notGap alike scans

end Scanning

end JakartaCheck.Java
