import JakartaCheck.Proofs.ParsedTrees
import Mathlib.Data.List.Chain

/-!
# Seams between tokens

Two words that touch would be one. So of two tokens in a row the second starts where the first
stops, or else behind white space or a comment, and then no word ends there (`Loose`,
`tokenize_seams`). A word or a mark ends in the last character of its text, which tells whether a
word ends with it.
-/

namespace JakartaCheck.Java

variable {text : String} {pre rest : List Char}

/-! ### Offsets where no word ends -/

theorem charBefore?_of_split (split : text.toList = pre ++ rest) :
    Text.charBefore? text (Text.byteLen pre) = pre.getLast? := by
  rw [Text.charBefore?, Text.splitBytes?_eq_some_iff.2 ⟨split, rfl⟩]
  rfl

/-- No word ends at the offset. -/
def Loose (text : String) (offset : Nat) : Prop :=
  ∀ c, Text.charBefore? text offset = some c → continuesWord c = false

theorem loose_of_last (split : text.toList = pre ++ rest) {c : Char} (last : pre.getLast? = some c)
    (hc : continuesWord c = false) : Loose text (Text.byteLen pre) := by
  intro d hd
  rw [charBefore?_of_split split, last] at hd
  cases hd
  exact hc

theorem not_continuesWord_of_isGap {c : Char} (h : isGap c = true) : continuesWord c = false := by
  simp only [isGap, Bool.or_eq_true, beq_iff_eq] at h
  rcases h with ((((rfl | rfl) | rfl) | rfl) | rfl) | rfl <;>
    rw [continuesWord_of_ascii (by decide)] <;> decide

/-! ### One step of the scanner -/

theorem getLast?_blockComment {v : List Char} {m : Nat} (h : blockCommentLength v = some m) :
    (v.take m).getLast? = some '/' := by
  fun_induction blockCommentLength v generalizing m with
  | case1 v =>
    cases h
    rfl
  | case2 c v open' ih =>
    obtain ⟨k, hk, rfl⟩ := Option.map_eq_some_iff.1 h
    rw [List.take_succ_cons, List.getLast?_cons, ih hk]
    rfl
  | case3 => cases h

/-- Behind a comment no word ends, except behind one that goes to the end of its line. -/
theorem comment_ends {c : Char} {cs : List Char} {form : Form} {n : Nat}
    (h : scanCode c cs = some (.comment form, n)) :
    (c :: cs.take n).getLast? = some '/' ∨ ∀ d, (cs.drop n).head? = some d → d = '\n' := by
  obtain ⟨rfl, ⟨v, rfl, -, rfl⟩ | ⟨v, m, rfl, -, closed, rfl⟩⟩ := scanCode_comment_cases h
  · right
    intro d hd
    obtain ⟨a, b, rfl, line, -, ends⟩ := exists_takeWhile (· != '\n') v
    rw [line, Nat.add_comm, List.drop_succ_cons, List.drop_left] at hd
    simpa using ends d hd
  · left
    rw [Nat.add_comm, List.take_succ_cons, List.getLast?_cons, List.getLast?_cons,
      getLast?_blockComment closed]
    rfl

/-- The text of a word or a mark is what was scanned. -/
theorem scanCode_text {c : Char} {cs : List Char} {shape : Shape} {n : Nat}
    (h : scanCode c cs = some (.token shape, n)) (plain : ∀ form, shape ≠ .literal form) :
    shape.text.toList = c :: cs.take n := by
  cases lexed_of_scanCode h with
  | word start =>
    rw [Shape.text, String.toList_ofList]
    exact congrArg _ (List.prefix_iff_eq_take.1 (List.takeWhile_prefix _))
  | literal form => exact absurd rfl (plain form)
  | @longMark mark mem front =>
    have taken := List.prefix_iff_eq_take.1 (List.isPrefixOf_iff_prefix.1 front)
    have nonempty : ∀ mark ∈ longMarks, mark.toList.length ≠ 0 := by decide
    obtain ⟨k, hk⟩ := Nat.exists_eq_succ_of_ne_zero (nonempty mark mem)
    rw [hk, List.take_succ_cons] at taken
    rw [Shape.text, taken, ← String.length_toList, hk]
    rfl
  | shortMark => simp [Shape.text]

theorem scanText_text {block : Bool} {c : Char} {cs : List Char} {shape : Shape} {n : Nat}
    (h : scanText block c cs = (shape, n)) (plain : ∀ form, shape ≠ .literal form) :
    shape.text.toList = c :: cs.take n := by
  unfold scanText at h
  split at h
  · rename_i quote
    simp only [Bool.and_eq_true, beq_iff_eq] at quote
    cases h
    rw [quote.1]
    rfl
  split at h
  · rename_i quotes
    simp only [Bool.and_eq_true, beq_iff_eq] at quotes
    cases h
    rw [quotes.1, quotes.2]
    rfl
  split at h
  · rename_i slash
    split at h
    · rename_i hole
      simp only [beq_iff_eq] at slash hole
      cases h
      obtain ⟨tail, rfl⟩ := List.head?_eq_some_iff.1 hole
      rw [slash]
      rfl
    · cases h
      exact absurd rfl (plain _)
  · cases h
    exact absurd rfl (plain _)

theorem lexemeAt_text {modes : List Mode} {c : Char} {cs : List Char} {shape : Shape} {n : Nat}
    (h : lexemeAt modes c cs = some (.token shape, n)) (plain : ∀ form, shape ≠ .literal form) :
    shape.text.toList = c :: cs.take n := by
  match modes with
  | .text block :: outer =>
    obtain ⟨rfl, rfl⟩ : (scanText block c cs).1 = shape ∧ (scanText block c cs).2 = n := by
      simpa [lexemeAt] using h
    exact scanText_text rfl plain
  | [] => exact scanCode_text h plain
  | .code depth :: outer => exact scanCode_text h plain

/-! ### Tokens in a row -/

/-- The second token starts where the first stops, or where no word ends. -/
def Adjoins (text : String) (u v : Token) : Prop :=
  u.span.stop = v.span.start ∨ Loose text v.span.start

/-- A word or a mark ends in the last character of its text. -/
def Token.EndsAsText (text : String) (t : Token) : Prop :=
  (∀ form, t.shape ≠ .literal form) →
    Text.charBefore? text t.span.stop = t.shape.text.toList.getLast?

/-- The scanner may also be behind a comment that goes to the end of its line; it finds a token only
behind the line break then. -/
theorem tokensFrom_seams {x : Nat} {modes : List Mode} {pending last : List Node}
    {cs : List Char} {tokens : List Token} (split : text.toList = pre ++ cs)
    (seam : x = Text.byteLen pre ∨ Loose text (Text.byteLen pre) ∨
      (inCode modes = true ∧ ∀ c, cs.head? = some c → c = '\n'))
    (h : tokensFrom (Text.byteLen pre) modes pending cs = some (tokens, last)) :
    (∀ t, tokens.head? = some t → x = t.span.start ∨ Loose text t.span.start) ∧
      tokens.IsChain (Adjoins text) ∧ ∀ t ∈ tokens, t.EndsAsText text := by
  induction hlen : cs.length using Nat.strongRecOn generalizing x modes pending pre cs tokens with
  | _ len ih =>
    cases cs with
    | nil =>
      simp only [tokensFrom_nil, Option.some.injEq, Prod.mk.injEq] at h
      obtain ⟨rfl, -⟩ := h
      exact ⟨nofun, .nil, nofun⟩
    | cons c cs =>
      have shorter := length_drop_lt hlen
      have stop : ∀ n, Text.byteLen pre + Text.byteLen (c :: cs.take n) =
          Text.byteLen (pre ++ (c :: cs.take n)) := fun n => (Text.byteLen_append _ _).symm
      have split' : ∀ n, text.toList = (pre ++ (c :: cs.take n)) ++ cs.drop n := by
        intro n
        rw [List.append_assoc, List.cons_append, List.take_append_drop, split]
      have ends : ∀ n, (pre ++ (c :: cs.take n)).getLast? = (c :: cs.take n).getLast? := by
        intro n
        rw [List.getLast?_append, List.getLast?_cons, Option.some_or]
      rw [tokensFrom_cons] at h
      split at h
      · -- behind white space no word ends
        rename_i gap
        rw [Bool.and_eq_true] at gap
        rw [show c.utf8Size = Text.byteLen (c :: cs.take 0) from rfl, stop] at h
        have loose := loose_of_last (split' 0) (ends 0) (not_continuesWord_of_isGap gap.2)
        exact ih _ (shorter 0) (split' 0) (.inr (.inl loose)) h rfl
      · rename_i noGap
        split at h
        · cases h
        · rename_i form n lexeme
          rw [stop] at h
          obtain ⟨code, comment⟩ := scanCode_of_comment lexeme
          refine ih _ (shorter n) (split' n) (.inr ?_) h rfl
          rcases comment_ends comment with last | line
          · exact .inl (loose_of_last (split' n) ((ends n).trans last)
              (by rw [continuesWord_of_ascii (by decide)]; decide))
          · exact .inr ⟨code, line⟩
        · rename_i shape n lexeme
          obtain ⟨⟨more, last'⟩, ran, eq⟩ := Option.map_eq_some_iff.1 h
          cases eq
          rw [stop] at ran
          obtain ⟨head, chain, spelled⟩ := ih _ (shorter n) (split' n) (.inl rfl) ran rfl
          refine ⟨?_, List.isChain_cons.2 ⟨?_, chain⟩, List.forall_mem_cons.2 ⟨?_, spelled⟩⟩
          · rintro t ht
            obtain rfl := Option.some.inj ht
            rcases seam with here | loose | ⟨code, line⟩
            · exact .inl here
            · exact .inr loose
            · -- the end of a line is white space
              rw [line c rfl, code] at noGap
              exact absurd rfl noGap
          · intro t ht
            rcases head t ht with here | loose
            · exact .inl ((stop n).trans here)
            · exact .inr loose
          · intro plain
            rw [lexemeAt_text lexeme plain, ← ends n, ← charBefore?_of_split (split' n), ← stop]

theorem tokenize_seams {tokens : List Token} {last : List Node}
    (h : tokenize text = some (tokens, last)) :
    (∀ t, tokens.head? = some t → Loose text t.span.start) ∧ tokens.IsChain (Adjoins text) ∧
      ∀ t ∈ tokens, t.EndsAsText text := by
  have start : ∃ pre cs, text.toList = pre ++ cs ∧ Loose text (Text.byteLen pre) ∧
      tokensFrom (Text.byteLen pre) [.code 0] [] cs = some (tokens, last) := by
    unfold tokenize at h
    split at h
    · rename_i cs split
      have split : text.toList = ['\uFEFF'] ++ cs := split
      exact ⟨['\uFEFF'], cs, split, loose_of_last split rfl (by decide +kernel), h⟩
    · refine ⟨[], _, rfl, fun c hc => ?_, h⟩
      have first : Text.charBefore? text 0 = none :=
        charBefore?_of_split (show text.toList = [] ++ text.toList from rfl)
      exact nomatch first.symm.trans hc
  obtain ⟨pre, cs, split, loose, ran⟩ := start
  have seams := fun x : Nat => tokensFrom_seams (x := x) split (.inr (.inl loose)) ran
  refine ⟨fun t ht => ?_, (seams 0).2⟩
  exact ((seams (t.span.start + 1)).1 t ht).resolve_left (Nat.succ_ne_self _)

end JakartaCheck.Java
