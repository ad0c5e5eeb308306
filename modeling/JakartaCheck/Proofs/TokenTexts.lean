import JakartaCheck.Proofs.DeclarationPlaces
import JakartaCheck.Proofs.TokenSeams

/-!
# What tokens spell

The text of a word or a mark stands where its token says (`Token.Spelled`); there is no white space in
it, and in a word nothing but what continues words. Between two tokens stand only white space and
comments, so that a name whose parts are tokens is a text of words, points and white space up to its
first comment (`NamedBetween`). Both are shown of one step of the scanner and carried along its run.
-/

namespace JakartaCheck

namespace Text

theorem slice?_join {text p q : String} {a b c : Nat} (hp : slice? text a b = some p)
    (hq : slice? text b c = some q) : slice? text a c = some (p ++ q) := by
  obtain ⟨front, back, split, rfl, rfl⟩ := slice?_eq_some_iff.1 hp
  obtain ⟨front', back', split', start, rfl⟩ := slice?_eq_some_iff.1 hq
  rw [List.append_assoc] at split'
  obtain ⟨rfl, -⟩ := append_inj_of_byteLen (split.symm.trans split')
    (by rw [byteLen_append, start, length_eq])
  refine slice?_eq_some_iff.2 ⟨front, back', ?_, rfl, ?_⟩
  · rw [split', String.toList_append]
    simp
  · rw [length_eq, length_eq, length_eq, String.toList_append, byteLen_append, Nat.add_assoc]

theorem slice?_of_split {text : String} {pre m post : List Char}
    (split : text.toList = (pre ++ m) ++ post) :
    slice? text (byteLen pre) (byteLen (pre ++ m)) = some (String.ofList m) :=
  slice?_eq_some_iff.2 ⟨pre, post, by rwa [String.toList_ofList], rfl,
    by rw [length_ofList, byteLen_append]⟩

theorem charAt?_of_slice? {text piece : String} {a b : Nat} (h : slice? text a b = some piece)
    {c : Char} (first : piece.toList.head? = some c) : charAt? text a = some c := by
  obtain ⟨front, back, split, start, -⟩ := slice?_eq_some_iff.1 h
  obtain ⟨tail, eq⟩ := List.head?_eq_some_iff.1 first
  exact charAt?_eq_some_iff.2 ⟨front, tail ++ back, by rw [split, eq]; simp, start⟩

theorem charBefore?_of_slice? {text piece : String} {a b : Nat} (h : slice? text a b = some piece)
    {c : Char} (last : piece.toList.getLast? = some c) : charBefore? text b = some c := by
  obtain ⟨front, back, split, start, stop⟩ := slice?_eq_some_iff.1 h
  obtain ⟨init, eq⟩ := List.getLast?_eq_some_iff.1 last
  refine charBefore?_eq_some_iff.2 ⟨front ++ init, back, by rw [split, eq]; simp, ?_⟩
  rw [List.append_assoc, ← eq, byteLen_append, start, ← length_eq, stop]

end Text

namespace Java

variable {text : String} {pre : List Char}

/-! ### Names with comments between their parts -/

/-- Up to its first comment the text has only words, points and white space. -/
def IsNamePiece (cs : List Char) : Prop :=
  ∀ c ∈ cs.takeWhile (· != '/'), continuesWord c ∨ c = '.' ∨ isGap c

namespace IsNamePiece

variable {as bs : List Char}

theorem append (ha : IsNamePiece as) (hb : IsNamePiece bs) : IsNamePiece (as ++ bs) := by
  intro c hc
  rw [List.takeWhile_append] at hc
  split at hc
  · rename_i whole
    rcases List.mem_append.1 hc with hc | hc
    · refine ha c ?_
      rwa [(List.takeWhile_prefix _).eq_of_length whole]
    · exact hb c hc
  · exact ha c hc

theorem of_forall (h : ∀ c ∈ as, continuesWord c ∨ c = '.' ∨ isGap c) : IsNamePiece as :=
  fun c hc => h c ((List.takeWhile_sublist _).subset hc)

theorem comment (as : List Char) : IsNamePiece ('/' :: as) := by
  intro c hc
  simp at hc

end IsNamePiece

/-- Between the offsets stands such a text. -/
def NamedBetween (text : String) (start stop : Nat) : Prop :=
  ∃ piece, Text.slice? text start stop = some piece ∧ IsNamePiece piece.toList

theorem NamedBetween.trans {a b c : Nat} (hab : NamedBetween text a b)
    (hbc : NamedBetween text b c) : NamedBetween text a c := by
  obtain ⟨p, hp, named⟩ := hab
  obtain ⟨q, hq, named'⟩ := hbc
  exact ⟨p ++ q, Text.slice?_join hp hq, by rw [String.toList_append]; exact named.append named'⟩

theorem NamedBetween.of_split {m post : List Char} (split : text.toList = (pre ++ m) ++ post)
    (named : IsNamePiece m) : NamedBetween text (Text.byteLen pre) (Text.byteLen (pre ++ m)) :=
  ⟨_, Text.slice?_of_split split, by rwa [String.toList_ofList]⟩

theorem NamedBetween.refl {post : List Char} (split : text.toList = pre ++ post) :
    NamedBetween text (Text.byteLen pre) (Text.byteLen pre) := by
  have split : text.toList = (pre ++ []) ++ post := by rwa [List.append_nil]
  have here := NamedBetween.of_split split (.of_forall nofun)
  rwa [List.append_nil] at here

/-! ### The texts of tokens -/

theorem solid_longMarks : longMarks.all (·.toList.all (!Text.isBlank ·)) = true := by decide

theorem solid_shortMarks : shortMarks.all (!Text.isBlank ·) = true := by decide

/-- A word is made of characters of words, and no white space stands in a word or a mark. -/
structure Shape.Clear (shape : Shape) : Prop where
  solid : ∀ c ∈ shape.text.toList, Text.isBlank c = false
  word : ∀ w, shape = .word w → ∀ c ∈ w.toList, continuesWord c = true

theorem Shape.clear_mark {mark : String} (h : mark.toList.all (!Text.isBlank ·) = true) :
    (Shape.mark mark).Clear :=
  ⟨fun c hc => by simpa using List.all_eq_true.1 h c hc, nofun⟩

theorem Shape.clear_literal (form : Form) : (Shape.literal form).Clear := ⟨nofun, nofun⟩

theorem scanCode_clear {c : Char} {cs : List Char} {shape : Shape} {n : Nat}
    (h : scanCode c cs = some (.token shape, n)) : shape.Clear := by
  cases lexed_of_scanCode h with
  | word start =>
    have word : ∀ d ∈ c :: cs.takeWhile continuesWord, continuesWord d = true :=
      List.forall_mem_cons.2 ⟨continuesWord_of_startsWord start, fun d => List.mem_takeWhile_imp⟩
    refine ⟨fun d hd => ?_, ?_⟩
    · rw [Shape.text, String.toList_ofList] at hd
      by_contra blank
      have := word d hd
      rw [not_continuesWord_of_isBlank (by simpa using blank)] at this
      cases this
    · rintro w eq
      obtain rfl := Shape.word.inj eq
      rwa [String.toList_ofList]
  | literal => exact Shape.clear_literal _
  | longMark mem front => exact Shape.clear_mark (List.all_eq_true.1 solid_longMarks _ mem)
  | shortMark mem =>
    refine Shape.clear_mark ?_
    simpa using List.all_eq_true.1 solid_shortMarks c mem

theorem scanText_clear (block : Bool) (c : Char) (cs : List Char) :
    (scanText block c cs).1.Clear := by
  unfold scanText
  split
  · exact Shape.clear_mark (by decide)
  split
  · exact Shape.clear_mark (by decide)
  split
  · split
    · exact Shape.clear_mark (by decide)
    · exact Shape.clear_literal _
  · exact Shape.clear_literal _

theorem lexemeAt_clear {modes : List Mode} {c : Char} {cs : List Char} {shape : Shape} {n : Nat}
    (h : lexemeAt modes c cs = some (.token shape, n)) : shape.Clear := by
  match modes with
  | .text block :: outer =>
    obtain ⟨rfl, -⟩ : (scanText block c cs).1 = shape ∧ (scanText block c cs).2 = n := by
      simpa [lexemeAt] using h
    exact scanText_clear block c cs
  | [] => exact scanCode_clear h
  | .code depth :: outer => exact scanCode_clear h

/-- The text of a word or a mark stands at its place. -/
structure Token.Spelled (text : String) (t : Token) : Prop where
  clear : t.shape.Clear
  spells : (∀ form, t.shape ≠ .literal form) →
    t.span.Spells text t.shape.text ∧ t.shape.text.toList ≠ []

theorem tokensFrom_spelled {x : Nat} {modes : List Mode} {pending last : List Node}
    {cs : List Char} {tokens : List Token} (split : text.toList = pre ++ cs)
    (gap : NamedBetween text x (Text.byteLen pre))
    (h : tokensFrom (Text.byteLen pre) modes pending cs = some (tokens, last)) :
    (∀ t, tokens.head? = some t → NamedBetween text x t.span.start) ∧
      (tokens.IsChain fun u v => NamedBetween text u.span.stop v.span.start) ∧
      ∀ t ∈ tokens, t.Spelled text := by
  induction hlen : cs.length using Nat.strongRecOn generalizing x modes pending pre cs tokens with
  | _ len ih =>
    cases cs with
    | nil =>
      simp only [tokensFrom_nil, Option.some.injEq, Prod.mk.injEq] at h
      obtain ⟨rfl, -⟩ := h
      exact ⟨nofun, .nil, nofun⟩
    | cons c cs =>
      have shorter := length_drop_lt hlen
      have stop : ∀ n, Text.byteLen pre + Text.byteLen (c :: cs.take n) =
          Text.byteLen (pre ++ (c :: cs.take n)) := fun n => (Text.byteLen_append _ _).symm
      have split' : ∀ n, text.toList = (pre ++ (c :: cs.take n)) ++ cs.drop n := by
        intro n
        rw [List.append_assoc, List.cons_append, List.take_append_drop, split]
      rw [tokensFrom_cons] at h
      split at h
      · rename_i here
        rw [Bool.and_eq_true] at here
        rw [show c.utf8Size = Text.byteLen (c :: cs.take 0) from rfl, stop] at h
        have named : IsNamePiece (c :: cs.take 0) := .of_forall (by simp [here.2])
        exact ih _ (shorter 0) (split' 0) (gap.trans (.of_split (split' 0) named)) h rfl
      · split at h
        · cases h
        · rename_i form n lexeme
          rw [stop] at h
          have named : IsNamePiece (c :: cs.take n) := by
            rw [(scanCode_comment_cases (scanCode_of_comment lexeme).2).1]
            exact .comment _
          exact ih _ (shorter n) (split' n) (gap.trans (.of_split (split' n) named)) h rfl
        · rename_i shape n lexeme
          obtain ⟨⟨more, last'⟩, ran, eq⟩ := Option.map_eq_some_iff.1 h
          cases eq
          rw [stop] at ran
          obtain ⟨head, chain, spelled⟩ := ih _ (shorter n) (split' n) (.refl (split' n)) ran rfl
          refine ⟨?_, List.isChain_cons.2 ⟨?_, chain⟩, List.forall_mem_cons.2 ⟨?_, spelled⟩⟩
          · rintro t ht
            obtain rfl := Option.some.inj ht
            exact gap
          · intro t ht
            rw [stop]
            exact head t ht
          · refine ⟨lexemeAt_clear lexeme, fun plain => ?_⟩
            have spelled := lexemeAt_text lexeme plain
            refine ⟨?_, by rw [spelled]; exact List.cons_ne_nil _ _⟩
            rw [Span.Spells, stop, Text.slice?_of_split (split' n), ← spelled, String.ofList_toList]

theorem tokenize_spelled {tokens : List Token} {last : List Node}
    (h : tokenize text = some (tokens, last)) :
    (tokens.IsChain fun u v => NamedBetween text u.span.stop v.span.start) ∧
      ∀ t ∈ tokens, t.Spelled text := by
  unfold tokenize at h
  split at h
  · rename_i cs split
    have split : text.toList = ['\uFEFF'] ++ cs := split
    exact (tokensFrom_spelled split (.refl split) h).2
  · have split : text.toList = [] ++ text.toList := rfl
    exact (tokensFrom_spelled split (.refl split) h).2

/-! ### Solid pieces -/

theorem Token.Spelled.solid {t : Token} (h : t.Spelled text)
    (plain : ∀ form, t.shape ≠ .literal form) : t.span.Solid text := by
  obtain ⟨spells, some⟩ := h.spells plain
  obtain ⟨front, back, split, start, stop⟩ := Text.slice?_eq_some_iff.1 spells
  obtain ⟨c, cs, eq⟩ := List.exists_cons_of_ne_nil some
  obtain ⟨d, hd⟩ := Option.isSome_iff_exists.1 (List.getLast?_isSome.2 some)
  have first := h.clear.solid c (by rw [eq]; exact List.mem_cons_self)
  have final := h.clear.solid d (List.mem_of_getLast? hd)
  refine ⟨?_, ?_, ?_⟩
  · have fits := fits_of_cut (by rwa [← List.append_assoc]) some
    rwa [start, ← Text.length_eq, stop] at fits
  · rw [Text.charAt?_of_slice? spells (by rw [eq]; rfl)]
    simp [first]
  · rw [Text.charBefore?_of_slice? spells hd]
    simp [final]

end Java

/-- A span between two pieces without white space at their ends has none at its own. -/
theorem Span.Fits.solid {text : String} {s first last : Span} (fits : s.Fits text)
    (hfirst : first.Solid text) (hlast : last.Solid text) (start : first.start = s.start)
    (stop : last.stop = s.stop) : s.Solid text :=
  ⟨fits, start ▸ hfirst.first, stop ▸ hlast.last⟩

end JakartaCheck
