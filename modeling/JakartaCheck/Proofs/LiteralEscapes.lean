import JakartaCheck.Java.StringLiteral
import Mathlib.Data.List.Forall2
import Mathlib.Data.List.TakeWhile
import Mathlib.Data.Nat.Digits.Defs

/-!
# Escapes in string literals

A string can be written in many ways, and each of them denotes it (`StringLiteral.value?_spelled`).
The other way round, a literal is scanned from the left: escapes give way to their characters and all
else stays as it is (`StringLiteral.ReadsTo`). What looks like a Unicode escape without being one can
come out differently (`StringLiteral.Misread`): decoding cuts four characters out behind all of the
`u`, takes a number with a sign or with too few digits, and puts a single `u` back. A literal in which
the scan meets nothing of the kind has the value that the scan gives it
(`StringLiteral.value?_replaces_escapes`).
-/

namespace JakartaCheck

namespace Text

/-! ### Hexadecimal numerals -/

/-- `c` is the digit `v` of base sixteen, as a small or a capital letter. -/
def IsHexDigit (c : Char) (v : Nat) : Prop :=
  v < 16 ∧ (c = v.digitChar ∨ c = v.digitChar.toUpper)

instance (c : Char) (v : Nat) : Decidable (IsHexDigit c v) := inferInstanceAs (Decidable (_ ∧ _))

/-- `ds` are digits of `n`, the highest first. -/
def IsHexNumeral (ds : List Char) (n : Nat) : Prop :=
  ∃ vs, List.Forall₂ IsHexDigit ds vs ∧ n = Nat.ofDigits 16 vs.reverse

theorem hexValue?_eq_some_iff {c : Char} {v : Nat} : hexValue? c = some v ↔ IsHexDigit c v := by
  constructor
  · intro h
    have ascii : c.toNat < 128 := by
      unfold hexValue? at h
      split at h
      · exact Nat.lt_of_le_of_lt (UInt32.le_iff_toNat_le.1 (‹_ ∧ _›).2) (by decide)
      · split at h
        · exact Nat.lt_of_le_of_lt (UInt32.le_iff_toNat_le.1 (‹_ ∧ _›).2) (by decide)
        · split at h
          · exact Nat.lt_of_le_of_lt (UInt32.le_iff_toNat_le.1 (‹_ ∧ _›).2) (by decide)
          · cases h
    have all : ∀ n < 128, (hexValue? (Char.ofNat n)).all fun v =>
        decide (IsHexDigit (Char.ofNat n) v) := by decide
    have here := all c.toNat ascii
    rw [Char.ofNat_toNat, h] at here
    exact of_decide_eq_true here
  · rintro ⟨hv, rfl | rfl⟩
    · exact (by decide : ∀ v < 16, hexValue? v.digitChar = some v) v hv
    · exact (by decide : ∀ v < 16, hexValue? v.digitChar.toUpper = some v) v hv

theorem digitsFrom?_eq_some_iff {ds : List Char} {acc n : Nat} : digitsFrom? 16 acc ds = some n ↔
    ∃ vs, List.Forall₂ IsHexDigit ds vs ∧ n = Nat.ofDigits 16 (vs.reverse ++ [acc]) := by
  induction ds generalizing acc with
  | nil => simp [digitsFrom?, eq_comm]
  | cons c ds ih =>
    have step : ∀ v vs, Nat.ofDigits 16 (vs.reverse ++ [16 * acc + v]) =
        Nat.ofDigits 16 ((v :: vs).reverse ++ [acc]) := by
      intro v vs
      simp only [List.reverse_cons, Nat.ofDigits_append, Nat.ofDigits_singleton,
        List.length_append, List.length_singleton, pow_succ]
      ring
    rw [digitsFrom?]
    constructor
    · intro h
      cases hc : hexValue? c with
      | none => simp [hc] at h
      | some v =>
        have digit := hexValue?_eq_some_iff.1 hc
        simp only [hc, digit.1, if_true] at h
        obtain ⟨vs, digits, rfl⟩ := ih.1 h
        exact ⟨v :: vs, .cons digit digits, step v vs⟩
    · rintro ⟨_, _ | @⟨_, v, _, vs, digit, digits⟩, rfl⟩
      simp only [hexValue?_eq_some_iff.2 digit, digit.1, if_true]
      exact ih.2 ⟨vs, digits, (step v vs).symm⟩

theorem digitsFrom?_zero_eq_some_iff {ds : List Char} {n : Nat} :
    digitsFrom? 16 0 ds = some n ↔ IsHexNumeral ds n := by
  simp [digitsFrom?_eq_some_iff, IsHexNumeral, Nat.ofDigits_append]

theorem IsHexNumeral.head_ne {ds : List Char} {n : Nat} (h : IsHexNumeral ds n) (ne : ds ≠ [])
    (rest : List Char) : (ds ++ rest).head? ≠ some 'u' := by
  intro head
  obtain ⟨_, _ | ⟨digit, _⟩, -⟩ := h
  · exact ne rfl
  · obtain rfl := Option.some.inj head
    cases hexValue?_eq_some_iff.2 digit

theorem scalar?_eq_some_iff {n : Nat} {c : Char} : scalar? n = some c ↔ n = c.toNat := by
  unfold scalar?
  constructor
  · intro h
    split at h
    · rename_i valid
      rw [← Option.some.inj h, Char.ofNat, dif_pos valid]
      rfl
    · cases h
  · rintro rfl
    rw [if_pos (show c.toNat.isValidChar from c.valid), Char.ofNat_toNat]

end Text

namespace StringLiteral

open Text

/-! ### Escapes -/

/-- What stands behind the backslash of a simple escape, and the character that the escape stands
for. -/
def simpleEscapes : List (Char × Char) :=
  [('n', '\n'), ('t', '\t'), ('r', '\r'), ('b', '\x08'), ('f', '\x0c'), ('s', ' '), ('0', '\x00'),
    ('"', '"'), ('\'', '\''), ('\\', '\\')]

/-- The escape stands for the character. -/
inductive Escape : List Char → Char → Prop
  | simple {e c : Char} (h : (e, c) ∈ simpleEscapes) : Escape ['\\', e] c
  | unicode {ds : List Char} {c : Char} (more : Nat) (four : ds.length = 4)
      (h : IsHexNumeral ds c.toNat) :
      Escape ('\\' :: 'u' :: (List.replicate more 'u' ++ ds)) c

theorem simpleEscape?_eq_some_iff {e c : Char} :
    simpleEscape? e = some c ↔ (e, c) ∈ simpleEscapes := by
  constructor
  · intro h
    unfold simpleEscape? at h
    split at h
    case h_11 => cases h
    all_goals
      obtain rfl := Option.some.inj h
      decide
  · exact (by decide : ∀ p ∈ simpleEscapes, simpleEscape? p.1 = some p.2) (e, c)

/-- A sign is taken for part of the number. -/
theorem hexNumber?_eq_some_iff {ds : List Char} {n : Nat} : hexNumber? ds = some n ↔
    (ds ≠ [] ∧ IsHexNumeral ds n) ∨ ∃ rest, ds = '+' :: rest ∧ rest ≠ [] ∧ IsHexNumeral rest n := by
  have number : ∀ cs : List Char,
      (if cs.isEmpty then none else digitsFrom? 16 0 cs) = some n ↔ cs ≠ [] ∧ IsHexNumeral cs n := by
    intro cs
    rw [← digitsFrom?_zero_eq_some_iff]
    cases cs <;> simp
  unfold hexNumber?
  split
  · rename_i rest
    rw [number]
    have noDigit : ¬ IsHexNumeral ('+' :: rest) n := by
      rintro ⟨_, _ | ⟨digit, _⟩, -⟩
      have value := hexValue?_eq_some_iff.2 digit
      cases value
    simp [noDigit]
  · rename_i unsigned
    rw [number]
    exact ⟨.inl, fun h => h.elim id fun ⟨rest, signed, _⟩ => absurd signed (unsigned rest)⟩

/-- The text starts with an escape. -/
def StartsEscape (cs : List Char) : Prop := ∃ esc c rest, Escape esc c ∧ cs = esc ++ rest

theorem dropWhile_u (more : Nat) {rest : List Char} (h : rest.head? ≠ some 'u') :
    (List.replicate more 'u' ++ rest).dropWhile (· == 'u') = rest := by
  rw [List.dropWhile_append_of_pos (by simp)]
  cases rest with
  | nil => rfl
  | cons c rest => exact List.dropWhile_cons_of_neg (by simpa using h)

theorem exists_replicate_append_dropWhile (cs : List Char) :
    ∃ more, cs = List.replicate more 'u' ++ cs.dropWhile (· == 'u') := by
  have us : cs.takeWhile (· == 'u') = List.replicate (cs.takeWhile (· == 'u')).length 'u' :=
    List.eq_replicate_iff.2 ⟨rfl, fun c hc => by simpa using List.mem_takeWhile_imp hc⟩
  exact ⟨_, by rw [← us, List.takeWhile_append_dropWhile]⟩

theorem startsEscape_unicode_iff {cs : List Char} : StartsEscape ('\\' :: 'u' :: cs) ↔
    ∃ c : Char, ((cs.dropWhile (· == 'u')).take 4).length = 4 ∧
      IsHexNumeral ((cs.dropWhile (· == 'u')).take 4) c.toNat := by
  constructor
  · rintro ⟨esc, c, rest, escape, eq⟩
    cases escape with
    | simple h =>
      obtain ⟨rfl, -⟩ : 'u' = _ ∧ _ := by simpa using eq
      revert h
      simp [simpleEscapes]
    | @unicode ds _ more four h =>
      obtain rfl : cs = List.replicate more 'u' ++ (ds ++ rest) := by simpa using eq
      have ne : ds ≠ [] := List.ne_nil_of_length_eq_add_one four
      rw [dropWhile_u more (h.head_ne ne rest), List.take_left' four]
      exact ⟨c, four, h⟩
  · rintro ⟨c, four, h⟩
    obtain ⟨more, eq⟩ := exists_replicate_append_dropWhile cs
    refine ⟨_, c, (cs.dropWhile (· == 'u')).drop 4, .unicode more four h, ?_⟩
    rw [List.cons_append, List.cons_append, List.append_assoc, List.take_append_drop, ← eq]

theorem startsEscape_simple_iff {e : Char} {cs : List Char} (he : e ≠ 'u') :
    StartsEscape ('\\' :: e :: cs) ↔ ∃ c, (e, c) ∈ simpleEscapes := by
  constructor
  · rintro ⟨esc, c, rest, escape, eq⟩
    cases escape with
    | simple h =>
      obtain ⟨rfl, -⟩ : e = _ ∧ _ := by simpa using eq
      exact ⟨c, h⟩
    | unicode more four h => exact absurd (List.cons.inj (List.cons.inj eq).2).1 he
  · rintro ⟨c, h⟩
    exact ⟨_, c, cs, .simple h, rfl⟩

theorem Escape.head {esc : List Char} {c : Char} (h : Escape esc c) :
    ∃ e cs, esc = '\\' :: e :: cs := by
  cases h with
  | simple => exact ⟨_, _, rfl⟩
  | unicode => exact ⟨_, _, rfl⟩

theorem StartsEscape.head {cs : List Char} (h : StartsEscape cs) :
    ∃ e rest, cs = '\\' :: e :: rest := by
  obtain ⟨esc, c, rest, escape, rfl⟩ := h
  obtain ⟨e, cs, rfl⟩ := escape.head
  exact ⟨e, cs ++ rest, rfl⟩

/-- A test for `StartsEscape`. -/
def escapeInFront : List Char → Bool
  | '\\' :: 'u' :: cs =>
    let ds := (cs.dropWhile (· == 'u')).take 4
    ds.length == 4 && ((digitsFrom? 16 0 ds).bind scalar?).isSome
  | '\\' :: e :: _ => (simpleEscape? e).isSome
  | _ => false

theorem escapeInFront_iff {cs : List Char} : escapeInFront cs ↔ StartsEscape cs := by
  unfold escapeInFront
  split
  · rw [startsEscape_unicode_iff]
    simp [Option.isSome_iff_exists, Option.bind_eq_some_iff, digitsFrom?_zero_eq_some_iff,
      scalar?_eq_some_iff]
  · rename_i e _ he
    rw [startsEscape_simple_iff he]
    simp [Option.isSome_iff_exists, simpleEscape?_eq_some_iff]
  · rename_i no
    refine iff_of_false nofun fun h => ?_
    obtain ⟨e, rest, eq⟩ := h.head
    exact no e rest eq

instance (cs : List Char) : Decidable (StartsEscape cs) := decidable_of_iff _ escapeInFront_iff

theorem not_startsEscape {c : Char} (h : c ≠ '\\') (rest : List Char) : ¬ StartsEscape (c :: rest) := by
  intro escape
  obtain ⟨e, cs, eq⟩ := escape.head
  exact h (List.cons.inj eq).1

/-! ### Decoding escapes -/

theorem decode_plain {c : Char} (h : c ≠ '\\') (cs : List Char) : decode (c :: cs) = c :: decode cs :=
  decode.eq_4 c cs (fun _ hc => absurd hc h) (fun _ _ hc => absurd hc h)

theorem decode_lone : decode ['\\'] = ['\\'] := by
  simp [decode]

theorem decode_escape {esc : List Char} {c : Char} (h : Escape esc c) (rest : List Char) :
    decode (esc ++ rest) = c :: decode rest := by
  cases h with
  | @simple e c h =>
    have ne : e ≠ 'u' := by
      rintro rfl
      revert h
      simp [simpleEscapes]
    rw [List.cons_append, List.singleton_append, decode.eq_3 e rest ne,
      simpleEscape?_eq_some_iff.2 h]
  | @unicode ds c more four h =>
    have ne : ds ≠ [] := List.ne_nil_of_length_eq_add_one four
    have number : hexNumber? ds = some c.toNat := hexNumber?_eq_some_iff.2 (.inl ⟨ne, h⟩)
    have scalar : scalar? c.toNat = some c := scalar?_eq_some_iff.2 rfl
    rw [List.cons_append, List.cons_append, List.append_assoc, decode.eq_2,
      dropWhile_u more (h.head_ne ne rest), List.take_left' four, List.drop_left' four, number,
      Option.bind_some, scalar]

/-- Where characters are read for themselves, so is their whole run. -/
theorem decode_run {n : Nat} {cs : List Char}
    (copied : ∀ i < n, ∀ c rest, cs.drop i = c :: rest → decode (c :: rest) = c :: decode rest) :
    decode cs = cs.take n ++ decode (cs.drop n) := by
  induction n generalizing cs with
  | zero => rfl
  | succ n ih =>
    cases cs with
    | nil => rfl
    | cons c rest =>
      rw [copied 0 (Nat.succ_pos n) c rest rfl, ih fun i hi => copied (i + 1) (Nat.succ_lt_succ hi)]
      rfl

/-! ### Reading -/

/-- Scanned from the left, the body gives `out` before the scan comes to `cs`: escapes stand for their
characters and all else for itself. -/
inductive ReadsTo : List Char → List Char → List Char → Prop
  | here (cs : List Char) : ReadsTo cs [] cs
  | escape {esc rest out cs : List Char} {c : Char} (h : Escape esc c) (more : ReadsTo rest out cs) :
      ReadsTo (esc ++ rest) (c :: out) cs
  | copy {c : Char} {rest out cs : List Char} (no : ¬ StartsEscape (c :: rest))
      (more : ReadsTo rest out cs) : ReadsTo (c :: rest) (c :: out) cs

/-- What the text starts with looks like a Unicode escape, and is neither one nor read for itself. -/
inductive Misread : List Char → Prop
  /-- Of several `u` only one is kept. -/
  | repeated {cs : List Char} (no : ¬ StartsEscape ('\\' :: 'u' :: 'u' :: cs)) :
      Misread ('\\' :: 'u' :: 'u' :: cs)
  /-- At the end, less than four digits are taken for a number as well. -/
  | short {ds : List Char} {n : Nat} (ne : ds ≠ []) (few : ds.length < 4) (h : IsHexNumeral ds n) :
      Misread ('\\' :: 'u' :: ds)
  /-- So are digits behind a plus sign, up to three of them. -/
  | signed {ds rest : List Char} {n : Nat} (ne : ds ≠ [])
      (few : ds.length = 3 ∨ ds.length < 3 ∧ rest = []) (h : IsHexNumeral ds n) :
      Misread ('\\' :: 'u' :: '+' :: (ds ++ rest))
  /-- An escape among the next four characters is not replaced. -/
  | swallowed {between cs : List Char} (few : between.length < 4) (h : StartsEscape cs) :
      Misread ('\\' :: 'u' :: (between ++ cs))

/-- The scan of the body comes to nothing that is misread. -/
def Sound (body : List Char) : Prop := ∀ out cs, ReadsTo body out cs → ¬ Misread cs

theorem ReadsTo.drop {n : Nat} {cs : List Char} (h : ∀ i < n, ¬ StartsEscape (cs.drop i)) :
    ReadsTo cs (cs.take n) (cs.drop n) := by
  induction n generalizing cs with
  | zero => exact .here cs
  | succ n ih =>
    cases cs with
    | nil => exact .here []
    | cons c rest =>
      exact .copy (h 0 (Nat.succ_pos n)) (ih fun i hi => h (i + 1) (Nat.succ_lt_succ hi))

theorem ReadsTo.trans {a b c out out' : List Char} (h : ReadsTo a out b) (h' : ReadsTo b out' c) :
    ReadsTo a (out ++ out') c := by
  induction h with
  | here => exact h'
  | escape escape _ ih => exact .escape escape (ih h')
  | copy no _ ih => exact .copy no (ih h')

theorem ReadsTo.suffix {body out cs : List Char} (h : ReadsTo body out cs) : cs <:+ body := by
  induction h with
  | here cs => exact List.suffix_refl cs
  | @escape esc rest _ _ _ _ _ ih => exact ih.trans (List.suffix_append esc rest)
  | @copy c rest _ _ _ _ ih => exact ih.trans (List.suffix_cons c rest)

theorem Sound.of_readsTo {body out cs : List Char} (h : Sound body) (reads : ReadsTo body out cs) :
    Sound cs :=
  fun _ _ more => h _ _ (reads.trans more)

/-- Nothing behind the `u` of a malformed escape is taken for a number. -/
theorem number_eq_none {cs : List Char} (no : ¬ StartsEscape ('\\' :: 'u' :: cs))
    (sound : ¬ Misread ('\\' :: 'u' :: cs)) (single : cs.head? ≠ some 'u') :
    (hexNumber? (cs.take 4)).bind scalar? = none := by
  refine Option.eq_none_iff_forall_ne_some.2 fun c eq => ?_
  obtain ⟨n, number, scalar⟩ := Option.bind_eq_some_iff.1 eq
  obtain rfl := scalar?_eq_some_iff.1 scalar
  rcases hexNumber?_eq_some_iff.1 number with ⟨ne, h⟩ | ⟨ds, signed, ne, h⟩
  · by_cases four : (cs.take 4).length = 4
    · refine no (startsEscape_unicode_iff.2 ⟨c, ?_⟩)
      have whole : cs.dropWhile (· == 'u') = cs := dropWhile_u 0 single
      rw [whole]
      exact ⟨four, h⟩
    · have short : cs.length < 4 := by
        rw [List.length_take] at four
        omega
      rw [List.take_of_length_le (Nat.le_of_lt short)] at ne h
      exact sound (.short ne short h)
  · obtain ⟨rest, rfl⟩ : ∃ rest, cs = '+' :: (ds ++ rest) := by
      refine ⟨cs.drop 4, ?_⟩
      rw [← List.cons_append, ← signed, List.take_append_drop]
    have taken : (ds ++ rest).take 3 = ds := by simpa using signed
    refine sound (.signed ne ?_ h)
    have := congrArg List.length taken
    rw [List.length_take, List.length_append] at this
    rw [← List.length_eq_zero_iff]
    omega

/-- The four characters that are cut out behind the `u` are the same as if they were read one by
one. -/
theorem decode_malformed {cs : List Char} (sound : Sound ('\\' :: 'u' :: cs))
    (no : ¬ StartsEscape ('\\' :: 'u' :: cs))
    (copied : ∀ c rest, rest.length < cs.length → Sound (c :: rest) → ¬ StartsEscape (c :: rest) →
      decode (c :: rest) = c :: decode rest) :
    decode ('\\' :: 'u' :: cs) = '\\' :: 'u' :: decode cs := by
  have here := sound _ _ (.here _)
  have single : cs.head? ≠ some 'u' := by
    intro head
    obtain ⟨cs, rfl⟩ := List.head?_eq_some_iff.1 head
    exact here (.repeated no)
  have clear : ∀ i < 4, ¬ StartsEscape (cs.drop i) := by
    intro i hi escape
    have few : (cs.take i).length < 4 := Nat.lt_of_le_of_lt (List.length_take_le i cs) hi
    have swallowed := Misread.swallowed few escape
    rw [List.take_append_drop] at swallowed
    exact here swallowed
  have later : ∀ i < 4, Sound (cs.drop i) := by
    intro i hi
    have u : ¬ StartsEscape ('u' :: cs) := not_startsEscape (by decide) cs
    exact sound.of_readsTo (.copy no (.copy u (.drop fun j hj => clear j (hj.trans hi))))
  have run : decode cs = cs.take 4 ++ decode (cs.drop 4) := by
    refine decode_run fun i hi c rest eq => ?_
    have shorter : rest.length < cs.length := by
      have := congrArg List.length eq
      rw [List.length_drop, List.length_cons] at this
      omega
    exact copied c rest shorter (eq ▸ later i hi) (eq ▸ clear i hi)
  have whole : cs.dropWhile (· == 'u') = cs := dropWhile_u 0 single
  rw [decode.eq_2, whole, number_eq_none no here single, run]
  rfl

/-- Where no escape starts, a character of a sound body is read for itself. -/
theorem decode_copy {c : Char} {rest : List Char} (sound : Sound (c :: rest))
    (no : ¬ StartsEscape (c :: rest)) : decode (c :: rest) = c :: decode rest := by
  induction hn : rest.length using Nat.strong_induction_on generalizing c rest with
  | _ n ih =>
    subst hn
    by_cases hc : c = '\\'
    · subst hc
      cases rest with
      | nil => rw [decode_lone, decode.eq_1]
      | cons e cs =>
        by_cases he : e = 'u'
        · subst he
          have copied : ∀ c rest, rest.length < cs.length → Sound (c :: rest) →
              ¬ StartsEscape (c :: rest) → decode (c :: rest) = c :: decode rest :=
            fun _ rest shorter sound no => ih rest.length (Nat.lt_succ_of_lt shorter) sound no rfl
          rw [decode_malformed sound no copied, decode_plain (by decide)]
        · have unknown : simpleEscape? e = none := by
            refine Option.eq_none_iff_forall_ne_some.2 fun d eq => no ?_
            exact (startsEscape_simple_iff he).2 ⟨d, simpleEscape?_eq_some_iff.1 eq⟩
          have ne : e ≠ '\\' := by
            rintro rfl
            cases unknown
          rw [decode.eq_3 e cs he, unknown, decode_plain ne]
    · exact decode_plain hc rest

theorem decode_eq_of_readsTo {body out cs : List Char} (sound : Sound body)
    (h : ReadsTo body out cs) : decode body = out ++ decode cs := by
  induction h with
  | here => rfl
  | escape escape _ ih =>
    rw [decode_escape escape, ih (sound.of_readsTo (.escape escape (.here _)))]
    rfl
  | copy no _ ih =>
    rw [decode_copy sound no, ih (sound.of_readsTo (.copy no (.here _)))]
    rfl

/-- Every body has a reading. -/
theorem exists_readsTo (body : List Char) : ∃ out, ReadsTo body out [] := by
  by_cases h : StartsEscape body
  · obtain ⟨esc, c, rest, escape, rfl⟩ := h
    have shorter : rest.length < (esc ++ rest).length := by
      obtain ⟨e, cs, rfl⟩ := escape.head
      simp only [List.length_append, List.length_cons]
      omega
    obtain ⟨out, reads⟩ := exists_readsTo rest
    exact ⟨c :: out, .escape escape reads⟩
  · cases body with
    | nil => exact ⟨[], .here []⟩
    | cons c rest =>
      obtain ⟨out, reads⟩ := exists_readsTo rest
      exact ⟨c :: out, .copy h reads⟩
termination_by body.length

/-! ### Literals -/

/-- The body between two quotes. -/
def quoted (body : List Char) : String := String.ofList ('"' :: (body ++ ['"']))

/-- Between quotes, the body does not start a text block. -/
def Plain (body : List Char) : Prop := ¬ quotes <+: '"' :: (body ++ ['"'])

instance (body : List Char) : Decidable (Plain body) :=
  inferInstanceAs (Decidable (¬ _))

theorem value?_quoted {body : List Char} (plain : Plain body) :
    value? (quoted body) = some (String.ofList (decode body)) := by
  have block : quotes.isPrefixOf ('"' :: (body ++ ['"'])) = false :=
    Bool.eq_false_iff.2 fun h => plain (List.isPrefixOf_iff_prefix.1 h)
  have inner : body? ('"' :: (body ++ ['"'])) = some body := by
    simp [body?, Text.stripFront, Text.stripBack, block]
  rw [value?, quoted, String.toList_ofList, inner]
  rfl

/-- In a literal, a character is written as it is or by an escape. -/
inductive Spells (c : Char) : List Char → Prop
  | verbatim (quote : c ≠ '"') (backslash : c ≠ '\\') : Spells c [c]
  | escaped {esc : List Char} (h : Escape esc c) : Spells c esc

theorem decode_spelled {c : Char} {piece : List Char} (h : Spells c piece) (rest : List Char) :
    decode (piece ++ rest) = c :: decode rest := by
  cases h with
  | verbatim _ backslash => exact decode_plain backslash rest
  | escaped h => exact decode_escape h rest

theorem Spells.head {c : Char} {piece : List Char} (h : Spells c piece) :
    ∃ d cs, piece = d :: cs ∧ d ≠ '"' := by
  cases h with
  | verbatim quote _ => exact ⟨c, [], rfl, quote⟩
  | escaped h =>
    obtain ⟨e, cs, rfl⟩ := h.head
    exact ⟨'\\', e :: cs, rfl, by decide⟩

theorem plain_flatten {cs : List Char} {pieces : List (List Char)} (h : List.Forall₂ Spells cs pieces) :
    Plain pieces.flatten := by
  rintro block
  cases h with
  | nil => exact absurd block (by decide)
  | cons spelled _ =>
    obtain ⟨d, ds, rfl, quote⟩ := spelled.head
    obtain ⟨rest, eq⟩ := block
    exact quote (List.cons.inj (List.cons.inj eq).2).1.symm

/-- However a string is written between quotes, the literal denotes it. -/
theorem value?_spelled {s : String} {pieces : List (List Char)}
    (h : List.Forall₂ Spells s.toList pieces) : value? (quoted pieces.flatten) = some s := by
  have decoded : ∀ {cs : List Char} {pieces : List (List Char)}, List.Forall₂ Spells cs pieces →
      decode pieces.flatten = cs := by
    intro cs pieces h
    induction h with
    | nil => exact decode.eq_1
    | cons spelled _ ih => rw [List.flatten_cons, decode_spelled spelled, ih]
  rw [value?_quoted (plain_flatten h), decoded h, String.ofList_toList]

/-- A letter as it is, a quote by its simple escape, a letter by its code. -/
theorem value?_spelled_in_three_ways :
    List.Forall₂ Spells "u\"J".toList [['u'], ['\\', '"'], "\\uu004a".toList] ∧
      value? "\"u\\\"\\uu004a\"" = some "u\"J" := by
  have spelled : List.Forall₂ Spells "u\"J".toList [['u'], ['\\', '"'], "\\uu004a".toList] :=
    .cons (.verbatim (by decide) (by decide)) (.cons (.escaped (.simple (by decide)))
      (.cons (.escaped (@Escape.unicode ['0', '0', '4', 'a'] 'J' 1 rfl
        (digitsFrom?_zero_eq_some_iff.1 (by decide)))) .nil))
  have written : quoted (List.flatten [['u'], ['\\', '"'], "\\uu004a".toList]) =
      "\"u\\\"\\uu004a\"" := by
    decide +kernel
  have value := value?_spelled spelled
  rw [written] at value
  exact ⟨spelled, value⟩

/-- The value of a literal is the only reading of its body, if nothing in it is misread. -/
theorem value?_replaces_escapes {body : List Char} (plain : Plain body) (sound : Sound body) :
    ∃ out, value? (quoted body) = some (String.ofList out) ∧
      ∀ out', ReadsTo body out' [] ↔ out' = out := by
  have unique : ∀ out', ReadsTo body out' [] → out' = decode body := by
    intro out' reads
    rw [decode_eq_of_readsTo sound reads, decode.eq_1, List.append_nil]
  obtain ⟨out, reads⟩ := exists_readsTo body
  refine ⟨decode body, value?_quoted plain, fun out' => ⟨unique out', ?_⟩⟩
  rintro rfl
  rw [← unique out reads]
  exact reads

theorem Misread.head {cs : List Char} (h : Misread cs) : ∃ rest, cs = '\\' :: 'u' :: rest := by
  cases h with
  | repeated => exact ⟨_, rfl⟩
  | short => exact ⟨_, rfl⟩
  | signed => exact ⟨_, rfl⟩
  | swallowed => exact ⟨_, rfl⟩

/-- A `\u` with another letter behind it is read for itself, unless an escape is near. -/
theorem not_misread {c : Char} {cs : List Char} (other : c ≠ 'u' ∧ c ≠ '+' ∧ hexValue? c = none)
    (clear : ∀ i < 4, ¬ StartsEscape ((c :: cs).drop i)) : ¬ Misread ('\\' :: 'u' :: c :: cs) := by
  intro h
  generalize eq : '\\' :: 'u' :: c :: cs = body at h
  cases h with
  | repeated => exact other.1 (List.cons.inj (List.cons.inj (List.cons.inj eq).2).2).1
  | short _ _ numeral =>
    obtain rfl := (List.cons.inj (List.cons.inj eq).2).2
    obtain ⟨_, _ | ⟨digit, _⟩, -⟩ := numeral
    have value := hexValue?_eq_some_iff.2 digit
    rw [other.2.2] at value
    cases value
  | signed => exact other.2.1 (List.cons.inj (List.cons.inj (List.cons.inj eq).2).2).1
  | @swallowed between _ few escape =>
    have rest := (List.cons.inj (List.cons.inj eq).2).2
    refine clear between.length few ?_
    rw [rest, List.drop_left]
    exact escape

theorem Sound.of_drop {body : List Char} (h : ∀ i < body.length, ¬ Misread (body.drop i)) :
    Sound body := by
  intro out cs reads misread
  obtain ⟨front, rfl⟩ := reads.suffix
  obtain ⟨rest, rfl⟩ := misread.head
  refine h front.length ?_ (by rwa [List.drop_left])
  rw [List.length_append, List.length_cons]
  omega

/-- Two sequences that are unknown, and an escape. -/
theorem value?_replaces_escapes_unknown :
    ReadsTo "\\q\\uzzzz\\\\".toList "\\q\\uzzzz\\".toList [] ∧
      value? (quoted "\\q\\uzzzz\\\\".toList) = some "\\q\\uzzzz\\" := by
  have sound : Sound "\\q\\uzzzz\\\\".toList := by
    refine .of_drop fun i hi misread => ?_
    by_cases two : i = 2
    · subst two
      exact not_misread (by decide) (by decide) misread
    · obtain ⟨rest, eq⟩ := misread.head
      have other : ∀ i < 10, i ≠ 2 → ("\\q\\uzzzz\\\\".toList.drop i).take 2 ≠ ['\\', 'u'] := by decide
      exact other i hi two (by rw [eq]; rfl)
  have reads : ReadsTo "\\q\\uzzzz\\\\".toList "\\q\\uzzzz\\".toList [] :=
    (ReadsTo.drop (by decide : ∀ i < 8, ¬ StartsEscape ("\\q\\uzzzz\\\\".toList.drop i))).trans
      (.escape (.simple (by decide)) (.here []))
  obtain ⟨out, value, unique⟩ := value?_replaces_escapes (by decide) sound
  obtain rfl := (unique _).1 reads
  exact ⟨reads, value⟩

/-- An escape of half a surrogate pair stands for no character, but loses a `u`. -/
theorem value?_drops_u :
    Plain "\\uuD83D\\uuDE00".toList ∧
      ReadsTo "\\uuD83D\\uuDE00".toList "\\uuD83D\\uuDE00".toList [] ∧
      value? (quoted "\\uuD83D\\uuDE00".toList) = some "\\uD83D\\uDE00" := by
  have copied : ∀ i < 14, ¬ StartsEscape ("\\uuD83D\\uuDE00".toList.drop i) := by decide
  exact ⟨by decide, ReadsTo.drop copied, by decide +kernel⟩

end StringLiteral

end JakartaCheck
