import JakartaCheck.Proofs.EditorExchange

/-!
# Offsets and positions are ordered alike

Going right in a text never goes back in positions (`position_le`), and only the step from `\r` to
its `\n` stays where it was: two places outside `\r\n` with one position would both be the offset of
this position. So a range of positions selects a range of the text exactly if its ends have offsets and
are in order, and a range of the text that is told as positions is understood.
-/

namespace JakartaCheck

open Text (byteLen units16 CutAt)

namespace Position

/-- `p` stands in front of `q`. -/
def lt (p q : Position) : Bool := p.line < q.line || (p.line == q.line && p.column < q.column)

variable {p q : Position}

theorem le_iff : p.le q ↔ p.line < q.line ∨ (p.line = q.line ∧ p.column ≤ q.column) := by
  simp [le]

theorem lt_iff : p.lt q ↔ p.line < q.line ∨ (p.line = q.line ∧ p.column < q.column) := by
  simp [lt]

theorem lt_of_le_of_ne (h : p.le q) (hne : p ≠ q) : p.lt q := by
  rw [le_iff] at h
  rw [lt_iff]
  rcases h with h | ⟨hline, hcolumn⟩
  · exact .inl h
  · exact .inr ⟨hline, Nat.lt_of_le_of_ne hcolumn fun heq => hne (Position.ext hline heq)⟩

theorem not_le_of_lt (h : p.lt q) : ¬ q.le p := by
  rw [lt_iff] at h
  rw [le_iff]
  omega

end Position

theorem Text.clip_le (text : String) (offset : Nat) : clip text offset ≤ offset := by
  unfold clip
  split <;> omega

namespace LineIndex

/-- A longer front part of a line has no fewer units. -/
theorem units16_le_of_front {line a b a' b' : List Char} (h : line = a ++ b) (h' : line = a' ++ b')
    (hle : byteLen a ≤ byteLen a') : units16 a ≤ units16 a' := by
  obtain ⟨m, rfl, -⟩ := Text.exists_append_of_byteLen_le (h.symm.trans h') hle
  rw [Text.units16_append]
  exact Nat.le_add_right ..

theorem position_le {cs : List Char} {a b : Nat} {p q : Position} (hab : a ≤ b) (hb : b ≤ byteLen cs)
    (hp : positionIn cs a = .ok p) (hq : positionIn cs b = .ok q) : p.le q := by
  rw [Position.le_iff]
  induction lined cs generalizing a b p q with
  | last hline =>
    obtain ⟨x, _, hx, hxa, rfl⟩ := (position_last hline (by omega)).1 hp
    obtain ⟨y, _, hy, hyb, rfl⟩ := (position_last hline hb).1 hq
    exact .inr ⟨rfl, units16_le_of_front hx hy (by omega)⟩
  | @more line mark rest hline hmark _ ih =>
    rcases Nat.lt_or_ge b (byteLen (line ++ mark)) with hfront | hlater
    · obtain ⟨x, _, hx, hxa, rfl⟩ := (position_front hline hmark (by omega)).1 hp
      obtain ⟨y, _, hy, hyb, rfl⟩ := (position_front hline hmark hfront).1 hq
      exact .inr ⟨rfl, units16_le_of_front hx hy (by omega)⟩
    obtain ⟨q, hq', rfl⟩ := (position_later hline hmark hlater hb).1 hq
    rcases Nat.lt_or_ge a (byteLen (line ++ mark)) with hfront | hlater'
    · obtain ⟨x, _, -, -, rfl⟩ := (position_front hline hmark hfront).1 hp
      exact .inl (Nat.succ_pos _)
    · obtain ⟨p, hp', rfl⟩ := (position_later hline hmark hlater' (by omega)).1 hp
      have := ih (by omega) (later_le_byteLen hb) hp' hq'
      simp only
      omega

variable {text : String} {a b : Nat} {p q : Position}

/-- A position has an offset exactly if it is the position of a place outside `\r\n`. -/
theorem offset?_eq_some_iff_placed : (ofText text).offset? text p = some a ↔
    Text.Placed text a ∧ (ofText text).position text a = .ok p := by
  obtain ⟨cs, rfl⟩ : ∃ cs, text = String.ofList cs := ⟨text.toList, by simp⟩
  rw [show (ofText _).offset? _ p = offsetOf? cs p from rfl, offset?_eq_some_iff_position, ← and_assoc]
  refine and_congr_left' ⟨fun h => ⟨?_, ?_⟩, fun h => ⟨?_, ?_⟩⟩
  · exact Text.isBoundary_iff.2 (by simpa using h.1)
  · simpa using h.2
  · simpa using Text.isBoundary_iff.1 h.cut
  · simpa using h.outside

theorem position_le_of_isBoundary (hab : a ≤ b) (hb : Text.isBoundary text b)
    (hp : (ofText text).position text a = .ok p) (hq : (ofText text).position text b = .ok q) :
    p.le q := by
  obtain ⟨cs, rfl⟩ : ∃ cs, text = String.ofList cs := ⟨text.toList, by simp⟩
  exact position_le hab (by simpa using (Text.isBoundary_iff.1 hb).le) hp hq

/-- A place outside `\r\n` has a position of its own, behind those of all places to its left. -/
theorem position_lt_of_placed (hab : a < b) (ha : Text.isBoundary text a) (hb : Text.Placed text b)
    (hp : (ofText text).position text a = .ok p) (hq : (ofText text).position text b = .ok q) :
    p.lt q := by
  refine Position.lt_of_le_of_ne (position_le_of_isBoundary (Nat.le_of_lt hab) hb.cut hp hq) ?_
  rintro rfl
  obtain ⟨p', hp', hclip⟩ := exists_position ha
  obtain rfl := Except.ok.inj (hp'.symm.trans hp)
  have heq := Option.some.inj (hclip.symm.trans (offset?_eq_some_iff_placed.2 ⟨hb, hq⟩))
  have := Text.clip_le text a
  omega

/-- Two offsets are in order exactly if their positions are. -/
theorem offset_le_iff (hp : (ofText text).offset? text p = some a)
    (hq : (ofText text).offset? text q = some b) : a ≤ b ↔ p.le q := by
  obtain ⟨ha, hp⟩ := offset?_eq_some_iff_placed.1 hp
  obtain ⟨hb, hq⟩ := offset?_eq_some_iff_placed.1 hq
  refine ⟨fun hab => position_le_of_isBoundary hab hb.cut hp hq, fun hle => ?_⟩
  by_contra hba
  exact Position.not_le_of_lt (position_lt_of_placed (Nat.lt_of_not_le hba) hb.cut ha hq hp) hle

theorem byteRange?_eq_some_iff {r : ByteRange} : (ofText text).byteRange? text ⟨p, q⟩ = some r ↔
    (ofText text).offset? text p = some r.start ∧ (ofText text).offset? text q = some r.stop := by
  unfold byteRange?
  constructor
  · intro h
    obtain ⟨a, hp, h⟩ := Option.bind_eq_some_iff.1 h
    obtain ⟨b, hq, h⟩ := Option.bind_eq_some_iff.1 h
    split at h
    · obtain rfl := Option.some.inj h
      exact ⟨hp, hq⟩
    · cases h
  · rintro ⟨hp, hq⟩
    simp only [hp, hq, Option.bind_eq_bind, Option.bind_some]
    exact dif_pos r.start_le_stop

/-- Places of a text and their positions are ordered alike. Only the place inside `\r\n` shares its
position, with the place in front of it. Two positions select a range of the text exactly if both have
an offset and they are in order, and a range between places outside `\r\n` is selected by the
positions of its ends. -/
theorem position_ordered (text : String) :
    (∀ a b, a ≤ b → Text.isBoundary text a → Text.isBoundary text b → ∃ p q,
      (ofText text).position text a = .ok p ∧ (ofText text).position text b = .ok q ∧ p.le q ∧
        (a < b → ¬ InsideCrLf text.toList b → p.lt q)) ∧
    (∀ p q a b, (∃ r, (ofText text).byteRange? text ⟨p, q⟩ = some r ∧ r.start = a ∧ r.stop = b) ↔
      (ofText text).offset? text p = some a ∧ (ofText text).offset? text q = some b ∧ p.le q) ∧
    ∀ r : ByteRange, r.toSpan.Placed text → ∃ positions,
      (ofText text).range text r = .ok positions ∧
        (ofText text).byteRange? text positions = some r := by
  refine ⟨fun a b hab ha hb => ?_, fun p q a b => ⟨?_, ?_⟩, fun r h => ?_⟩
  · obtain ⟨p, hp, -⟩ := exists_position ha
    obtain ⟨q, hq, -⟩ := exists_position hb
    exact ⟨p, q, hp, hq, position_le_of_isBoundary hab hb hp hq,
      fun hlt outside => position_lt_of_placed hlt ha ⟨hb, outside⟩ hp hq⟩
  · rintro ⟨r, hr, rfl, rfl⟩
    obtain ⟨hp, hq⟩ := byteRange?_eq_some_iff.1 hr
    exact ⟨hp, hq, (offset_le_iff hp hq).1 r.start_le_stop⟩
  · rintro ⟨hp, hq, hle⟩
    exact ⟨⟨a, b, (offset_le_iff hp hq).2 hle⟩, byteRange?_eq_some_iff.2 ⟨hp, hq⟩, rfl, rfl⟩
  · obtain ⟨positions, hpositions, hr⟩ := ByteRange.exists_range (ByteRange.fits_of_placed h)
    exact ⟨positions, hpositions, by rwa [ByteRange.clip_eq h] at hr⟩

/-- The places around `\r\n`, behind a character of two units. -/
theorem position_ordered_crlf :
    (ofText "😀\r\nb").position "😀\r\nb" 5 = .ok ⟨0, 2⟩ ∧
      (ofText "😀\r\nb").position "😀\r\nb" 6 = .ok ⟨1, 0⟩ ∧ Position.lt ⟨0, 2⟩ ⟨1, 0⟩ ∧
      (ofText "😀\r\nb").byteRange? "😀\r\nb" ⟨⟨0, 2⟩, ⟨1, 1⟩⟩ = some ⟨4, 7, by decide⟩ := by
  obtain ⟨hordered, -, hrange⟩ := position_ordered "😀\r\nb"
  obtain ⟨p, q, hp, hq, -, hlt⟩ := hordered 5 6 (by decide) (by decide) (by decide)
  obtain rfl : ⟨0, 2⟩ = p := Except.ok.inj hp
  obtain rfl : ⟨1, 0⟩ = q := Except.ok.inj hq
  obtain ⟨positions, hpositions, hr⟩ := hrange ⟨4, 7, by decide⟩ ⟨by decide, by decide, by decide⟩
  obtain rfl : ⟨⟨0, 2⟩, ⟨1, 1⟩⟩ = positions := Except.ok.inj hpositions
  exact ⟨hp, hq, hlt (by decide) (by decide), hr⟩

end LineIndex

end JakartaCheck
