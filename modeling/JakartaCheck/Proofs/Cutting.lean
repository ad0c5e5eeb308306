import JakartaCheck.Text.Bytes

/-!
# Cutting a text at byte offsets

An offset is a place to cut `cs` if it is the length of a front part of `cs` (`CutAt`). Everything
that reads a text by offsets is put in terms of such front parts: `splitBytes?` finds them
(`splitBytes?_eq_some_iff`), a boundary is the length of one (`isBoundary_iff`), and a slice is what
stands between two of them (`slice?_eq_some_iff`).
-/

namespace JakartaCheck.Text

/-! ### Lengths -/

@[simp] theorem byteLen_nil : byteLen [] = 0 := rfl

@[simp] theorem byteLen_cons (c : Char) (cs : List Char) :
    byteLen (c :: cs) = c.utf8Size + byteLen cs := rfl

@[simp] theorem byteLen_append (a b : List Char) : byteLen (a ++ b) = byteLen a + byteLen b := by
  induction a with
  | nil => simp
  | cons c a ih => simp only [List.cons_append, byteLen_cons, ih]; omega

theorem byteLen_eq_zero {cs : List Char} : byteLen cs = 0 ↔ cs = [] := by
  cases cs with
  | nil => simp
  | cons c cs => have := c.utf8Size_pos; simp; omega

@[simp] theorem units16_nil : units16 [] = 0 := rfl

@[simp] theorem units16_cons (c : Char) (cs : List Char) :
    units16 (c :: cs) = units16Of c + units16 cs := rfl

@[simp] theorem units16_append (a b : List Char) : units16 (a ++ b) = units16 a + units16 b := by
  induction a with
  | nil => simp
  | cons c a ih => simp only [List.cons_append, units16_cons, ih]; omega

theorem units16Of_pos (c : Char) : 0 < units16Of c := by
  unfold units16Of; split <;> decide

theorem units16Of_le_utf8Size (c : Char) : units16Of c ≤ c.utf8Size := by
  have hpos := c.utf8Size_pos
  unfold units16Of
  split
  · omega
  · rename_i h
    have hle : ¬ c.val ≤ 0xffff := by
      rw [UInt32.le_iff_toNat_le]
      show ¬ c.toNat ≤ 0xffff
      omega
    have h7 : ¬ c.val ≤ 0x7f := fun h => hle (UInt32.le_trans h (by decide))
    have h11 : ¬ c.val ≤ 0x7ff := fun h => hle (UInt32.le_trans h (by decide))
    rw [Char.utf8Size]
    simp [h7, h11, hle]

theorem units16_le_byteLen (cs : List Char) : units16 cs ≤ byteLen cs := by
  induction cs with
  | nil => exact Nat.le_refl _
  | cons c cs ih => exact Nat.add_le_add (units16Of_le_utf8Size c) ih

theorem length_eq (text : String) : length text = byteLen text.toList := rfl

@[simp] theorem length_ofList (cs : List Char) : length (String.ofList cs) = byteLen cs := by
  rw [length_eq, String.toList_ofList]

/-! ### Front parts -/

/-- Of two front parts of one text the shorter one starts the longer one. -/
theorem exists_append_of_byteLen_le {a b a' b' : List Char} (h : a ++ b = a' ++ b')
    (hle : byteLen a ≤ byteLen a') : ∃ m, a' = a ++ m ∧ b = m ++ b' := by
  rcases List.append_eq_append_iff.1 h with ⟨m, ha, hb⟩ | ⟨m, ha, hb⟩
  · exact ⟨m, ha, hb⟩
  · have hm : m = [] := by
      rw [ha, byteLen_append] at hle
      exact byteLen_eq_zero.1 (by omega)
    subst hm
    exact ⟨[], by simpa using ha.symm, by simpa using hb.symm⟩

theorem append_inj_of_byteLen {a b a' b' : List Char} (h : a ++ b = a' ++ b')
    (hlen : byteLen a = byteLen a') : a = a' ∧ b = b' := by
  obtain ⟨m, ha, hb⟩ := exists_append_of_byteLen_le h (Nat.le_of_eq hlen)
  have hm : m = [] := by
    rw [ha, byteLen_append] at hlen
    exact byteLen_eq_zero.1 (by omega)
  subst hm
  exact ⟨by simpa using ha.symm, by simpa using hb⟩

/-- `cs` can be cut at offset `n`. -/
def CutAt (cs : List Char) (n : Nat) : Prop := ∃ a b, cs = a ++ b ∧ byteLen a = n

theorem CutAt.zero (cs : List Char) : CutAt cs 0 := ⟨[], cs, rfl, rfl⟩

theorem CutAt.le {cs : List Char} {n : Nat} (h : CutAt cs n) : n ≤ byteLen cs := by
  obtain ⟨a, b, rfl, rfl⟩ := h
  simp

/-- Behind a front part `a`, a text is cut where its rest is. -/
theorem cutAt_append {a b : List Char} {n : Nat} (hn : byteLen a ≤ n) :
    CutAt (a ++ b) n ↔ CutAt b (n - byteLen a) := by
  constructor
  · rintro ⟨x, y, h, rfl⟩
    obtain ⟨m, rfl, rfl⟩ := exists_append_of_byteLen_le h hn
    exact ⟨m, y, rfl, by rw [byteLen_append]; omega⟩
  · rintro ⟨x, y, rfl, hx⟩
    exact ⟨a ++ x, y, by simp, by rw [byteLen_append]; omega⟩

/-- Up to the end of a front part, a text is cut where that part is. -/
theorem cutAt_left {a b : List Char} {n : Nat} (hn : n ≤ byteLen a) : CutAt (a ++ b) n ↔ CutAt a n := by
  constructor
  · rintro ⟨x, y, h, rfl⟩
    obtain ⟨m, rfl, -⟩ := exists_append_of_byteLen_le h.symm hn
    exact ⟨x, m, rfl, rfl⟩
  · rintro ⟨x, y, rfl, hx⟩
    exact ⟨x, y ++ b, by simp, hx⟩

/-! ### ASCII texts -/

theorem byteLen_of_ascii {cs : List Char} (h : ∀ c ∈ cs, c.toNat < 128) : byteLen cs = cs.length := by
  induction cs with
  | nil => rfl
  | cons c cs ih =>
    obtain ⟨hc, hcs⟩ := List.forall_mem_cons.1 h
    have hle : c.val ≤ 0x7f := UInt32.le_iff_toNat_le.2 (Nat.le_of_lt_succ hc)
    have hone : c.utf8Size = 1 := if_pos hle
    rw [byteLen_cons, hone, ih hcs, List.length_cons, Nat.add_comm]

/-- An ASCII text is cut anywhere. -/
theorem cutAt_of_ascii {cs : List Char} (h : ∀ c ∈ cs, c.toNat < 128) {n : Nat} (hn : n ≤ cs.length) :
    CutAt cs n := by
  refine ⟨cs.take n, cs.drop n, (List.take_append_drop n cs).symm, ?_⟩
  rw [byteLen_of_ascii fun c hc => h c (List.mem_of_mem_take hc), List.length_take_of_le hn]

/-! ### Splitting and slicing -/

theorem splitBytes?_append (a b : List Char) : splitBytes? (byteLen a) (a ++ b) = some (a, b) := by
  induction a with
  | nil => cases b <;> simp [splitBytes?]
  | cons c a ih =>
    have h0 : byteLen (c :: a) ≠ 0 := fun h => by simpa using byteLen_eq_zero.1 h
    rw [List.cons_append, splitBytes?, if_neg h0]
    simp [ih]

theorem splitBytes?_eq_some_iff {n : Nat} {cs a b : List Char} :
    splitBytes? n cs = some (a, b) ↔ cs = a ++ b ∧ byteLen a = n := by
  constructor
  · intro h
    induction cs generalizing n a with
    | nil =>
      simp only [splitBytes?, Option.ite_none_right_eq_some, Option.some.injEq, Prod.mk.injEq] at h
      obtain ⟨rfl, rfl, rfl⟩ := h
      exact ⟨rfl, rfl⟩
    | cons c cs ih =>
      unfold splitBytes? at h
      split at h
      · obtain ⟨rfl, rfl⟩ : [] = a ∧ c :: cs = b := by simpa using h
        exact ⟨rfl, by simp [*]⟩
      · split at h
        · obtain ⟨⟨a, b⟩, hab, heq⟩ := Option.map_eq_some_iff.1 h
          obtain ⟨rfl, rfl⟩ := Prod.mk.inj heq
          obtain ⟨rfl, hlen⟩ := ih hab
          exact ⟨rfl, by rw [byteLen_cons, hlen]; omega⟩
        · cases h
  · rintro ⟨rfl, rfl⟩
    exact splitBytes?_append a b

theorem isBoundary_iff {text : String} {n : Nat} :
    isBoundary text n = true ↔ CutAt text.toList n := by
  rw [isBoundary, Option.isSome_iff_exists]
  constructor
  · rintro ⟨⟨a, b⟩, h⟩
    exact ⟨a, b, splitBytes?_eq_some_iff.1 h⟩
  · rintro ⟨a, b, h⟩
    exact ⟨(a, b), splitBytes?_eq_some_iff.2 h⟩

theorem slice?_eq_some_iff {text piece : String} {start stop : Nat} :
    slice? text start stop = some piece ↔ ∃ a b, text.toList = a ++ piece.toList ++ b ∧
      byteLen a = start ∧ start + length piece = stop := by
  constructor
  · intro h
    unfold slice? at h
    split at h
    · cases h
    · obtain ⟨⟨a, rest⟩, hrest, hbind⟩ := Option.bind_eq_some_iff.1 h
      obtain ⟨⟨cs, b⟩, hcs, hpiece⟩ := Option.bind_eq_some_iff.1 hbind
      obtain ⟨htext, ha⟩ := splitBytes?_eq_some_iff.1 hrest
      obtain ⟨rfl, hlen⟩ := splitBytes?_eq_some_iff.1 hcs
      obtain rfl : String.ofList cs = piece := by simpa using hpiece
      exact ⟨a, b, by simpa using htext, ha, by rw [length_ofList]; omega⟩
  · rintro ⟨a, b, htext, rfl, rfl⟩
    have h1 : splitBytes? (byteLen a) text.toList = some (a, piece.toList ++ b) :=
      splitBytes?_eq_some_iff.2 ⟨by simpa using htext, rfl⟩
    have h2 : splitBytes? (length piece) (piece.toList ++ b) = some (piece.toList, b) :=
      splitBytes?_append _ _
    simp [slice?, h1, h2]

theorem slice_eq_ok_iff {text piece : String} {start stop : Nat} :
    slice text start stop = .ok piece ↔ slice? text start stop = some piece := by
  unfold slice
  split <;> simp_all

theorem slice_eq_ok {text : String} {a m b : List Char} {start stop : Nat}
    (htext : text.toList = a ++ (m ++ b)) (hstart : byteLen a = start)
    (hstop : start + byteLen m = stop) : slice text start stop = .ok (String.ofList m) :=
  slice_eq_ok_iff.2 (slice?_eq_some_iff.2
    ⟨a, b, by simpa using htext, hstart, by rwa [length_ofList]⟩)

/-- A piece is there exactly if it ends no sooner than it starts and both ends are places to cut. -/
theorem isSome_slice?_iff {text : String} {start stop : Nat} :
    (slice? text start stop).isSome ↔
      start ≤ stop ∧ CutAt text.toList start ∧ CutAt text.toList stop := by
  rw [Option.isSome_iff_exists]
  constructor
  · rintro ⟨piece, h⟩
    obtain ⟨a, b, htext, rfl, rfl⟩ := slice?_eq_some_iff.1 h
    refine ⟨by omega, ⟨a, piece.toList ++ b, by simp [htext], rfl⟩, a ++ piece.toList, b, htext, ?_⟩
    rw [byteLen_append, length_eq]
  · rintro ⟨hle, ⟨a, rest, htext, rfl⟩, ⟨a', b, htext', rfl⟩⟩
    obtain ⟨m, rfl, rfl⟩ := exists_append_of_byteLen_le (htext.symm.trans htext') hle
    exact ⟨String.ofList m, slice?_eq_some_iff.2 ⟨a, b, by simpa using htext', rfl, by simp⟩⟩

/-- Behind a front part, a text is sliced like its rest. -/
theorem slice?_append (a b : List Char) (i j : Nat) :
    slice? (String.ofList (a ++ b)) (byteLen a + i) (byteLen a + j) = slice? (String.ofList b) i j := by
  ext piece
  simp only [slice?_eq_some_iff, String.toList_ofList]
  constructor
  · rintro ⟨x, y, h, hx, hlen⟩
    rw [List.append_assoc] at h
    obtain ⟨m, rfl, rfl⟩ := exists_append_of_byteLen_le h (by omega)
    exact ⟨m, y, by simp, by rw [byteLen_append] at hx; omega, by omega⟩
  · rintro ⟨x, y, rfl, rfl, rfl⟩
    exact ⟨a ++ x, y, by simp, by simp, by omega⟩

theorem takeBytes_append (a b : List Char) : takeBytes (byteLen a) (a ++ b) = a := by
  induction a with
  | nil =>
    cases b with
    | nil => rfl
    | cons c b =>
      have hc : ¬ c.utf8Size ≤ 0 := by have := c.utf8Size_pos; omega
      simp [takeBytes, hc]
  | cons c a ih => simp [takeBytes, ih]

theorem dropBytes_append (a b : List Char) : dropBytes (byteLen a) (a ++ b) = b := by
  induction a with
  | nil =>
    cases b with
    | nil => rfl
    | cons c b =>
      have hc : ¬ c.utf8Size ≤ 0 := by have := c.utf8Size_pos; omega
      simp [dropBytes, hc]
  | cons c a ih => simp [dropBytes, ih]

end JakartaCheck.Text
