import JakartaCheck.Proofs.Cutting
import JakartaCheck.Text.Lines

/-!
# Offsets and positions

A text is read line by line (`Lined`): it has no line break, or it is a line without one, a
terminator and a shorter text. The index of the longer text is that of the shorter one, moved behind
the terminator, with one line in front (`linesFrom_more`), so `position` and `offset?` answer for the
first line themselves and hand all other questions on (`position_later`, `offset?_later`). By
induction over the lines the two maps are inverse to each other (`offset?_eq_some_iff_position`),
except that an offset inside `\r\n` has the position of the `\r` (`position_insideCrLf`).
-/

namespace JakartaCheck

open Text (byteLen units16 CutAt)

/-- The line with both ends moved to the right. -/
def Line.shift (n : Nat) (line : Line) : Line := ⟨n + line.start, n + line.stop⟩

theorem Position.ext {p q : Position} (hline : p.line = q.line) (hcolumn : p.column = q.column) :
    p = q := by
  cases p; cases q; simp_all

namespace LineIndex

/-! ### Lines of a text -/

/-- No character of `cs` ends a line. -/
def Unbroken (cs : List Char) : Prop := ∀ c ∈ cs, c ≠ '\r' ∧ c ≠ '\n'

/-- `mark` ends a line if `rest` follows it. -/
inductive Terminator : List Char → List Char → Prop where
  | crlf (rest : List Char) : Terminator ['\r', '\n'] rest
  | lf (rest : List Char) : Terminator ['\n'] rest
  | cr {rest : List Char} (alone : rest.head? ≠ some '\n') : Terminator ['\r'] rest

/-- `cs` falls into lines. -/
inductive Lined : List Char → Prop where
  | last {line : List Char} : Unbroken line → Lined line
  | more {line mark rest : List Char} : Unbroken line → Terminator mark rest → Lined rest →
      Lined (line ++ (mark ++ rest))

theorem Terminator.byteLen_pos {mark rest : List Char} (h : Terminator mark rest) :
    0 < byteLen mark := by
  cases h <;> decide

theorem unbroken_cons {c : Char} {cs : List Char} :
    Unbroken (c :: cs) ↔ (c ≠ '\r' ∧ c ≠ '\n') ∧ Unbroken cs := List.forall_mem_cons

theorem Unbroken.left {a b : List Char} (h : Unbroken (a ++ b)) : Unbroken a :=
  fun c hc => h c (List.mem_append_left b hc)

theorem Lined.cons {c : Char} {cs : List Char} (hc : c ≠ '\r' ∧ c ≠ '\n') (h : Lined cs) :
    Lined (c :: cs) := by
  cases h with
  | last hline => exact .last (unbroken_cons.2 ⟨hc, hline⟩)
  | more hline hmark hrest => exact .more (unbroken_cons.2 ⟨hc, hline⟩) hmark hrest

theorem Lined.of_terminator {mark rest : List Char} (hmark : Terminator mark rest)
    (h : Lined rest) : Lined (mark ++ rest) :=
  .more (fun _ hc => absurd hc List.not_mem_nil) hmark h

/-- Every text falls into lines. -/
theorem lined : ∀ cs : List Char, Lined cs
  | [] => .last fun _ hc => absurd hc List.not_mem_nil
  | c :: cs => by
    by_cases hlf : c = '\n'
    · subst hlf
      exact .of_terminator (.lf cs) (lined cs)
    by_cases hcr : c = '\r'
    · subst hcr
      match cs with
      | [] => exact .of_terminator (.cr (by simp)) (lined [])
      | d :: cs =>
        by_cases hd : d = '\n'
        · subst hd
          exact .of_terminator (.crlf cs) (lined cs)
        · exact .of_terminator (.cr (by simpa using hd)) (lined (d :: cs))
    · exact (lined cs).cons ⟨hcr, hlf⟩

theorem linesFrom_unbroken {line cs : List Char} (h : Unbroken line) (start pos : Nat) :
    linesFrom start pos (line ++ cs) = linesFrom start (pos + byteLen line) cs := by
  induction line generalizing pos with
  | nil => rfl
  | cons c line ih =>
    obtain ⟨⟨hcr, hlf⟩, hline⟩ := unbroken_cons.1 h
    rw [List.cons_append, linesFrom, ih hline, Text.byteLen_cons, Nat.add_assoc]
    all_goals simp_all

theorem linesFrom_terminator {mark rest : List Char} (h : Terminator mark rest) (start pos : Nat) :
    linesFrom start pos (mark ++ rest) =
      ⟨start, pos⟩ :: linesFrom (pos + byteLen mark) (pos + byteLen mark) rest := by
  cases h with
  | crlf => rfl
  | lf => rfl
  | cr alone =>
    cases rest with
    | nil => rfl
    | cons c rest =>
      rw [List.singleton_append, linesFrom]
      · rfl
      · intro cs hcs
        simp_all

theorem linesFrom_shift (n start pos : Nat) (cs : List Char) :
    linesFrom (n + start) (n + pos) cs = (linesFrom start pos cs).map (Line.shift n) := by
  induction lined cs generalizing start pos with
  | @last line hline =>
    rw [← List.append_nil line, linesFrom_unbroken hline, linesFrom_unbroken hline]
    simp [linesFrom, Line.shift, Nat.add_assoc]
  | more hline hmark _ ih =>
    rw [linesFrom_unbroken hline, linesFrom_unbroken hline, linesFrom_terminator hmark,
      linesFrom_terminator hmark, List.map_cons, ← ih]
    simp [Line.shift, Nat.add_assoc]

theorem linesFrom_last {line : List Char} (h : Unbroken line) :
    linesFrom 0 0 line = [⟨0, byteLen line⟩] := by
  rw [← List.append_nil line, linesFrom_unbroken h]
  simp [linesFrom]

/-- The lines of a text are its first one and those of the rest, moved behind the terminator. -/
theorem linesFrom_more {line mark rest : List Char} (hline : Unbroken line)
    (hmark : Terminator mark rest) : linesFrom 0 0 (line ++ (mark ++ rest)) =
      ⟨0, byteLen line⟩ :: (linesFrom 0 0 rest).map (Line.shift (byteLen (line ++ mark))) := by
  rw [linesFrom_unbroken hline, linesFrom_terminator hmark, ← linesFrom_shift]
  simp

/-- There is a first line, and it starts where the text does. -/
theorem exists_linesFrom_eq_cons (start pos : Nat) (cs : List Char) :
    ∃ stop lines, linesFrom start pos cs = ⟨start, stop⟩ :: lines := by
  cases lined cs with
  | @last line hline =>
    rw [← List.append_nil cs, linesFrom_unbroken hline]
    exact ⟨_, _, rfl⟩
  | more hline hmark _ =>
    rw [linesFrom_unbroken hline, linesFrom_terminator hmark]
    exact ⟨_, _, rfl⟩

/-! ### The first line and the others -/

/-- The index of the text with these characters. -/
abbrev ofChars (cs : List Char) : LineIndex := ofText (String.ofList cs)

/-- The position of an offset of the text with these characters. -/
abbrev positionIn (cs : List Char) (offset : Nat) : Outcome Position :=
  (ofChars cs).position (String.ofList cs) offset

/-- The offset of a position in the text with these characters. -/
abbrev offsetOf? (cs : List Char) (p : Position) : Option Nat :=
  (ofChars cs).offset? (String.ofList cs) p

theorem lines_ofChars (cs : List Char) : (ofChars cs).lines = linesFrom 0 0 cs := by
  simp [ofText]

theorem lineOf_lt (cs : List Char) (offset : Nat) :
    (ofChars cs).lineOf offset < (ofChars cs).lines.length := by
  obtain ⟨stop, lines, h⟩ := exists_linesFrom_eq_cons 0 0 cs
  have hle := (List.takeWhile_prefix (p := (·.start ≤ offset)) (l := (ofChars cs).lines)).length_le
  have hpos : 0 < (ofChars cs).lines.length := by rw [lines_ofChars, h]; simp
  show (List.takeWhile _ _).length - 1 < (ofChars cs).lines.length
  omega

/-- A position names the line of the offset and counts the units before the offset in it. -/
theorem position_eq_ok_iff {cs : List Char} {offset : Nat} {p : Position} (h : offset ≤ byteLen cs) :
    positionIn cs offset = .ok p ↔ ∃ line piece, (linesFrom 0 0 cs)[p.line]? = some line ∧
      Text.slice? (String.ofList cs) line.start (min offset line.stop) = some piece ∧
      p.line = (ofChars cs).lineOf offset ∧ p.column = units16 piece.toList := by
  have hlen : min offset (ofChars cs).textLen = offset :=
    Nat.min_eq_left (by rwa [show (ofChars cs).textLen = byteLen cs from Text.length_ofList cs])
  obtain ⟨line, hline⟩ : ∃ line, (linesFrom 0 0 cs)[(ofChars cs).lineOf offset]? = some line := by
    rw [← lines_ofChars]
    exact ⟨_, List.getElem?_eq_getElem (lineOf_lt cs offset)⟩
  have hget : (ofChars cs).lines.getD ((ofChars cs).lineOf offset) ⟨0, 0⟩ = line := by
    rw [List.getD_eq_getElem?_getD, lines_ofChars, hline]
    rfl
  unfold positionIn position
  simp only [hlen, hget, bind, Except.bind]
  constructor
  · intro h
    split at h
    · cases h
    · rename_i piece hpiece
      obtain rfl := Except.ok.inj h
      exact ⟨line, piece, hline, Text.slice_eq_ok_iff.1 hpiece, rfl, rfl⟩
  · rintro ⟨line', piece, hline', hpiece, hnumber, hcolumn⟩
    rw [hnumber, hline] at hline'
    obtain rfl := Option.some.inj hline'
    rw [Text.slice_eq_ok_iff.2 hpiece, ← hnumber]
    simp only [← hcolumn]
    rfl

/-- Before the end of the first line's terminator a position counts the units of the line that
stand before the offset. -/
theorem position_first {line rest : List Char} {lines : List Line} {offset : Nat} {p : Position}
    (hlines : linesFrom 0 0 (line ++ rest) = ⟨0, byteLen line⟩ :: lines)
    (hlow : ∀ l ∈ lines, offset < l.start) (hlen : offset ≤ byteLen (line ++ rest)) :
    positionIn (line ++ rest) offset = .ok p ↔ ∃ a b, line = a ++ b ∧
      byteLen a = min offset (byteLen line) ∧ p = ⟨0, units16 a⟩ := by
  have hzero : (ofChars (line ++ rest)).lineOf offset = 0 := by
    have hstop : lines.takeWhile (·.start ≤ offset) = [] := by
      cases lines with
      | nil => rfl
      | cons l lines =>
        have := hlow l (List.mem_cons_self ..)
        rw [List.takeWhile_cons_of_neg]
        simpa using this
    rw [lineOf, lines_ofChars, hlines, List.takeWhile_cons_of_pos (by simp), hstop]
    rfl
  rw [position_eq_ok_iff hlen, hzero, hlines]
  constructor
  · rintro ⟨l, piece, hl, hpiece, hline, hcolumn⟩
    rw [hline] at hl
    obtain rfl : ⟨0, byteLen line⟩ = l := by simpa using hl
    obtain ⟨a, b, hcs, ha, hmin⟩ := Text.slice?_eq_some_iff.1 hpiece
    obtain rfl := Text.byteLen_eq_zero.1 ha
    have hmin : byteLen piece.toList = min offset (byteLen line) := (Nat.zero_add _).symm.trans hmin
    obtain ⟨m, hm, -⟩ := Text.exists_append_of_byteLen_le (a := piece.toList) (b := b)
      (by simpa using hcs.symm) (by rw [hmin]; exact Nat.min_le_right ..)
    exact ⟨piece.toList, m, hm, hmin, Position.ext hline hcolumn⟩
  · rintro ⟨a, b, rfl, ha, rfl⟩
    refine ⟨_, String.ofList a, rfl, ?_, rfl, by rw [String.toList_ofList]⟩
    refine Text.slice?_eq_some_iff.2 ⟨[], b ++ rest, by simp, rfl, ?_⟩
    rw [Text.length_ofList, ha, Nat.zero_add]

theorem lineOf_later {line mark rest : List Char} {offset : Nat} (hline : Unbroken line)
    (hmark : Terminator mark rest) (hoffset : byteLen (line ++ mark) ≤ offset) :
    (ofChars (line ++ (mark ++ rest))).lineOf offset =
      (ofChars rest).lineOf (offset - byteLen (line ++ mark)) + 1 := by
  have hshift : (fun l : Line => decide ((l.shift (byteLen (line ++ mark))).start ≤ offset)) =
      fun l => decide (l.start ≤ offset - byteLen (line ++ mark)) := by
    funext l
    refine decide_eq_decide.2 ?_
    show byteLen (line ++ mark) + l.start ≤ offset ↔ _
    omega
  obtain ⟨stop, lines, hrest⟩ := exists_linesFrom_eq_cons 0 0 rest
  rw [lineOf, lineOf, lines_ofChars, lines_ofChars, linesFrom_more hline hmark,
    List.takeWhile_cons_of_pos (by simp), List.takeWhile_map]
  simp only [Function.comp_def, hshift, List.length_cons, List.length_map]
  rw [hrest, List.takeWhile_cons_of_pos (by simp)]
  rfl

theorem slice?_later (line mark rest : List Char) (l : Line) (stop : Nat) :
    Text.slice? (String.ofList (line ++ (mark ++ rest))) (l.shift (byteLen (line ++ mark))).start
      (byteLen (line ++ mark) + stop) = Text.slice? (String.ofList rest) l.start stop := by
  rw [← List.append_assoc]
  exact Text.slice?_append ..

theorem later_le_byteLen {line mark rest : List Char} {offset : Nat}
    (h : offset ≤ byteLen (line ++ (mark ++ rest))) :
    offset - byteLen (line ++ mark) ≤ byteLen rest := by
  simp only [Text.byteLen_append] at *
  omega

/-- Behind the first line the position is that in the rest, one line further down. -/
theorem position_later {line mark rest : List Char} {offset : Nat} {p : Position}
    (hline : Unbroken line) (hmark : Terminator mark rest) (hoffset : byteLen (line ++ mark) ≤ offset)
    (hlen : offset ≤ byteLen (line ++ (mark ++ rest))) :
    positionIn (line ++ (mark ++ rest)) offset = .ok p ↔
      ∃ q, positionIn rest (offset - byteLen (line ++ mark)) = .ok q ∧ p = ⟨q.line + 1, q.column⟩ := by
  have hlen' := later_le_byteLen hlen
  have hmin : ∀ l : Line, min offset (l.shift (byteLen (line ++ mark))).stop =
      byteLen (line ++ mark) + min (offset - byteLen (line ++ mark)) l.stop := by
    intro l
    simp only [Line.shift]
    omega
  rw [position_eq_ok_iff hlen, lineOf_later hline hmark hoffset, linesFrom_more hline hmark]
  constructor
  · rintro ⟨l, piece, hl, hpiece, hnumber, hcolumn⟩
    rw [hnumber, List.getElem?_cons_succ, List.getElem?_map] at hl
    obtain ⟨l, hl', rfl⟩ := Option.map_eq_some_iff.1 hl
    rw [hmin, slice?_later] at hpiece
    exact ⟨⟨_, units16 piece.toList⟩, (position_eq_ok_iff hlen').2 ⟨l, piece, hl', hpiece, rfl, rfl⟩,
      Position.ext hnumber hcolumn⟩
  · rintro ⟨q, hq, rfl⟩
    obtain ⟨l, piece, hl, hpiece, hnumber, hcolumn⟩ := (position_eq_ok_iff hlen').1 hq
    refine ⟨l.shift (byteLen (line ++ mark)), piece, ?_, by rwa [hmin, slice?_later],
      by rw [hnumber], hcolumn⟩
    rw [List.getElem?_cons_succ, List.getElem?_map, hl]
    rfl

theorem offsetIn_append (pos : Nat) (a b : List Char) :
    offsetIn pos (units16 a) (a ++ b) = some (pos + byteLen a) := by
  induction a generalizing pos with
  | nil => cases b <;> simp [offsetIn]
  | cons c a ih =>
    have hc := Text.units16Of_pos c
    have h0 : units16 (c :: a) ≠ 0 := by rw [Text.units16_cons]; omega
    rw [List.cons_append, offsetIn, if_neg h0, if_pos (by simp), Text.units16_cons,
      Nat.add_sub_cancel_left, ih, Text.byteLen_cons, Nat.add_assoc]

/-- The scan stops behind the characters that make up the column. -/
theorem offsetIn_eq_some_iff {pos column offset : Nat} {cs : List Char} :
    offsetIn pos column cs = some offset ↔
      ∃ a b, cs = a ++ b ∧ units16 a = column ∧ offset = pos + byteLen a := by
  constructor
  · intro h
    induction cs generalizing pos column with
    | nil =>
      obtain ⟨rfl, rfl⟩ : column = 0 ∧ pos = offset := by simpa [offsetIn] using h
      exact ⟨[], [], rfl, rfl, rfl⟩
    | cons c cs ih =>
      unfold offsetIn at h
      split at h
      · obtain rfl := Option.some.inj h
        exact ⟨[], c :: cs, rfl, by simp [*], rfl⟩
      · split at h
        · obtain ⟨a, b, rfl, hunits, rfl⟩ := ih h
          exact ⟨c :: a, b, rfl, by rw [Text.units16_cons]; omega, by rw [Text.byteLen_cons]; omega⟩
        · cases h
  · rintro ⟨a, b, rfl, rfl, rfl⟩
    exact offsetIn_append pos a b

theorem offset?_eq_some_iff {cs : List Char} {p : Position} {offset : Nat} :
    offsetOf? cs p = some offset ↔ ∃ line piece, (linesFrom 0 0 cs)[p.line]? = some line ∧
      Text.slice? (String.ofList cs) line.start line.stop = some piece ∧
      offsetIn line.start p.column piece.toList = some offset := by
  unfold offsetOf? offset?
  rw [lines_ofChars]
  constructor
  · intro h
    obtain ⟨line, hline, hbind⟩ := Option.bind_eq_some_iff.1 h
    obtain ⟨piece, hpiece, hoffset⟩ := Option.bind_eq_some_iff.1 hbind
    exact ⟨line, piece, hline, hpiece, hoffset⟩
  · rintro ⟨line, piece, hline, hpiece, hoffset⟩
    exact Option.bind_eq_some_iff.2 ⟨line, hline, Option.bind_eq_some_iff.2 ⟨piece, hpiece, hoffset⟩⟩

theorem offset?_first {line rest : List Char} {lines : List Line} {column offset : Nat}
    (hlines : linesFrom 0 0 (line ++ rest) = ⟨0, byteLen line⟩ :: lines) :
    offsetOf? (line ++ rest) ⟨0, column⟩ = some offset ↔
      ∃ a b, line = a ++ b ∧ units16 a = column ∧ offset = byteLen a := by
  have hslice : Text.slice? (String.ofList (line ++ rest)) 0 (byteLen line) =
      some (String.ofList line) :=
    Text.slice?_eq_some_iff.2 ⟨[], rest, by simp, rfl, by simp⟩
  rw [offset?_eq_some_iff, hlines]
  constructor
  · rintro ⟨l, piece, hl, hpiece, hoffset⟩
    obtain rfl : ⟨0, byteLen line⟩ = l := by simpa using hl
    obtain rfl := Option.some.inj (hslice.symm.trans hpiece)
    simpa using offsetIn_eq_some_iff.1 hoffset
  · rintro ⟨a, b, hline, hunits, rfl⟩
    refine ⟨_, _, rfl, hslice, offsetIn_eq_some_iff.2 ⟨a, b, ?_, hunits, (Nat.zero_add _).symm⟩⟩
    rw [String.toList_ofList, hline]

/-- A line further down, the offset is that in the rest, moved behind the first line. -/
theorem offset?_later {line mark rest : List Char} {n column offset : Nat} (hline : Unbroken line)
    (hmark : Terminator mark rest) : offsetOf? (line ++ (mark ++ rest)) ⟨n + 1, column⟩ = some offset ↔
      ∃ o, offsetOf? rest ⟨n, column⟩ = some o ∧ offset = byteLen (line ++ mark) + o := by
  have hslice := fun l : Line => slice?_later line mark rest l l.stop
  simp only [offset?_eq_some_iff, linesFrom_more hline hmark, List.getElem?_cons_succ,
    List.getElem?_map, offsetIn_eq_some_iff]
  constructor
  · rintro ⟨l, piece, hl, hpiece, a, b, hab, hunits, rfl⟩
    obtain ⟨l, hl', rfl⟩ := Option.map_eq_some_iff.1 hl
    exact ⟨_, ⟨l, piece, hl', (hslice l).symm.trans hpiece, a, b, hab, hunits, rfl⟩, Nat.add_assoc ..⟩
  · rintro ⟨_, ⟨l, piece, hl, hpiece, a, b, hab, hunits, rfl⟩, rfl⟩
    refine ⟨l.shift (byteLen (line ++ mark)), piece, by rw [hl]; rfl, (hslice l).trans hpiece,
      a, b, hab, hunits, ?_⟩
    exact (Nat.add_assoc ..).symm

/-! ### Inside `\r\n` -/

/-- The offset lies between a `\r` and its `\n`. -/
def InsideCrLf (cs : List Char) (offset : Nat) : Prop :=
  ∃ a b, cs = a ++ '\r' :: '\n' :: b ∧ offset = byteLen a + 1

theorem not_insideCrLf_first {line rest : List Char} {offset : Nat} (hline : Unbroken line)
    (hoffset : offset ≤ byteLen line) : ¬ InsideCrLf (line ++ rest) offset := by
  rintro ⟨a, b, h, rfl⟩
  have h' : (a ++ ['\r']) ++ '\n' :: b = line ++ rest := by simpa using h.symm
  have hlen : byteLen (a ++ ['\r']) = byteLen a + 1 := Text.byteLen_append ..
  obtain ⟨m, rfl, -⟩ := Text.exists_append_of_byteLen_le h' (by omega)
  exact (hline '\r' (by simp)).1 rfl

theorem insideCrLf_later {line mark rest : List Char} {offset : Nat} (hmark : Terminator mark rest)
    (hoffset : byteLen (line ++ mark) ≤ offset) : InsideCrLf (line ++ (mark ++ rest)) offset ↔
      InsideCrLf rest (offset - byteLen (line ++ mark)) := by
  constructor
  · rintro ⟨a, b, h, rfl⟩
    rw [← List.append_assoc] at h
    by_cases hle : byteLen (line ++ mark) ≤ byteLen a
    · obtain ⟨m, rfl, rfl⟩ := Text.exists_append_of_byteLen_le h hle
      exact ⟨m, b, rfl, by rw [Text.byteLen_append]; omega⟩
    -- otherwise the `\r` would end the terminator and the `\n` start the rest
    · have h' : (line ++ mark) ++ rest = (a ++ ['\r']) ++ '\n' :: b := by simpa using h
      have hlen : byteLen (a ++ ['\r']) = byteLen a + 1 := Text.byteLen_append ..
      obtain ⟨hlast, rfl⟩ := Text.append_inj_of_byteLen h' (by omega)
      have hlast := congrArg List.getLast? hlast
      cases hmark with
      | crlf => simp at hlast
      | lf => simp at hlast
      | cr alone => exact absurd rfl alone
  · rintro ⟨a, b, rfl, ha⟩
    exact ⟨line ++ mark ++ a, b, by simp, by rw [Text.byteLen_append]; omega⟩

theorem InsideCrLf.cutAt {cs : List Char} {offset : Nat} (h : InsideCrLf cs offset) :
    CutAt cs offset := by
  obtain ⟨a, b, rfl, rfl⟩ := h
  exact ⟨a ++ ['\r'], '\n' :: b, by simp, Text.byteLen_append ..⟩

/-- An offset lies in the first line or at its end, inside the `\r\n` that ends it, or behind it. -/
theorem first_or_inside_or_later (line : List Char) {mark rest : List Char} (hmark : Terminator mark rest)
    (offset : Nat) : offset ≤ byteLen line ∨ (mark = ['\r', '\n'] ∧ offset = byteLen line + 1) ∨
      byteLen (line ++ mark) ≤ offset := by
  cases hmark with
  | crlf =>
    have : byteLen (line ++ ['\r', '\n']) = byteLen line + 2 := Text.byteLen_append ..
    by_cases h : offset = byteLen line + 1
    · exact .inr (.inl ⟨rfl, h⟩)
    · omega
  | lf =>
    have : byteLen (line ++ ['\n']) = byteLen line + 1 := Text.byteLen_append ..
    omega
  | cr =>
    have : byteLen (line ++ ['\r']) = byteLen line + 1 := Text.byteLen_append ..
    omega

/-- Behind the first line the text is cut where its rest is. -/
theorem cutAt_later {line mark rest : List Char} {offset : Nat}
    (hoffset : byteLen (line ++ mark) ≤ offset) : CutAt (line ++ (mark ++ rest)) offset ↔
      CutAt rest (offset - byteLen (line ++ mark)) := by
  rw [← List.append_assoc]
  exact Text.cutAt_append hoffset

/-! ### Both maps -/

theorem position_min (cs : List Char) (offset : Nat) :
    positionIn cs offset = positionIn cs (min offset (byteLen cs)) := by
  have hlen : (ofChars cs).textLen = byteLen cs := Text.length_ofList cs
  unfold positionIn position
  rw [hlen, Nat.min_assoc, Nat.min_self]

theorem position_last {line : List Char} {offset : Nat} {p : Position} (hline : Unbroken line)
    (hoffset : offset ≤ byteLen line) : positionIn line offset = .ok p ↔
      ∃ a b, line = a ++ b ∧ byteLen a = offset ∧ p = ⟨0, units16 a⟩ := by
  have hlines : linesFrom 0 0 (line ++ []) = [⟨0, byteLen line⟩] := by
    rw [List.append_nil, linesFrom_last hline]
  have h := @position_first line [] [] offset p hlines (fun _ hl => absurd hl List.not_mem_nil)
    (by rwa [List.append_nil])
  rwa [List.append_nil, Nat.min_eq_left hoffset] at h

theorem position_front {line mark rest : List Char} {offset : Nat} {p : Position}
    (hline : Unbroken line) (hmark : Terminator mark rest) (hoffset : offset < byteLen (line ++ mark)) :
    positionIn (line ++ (mark ++ rest)) offset = .ok p ↔
      ∃ a b, line = a ++ b ∧ byteLen a = min offset (byteLen line) ∧ p = ⟨0, units16 a⟩ := by
  refine position_first (linesFrom_more hline hmark) (fun l hl => ?_) ?_
  · obtain ⟨l, -, rfl⟩ := List.mem_map.1 hl
    exact Nat.lt_of_lt_of_le hoffset (Nat.le_add_right ..)
  · simp only [Text.byteLen_append] at *
    omega

theorem position_inLine {line mark rest : List Char} {offset : Nat} {p : Position}
    (hline : Unbroken line) (hmark : Terminator mark rest) (hoffset : offset ≤ byteLen line) :
    positionIn (line ++ (mark ++ rest)) offset = .ok p ↔
      ∃ a b, line = a ++ b ∧ byteLen a = offset ∧ p = ⟨0, units16 a⟩ := by
  have hpos := hmark.byteLen_pos
  rw [position_front hline hmark (by rw [Text.byteLen_append]; omega), Nat.min_eq_left hoffset]

/-- Inside `\r\n` the position is that of the end of the line. -/
theorem position_inside {line rest : List Char} (hline : Unbroken line) :
    positionIn (line ++ (['\r', '\n'] ++ rest)) (byteLen line + 1) = .ok ⟨0, units16 line⟩ := by
  refine (position_front hline (.crlf rest) ?_).2 ⟨line, [], by simp, by omega, rfl⟩
  rw [Text.byteLen_append]
  exact Nat.lt_succ_self _

/-- An offset has a position exactly if it is a place to cut. -/
theorem exists_position_iff {cs : List Char} {offset : Nat} (hoffset : offset ≤ byteLen cs) :
    (∃ p, positionIn cs offset = .ok p) ↔ CutAt cs offset := by
  induction lined cs generalizing offset with
  | last hline =>
    simp only [position_last hline hoffset]
    exact ⟨fun ⟨_, a, b, h, ha, _⟩ => ⟨a, b, h, ha⟩, fun ⟨a, b, h, ha⟩ => ⟨_, a, b, h, ha, rfl⟩⟩
  | @more line mark rest hline hmark _ ih =>
    rcases first_or_inside_or_later line hmark offset with hfirst | ⟨rfl, rfl⟩ | hlater
    · simp only [position_inLine hline hmark hfirst, Text.cutAt_left hfirst]
      exact ⟨fun ⟨_, a, b, h, ha, _⟩ => ⟨a, b, h, ha⟩, fun ⟨a, b, h, ha⟩ => ⟨_, a, b, h, ha, rfl⟩⟩
    · exact iff_of_true ⟨_, position_inside hline⟩ (InsideCrLf.cutAt ⟨line, rest, rfl, rfl⟩)
    · rw [cutAt_later hlater, ← ih (later_le_byteLen hoffset)]
      simp only [position_later hline hmark hlater hoffset]
      exact ⟨fun ⟨_, q, hq, _⟩ => ⟨q, hq⟩, fun ⟨q, hq⟩ => ⟨_, q, hq, rfl⟩⟩

/-- No number of a position exceeds the offset. -/
theorem line_add_column_le {cs : List Char} {offset : Nat} {p : Position} (hoffset : offset ≤ byteLen cs)
    (h : positionIn cs offset = .ok p) : p.line + p.column ≤ offset := by
  induction lined cs generalizing offset p with
  | last hline =>
    obtain ⟨a, b, -, rfl, rfl⟩ := (position_last hline hoffset).1 h
    simpa using Text.units16_le_byteLen a
  | @more line mark rest hline hmark _ ih =>
    have hpos := hmark.byteLen_pos
    rcases first_or_inside_or_later line hmark offset with hfirst | ⟨rfl, rfl⟩ | hlater
    · obtain ⟨a, b, -, rfl, rfl⟩ := (position_inLine hline hmark hfirst).1 h
      simpa using Text.units16_le_byteLen a
    · obtain rfl := Except.ok.inj ((position_inside hline).symm.trans h)
      have := Text.units16_le_byteLen line
      simp only
      omega
    · obtain ⟨q, hq, rfl⟩ := (position_later hline hmark hlater hoffset).1 h
      have := ih (later_le_byteLen hoffset) hq
      simp only [Text.byteLen_append] at *
      omega

theorem position_insideCrLf {cs : List Char} {offset : Nat} (h : InsideCrLf cs offset) :
    positionIn cs offset = positionIn cs (offset - 1) := by
  induction lined cs generalizing offset with
  | @last line hline =>
    have hle := h.cutAt.le
    rw [← List.append_nil line] at h
    exact absurd h (not_insideCrLf_first hline hle)
  | @more line mark rest hline hmark _ ih =>
    rcases first_or_inside_or_later line hmark offset with hfirst | ⟨rfl, rfl⟩ | hlater
    · exact absurd h (not_insideCrLf_first hline hfirst)
    · rw [position_inside hline]
      exact ((position_inLine hline hmark (Nat.le_refl _)).2 ⟨line, [], by simp, by simp, rfl⟩).symm
    · have hle := h.cutAt.le
      have hrest := (insideCrLf_later hmark hlater).1 h
      have hone : 1 ≤ offset - byteLen (line ++ mark) := by
        obtain ⟨a, b, -, ha⟩ := hrest
        omega
      obtain ⟨q, hq⟩ := (exists_position_iff hrest.cutAt.le).2 hrest.cutAt
      rw [(position_later hline hmark hlater hle).2 ⟨q, hq, rfl⟩]
      refine ((position_later hline hmark (by omega) (by omega)).2 ⟨q, ?_, rfl⟩).symm
      rw [← hq, ih hrest]
      congr 1
      omega

theorem offset?_last {line : List Char} {p : Position} {offset : Nat} (hline : Unbroken line) :
    offsetOf? line p = some offset ↔
      ∃ a b, line = a ++ b ∧ byteLen a = offset ∧ p = ⟨0, units16 a⟩ := by
  obtain ⟨_ | n, column⟩ := p
  · have hlines : linesFrom 0 0 (line ++ []) = [⟨0, byteLen line⟩] := by
      rw [List.append_nil, linesFrom_last hline]
    have h := @offset?_first line [] [] column offset hlines
    rw [List.append_nil] at h
    rw [h]
    constructor
    · rintro ⟨a, b, hab, rfl, rfl⟩; exact ⟨a, b, hab, rfl, rfl⟩
    · rintro ⟨a, b, hab, rfl, hp⟩; exact ⟨a, b, hab, (Position.mk.inj hp).2.symm, rfl⟩
  · rw [offset?_eq_some_iff, linesFrom_last hline]
    constructor
    · rintro ⟨l, _, hl, -⟩; simp at hl
    · rintro ⟨_, _, -, -, hp⟩; simp at hp

/-- The offset of a position is the one place to cut that has this position and does not lie inside
`\r\n`. -/
theorem offset?_eq_some_iff_position {cs : List Char} {p : Position} {offset : Nat} :
    offsetOf? cs p = some offset ↔
      CutAt cs offset ∧ ¬ InsideCrLf cs offset ∧ positionIn cs offset = .ok p := by
  induction lined cs generalizing p offset with
  | @last line hline =>
    rw [offset?_last hline]
    constructor
    · rintro ⟨a, b, rfl, rfl, rfl⟩
      have hcut : CutAt (a ++ b) (byteLen a) := ⟨a, b, rfl, rfl⟩
      exact ⟨hcut, not_insideCrLf_first hline.left (Nat.le_refl _),
        (position_last hline hcut.le).2 ⟨a, b, rfl, rfl, rfl⟩⟩
    · rintro ⟨hcut, -, hp⟩
      exact (position_last hline hcut.le).1 hp
  | @more line mark rest hline hmark _ ih =>
    obtain ⟨_ | n, column⟩ := p
    · rw [offset?_first (linesFrom_more hline hmark)]
      constructor
      · rintro ⟨a, b, rfl, rfl, rfl⟩
        have hle : byteLen a ≤ byteLen (a ++ b) := by simp
        exact ⟨(Text.cutAt_left hle).2 ⟨a, b, rfl, rfl⟩, not_insideCrLf_first hline hle,
          (position_inLine hline hmark hle).2 ⟨a, b, rfl, rfl, rfl⟩⟩
      · rintro ⟨hcut, hinside, hp⟩
        rcases first_or_inside_or_later line hmark offset with hfirst | ⟨rfl, rfl⟩ | hlater
        · obtain ⟨a, b, hab, rfl, heq⟩ := (position_inLine hline hmark hfirst).1 hp
          exact ⟨a, b, hab, (Position.mk.inj heq).2.symm, rfl⟩
        · exact absurd ⟨line, rest, rfl, rfl⟩ hinside
        · obtain ⟨q, -, heq⟩ := (position_later hline hmark hlater hcut.le).1 hp
          simp at heq
    · rw [offset?_later hline hmark]
      constructor
      · rintro ⟨o, ho, rfl⟩
        obtain ⟨hcut, hinside, hp⟩ := ih.1 ho
        have hlater : byteLen (line ++ mark) ≤ byteLen (line ++ mark) + o := Nat.le_add_right ..
        have ho : byteLen (line ++ mark) + o - byteLen (line ++ mark) = o := Nat.add_sub_cancel_left ..
        have hcut' : CutAt (line ++ (mark ++ rest)) (byteLen (line ++ mark) + o) := by
          rwa [cutAt_later hlater, ho]
        refine ⟨hcut', ?_, (position_later hline hmark hlater hcut'.le).2 ⟨_, by rwa [ho], rfl⟩⟩
        rwa [insideCrLf_later hmark hlater, ho]
      · rintro ⟨hcut, hinside, hp⟩
        rcases first_or_inside_or_later line hmark offset with hfirst | ⟨rfl, rfl⟩ | hlater
        · obtain ⟨a, b, -, -, heq⟩ := (position_inLine hline hmark hfirst).1 hp
          simp at heq
        · exact absurd ⟨line, rest, rfl, rfl⟩ hinside
        · obtain ⟨⟨n, column⟩, hq, heq⟩ := (position_later hline hmark hlater hcut.le).1 hp
          obtain ⟨hn, hcolumn⟩ := Position.mk.inj heq
          obtain rfl := Nat.succ.inj hn
          obtain rfl := hcolumn
          rw [cutAt_later hlater] at hcut
          rw [insideCrLf_later hmark hlater] at hinside
          exact ⟨_, ih.2 ⟨hcut, hinside, hq⟩, by omega⟩

/-- Both ends of a line are places to cut, and they are in order. -/
theorem cutAt_of_mem_lines {cs : List Char} {line : Line} (h : line ∈ linesFrom 0 0 cs) :
    line.start ≤ line.stop ∧ CutAt cs line.start ∧ CutAt cs line.stop := by
  induction lined cs generalizing line with
  | @last content hline =>
    rw [linesFrom_last hline] at h
    obtain rfl := List.mem_singleton.1 h
    exact ⟨Nat.zero_le _, .zero _, content, [], by simp, rfl⟩
  | @more content mark rest hline hmark _ ih =>
    rw [linesFrom_more hline hmark] at h
    rcases List.mem_cons.1 h with rfl | h
    · exact ⟨Nat.zero_le _, .zero _, content, mark ++ rest, rfl, rfl⟩
    · obtain ⟨l, hl, rfl⟩ := List.mem_map.1 h
      obtain ⟨hle, hstart, hstop⟩ := ih hl
      have hcut : ∀ n, CutAt rest n →
          CutAt (content ++ (mark ++ rest)) (byteLen (content ++ mark) + n) := by
        intro n hn
        rwa [cutAt_later (Nat.le_add_right ..), Nat.add_sub_cancel_left]
      exact ⟨Nat.add_le_add_left hle _, hcut _ hstart, hcut _ hstop⟩

/-- Offsets and positions of one text. An offset has no position exactly if it lies inside a
character, once it is cut back to the end of the text. A position has an offset exactly if it is the
position of a place to cut outside `\r\n`, and then that place is its offset; inside `\r\n` the
position is that of the `\r`. On the way no line is looked up in vain, and no number exceeds the
length of the text. -/
theorem offset?_inverts_position (text : String) :
    (∀ offset, (∃ fault, (ofText text).position text offset = .error fault) ↔
      ¬ Text.isBoundary text (min offset (Text.length text))) ∧
    (∀ p offset, (ofText text).offset? text p = some offset ↔ offset ≤ Text.length text ∧
      Text.isBoundary text offset ∧ ¬ InsideCrLf text.toList offset ∧
      (ofText text).position text offset = .ok p) ∧
    (∀ offset, InsideCrLf text.toList offset →
      (ofText text).position text offset = (ofText text).position text (offset - 1)) ∧
    (∀ offset, (ofText text).lineOf offset < (ofText text).lines.length) ∧
    (∀ line ∈ (ofText text).lines, (Text.slice? text line.start line.stop).isSome) ∧
    ∀ offset p, (ofText text).position text offset = .ok p → p.line + p.column ≤ Text.length text := by
  obtain ⟨cs, rfl⟩ : ∃ cs, text = String.ofList cs := ⟨text.toList, by simp⟩
  simp only [Text.isBoundary_iff, Text.length_ofList, String.toList_ofList, Text.isSome_slice?_iff,
    lines_ofChars]
  refine ⟨fun offset => ?_, fun p offset => ?_, fun offset h => position_insideCrLf h,
    fun offset => lines_ofChars cs ▸ lineOf_lt cs offset, fun line h => cutAt_of_mem_lines h,
    fun offset p h => ?_⟩
  · have hsome := exists_position_iff (Nat.min_le_right offset (byteLen cs))
    rw [← position_min] at hsome
    rw [← hsome]
    show (∃ fault, positionIn cs offset = .error fault) ↔ ¬ ∃ p, positionIn cs offset = .ok p
    cases positionIn cs offset <;> simp
  · rw [offset?_eq_some_iff_position]
    exact ⟨fun h => ⟨h.1.le, h⟩, And.right⟩
  · have h : positionIn cs (min offset (byteLen cs)) = .ok p := by rwa [← position_min]
    exact Nat.le_trans (line_add_column_le (Nat.min_le_right ..) h) (Nat.min_le_right ..)

/-- Between `\r` and `\n`, behind a character of two units. -/
theorem offset?_inverts_position_crlf :
    InsideCrLf "😀\r\nb".toList 5 ∧
      (ofText "😀\r\nb").position "😀\r\nb" 5 = (ofText "😀\r\nb").position "😀\r\nb" 4 ∧
      (ofText "😀\r\nb").position "😀\r\nb" 4 = .ok ⟨0, 2⟩ := by
  have h : InsideCrLf "😀\r\nb".toList 5 := ⟨['😀'], ['b'], rfl, rfl⟩
  exact ⟨h, (offset?_inverts_position "😀\r\nb").2.2.1 5 h, rfl⟩

end LineIndex

end JakartaCheck
