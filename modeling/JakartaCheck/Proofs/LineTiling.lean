import JakartaCheck.Proofs.LinePositions
import Mathlib.Data.List.Chain

/-!
# Lines tile a text

The lines of a text and the terminators between them cover it from end to end (`LineIndex.Tiles`): the
text that is a line, a terminator and a shorter text has the tiling of the shorter text, moved behind the
terminator, with one line in front (`Tiles.more`).
-/

namespace JakartaCheck.LineIndex

open Text (byteLen CutAt)

/-! ### Terminators -/

/-- The marks that end lines, as they are met from left to right. A `\n` belongs to a `\r` in front of
it. -/
def terminators : List Char → List (List Char)
  | [] => []
  | '\r' :: '\n' :: cs => ['\r', '\n'] :: terminators cs
  | '\r' :: cs => ['\r'] :: terminators cs
  | '\n' :: cs => ['\n'] :: terminators cs
  | _ :: cs => terminators cs

theorem terminators_unbroken {line cs : List Char} (h : Unbroken line) :
    terminators (line ++ cs) = terminators cs := by
  induction line with
  | nil => rfl
  | cons c line ih =>
    obtain ⟨⟨hcr, hlf⟩, hline⟩ := unbroken_cons.1 h
    rw [List.cons_append, terminators, ih hline]
    all_goals simp_all

theorem terminators_last {line : List Char} (h : Unbroken line) : terminators line = [] := by
  rw [← List.append_nil line, terminators_unbroken h]
  rfl

theorem terminators_terminator {mark rest : List Char} (h : Terminator mark rest) :
    terminators (mark ++ rest) = mark :: terminators rest := by
  cases h with
  | crlf => rfl
  | lf => rfl
  | cr alone =>
    cases rest with
    | nil => rfl
    | cons c rest =>
      rw [List.singleton_append, terminators]
      intro cs hcs
      simp_all

theorem terminators_more {line mark rest : List Char} (hline : Unbroken line)
    (hmark : Terminator mark rest) :
    terminators (line ++ (mark ++ rest)) = mark :: terminators rest := by
  rw [terminators_unbroken hline, terminators_terminator hmark]

theorem length_terminators_le (cs : List Char) : (terminators cs).length ≤ byteLen cs := by
  induction lined cs with
  | last hline =>
    rw [terminators_last hline]
    exact Nat.zero_le _
  | more hline hmark _ ih =>
    have := hmark.byteLen_pos
    rw [terminators_more hline hmark, List.length_cons]
    simp only [Text.byteLen_append]
    omega

/-! ### Tilings -/

/-- What stands between two lines: a mark that ends a line there. -/
structure Gap (text : String) (a b : Line) (mark : List Char) : Prop where
  between : Text.slice? text a.stop b.start = some (String.ofList mark)
  terminator : ∃ rest, Text.slice? text b.start (Text.length text) = some rest ∧
    Terminator mark rest.toList

/-- The lines cover the text, up to one terminator between a line and the next one. -/
structure Tiles (text : String) (lines : List Line) : Prop where
  start_eq : lines.head?.map Line.start = some 0
  stop_eq : lines.getLast?.map Line.stop = some (Text.length text)
  /-- Lines are pieces of the text without line breaks. -/
  content : ∀ line ∈ lines, ∃ content,
    Text.slice? text line.start line.stop = some content ∧ Unbroken content.toList
  /-- The terminators come as they are read from left to right. -/
  gap : ∀ i a b, lines[i]? = some a → lines[i + 1]? = some b →
    ∃ mark, (terminators text.toList)[i]? = some mark ∧ Gap text a b mark
  count : lines.length = (terminators text.toList).length + 1

namespace Gap

variable {text : String} {a b : Line} {mark : List Char}

theorem lt (h : Gap text a b mark) : a.stop < b.start := by
  obtain ⟨_, _, -, -, hlen⟩ := Text.slice?_eq_some_iff.1 h.between
  obtain ⟨_, -, hmark⟩ := h.terminator
  have := hmark.byteLen_pos
  rw [Text.length_ofList] at hlen
  omega

/-- The gap stays one behind a longer front part. -/
theorem shift {front cs : List Char} (h : Gap (String.ofList cs) a b mark) :
    Gap (String.ofList (front ++ cs)) (a.shift (byteLen front)) (b.shift (byteLen front)) mark where
  between := (Text.slice?_append ..).trans h.between
  terminator := by
    obtain ⟨rest, hrest, hmark⟩ := h.terminator
    refine ⟨rest, ?_, hmark⟩
    rw [Text.length_ofList, Text.byteLen_append] at *
    exact (Text.slice?_append ..).trans hrest

/-- The gap behind the first line. -/
theorem first {line rest : List Char} (hmark : Terminator mark rest) (stop : Nat) :
    Gap (String.ofList (line ++ (mark ++ rest))) ⟨0, byteLen line⟩ ⟨byteLen (line ++ mark), stop⟩
      mark where
  between := Text.slice?_eq_some_iff.2
    ⟨line, rest, by simp, rfl, by rw [Text.length_ofList, Text.byteLen_append]⟩
  terminator := by
    refine ⟨String.ofList rest, Text.slice?_eq_some_iff.2 ⟨line ++ mark, [], by simp, rfl, ?_⟩, ?_⟩
    · simp only [Text.length_ofList, Text.byteLen_append, Nat.add_assoc]
    · rwa [String.toList_ofList]

end Gap

namespace Tiles

variable {text : String} {lines : List Line}

theorem last {line : List Char} (hline : Unbroken line) :
    Tiles (String.ofList line) [⟨0, byteLen line⟩] where
  start_eq := rfl
  stop_eq := by simp
  content l hl := by
    obtain rfl := List.mem_singleton.1 hl
    exact ⟨String.ofList line, Text.slice?_eq_some_iff.2 ⟨[], [], by simp, rfl, by simp⟩, by simpa⟩
  gap i a b ha hb := by simp at hb
  count := by
    rw [String.toList_ofList, terminators_last hline]
    rfl

theorem more {line mark rest : List Char} (hline : Unbroken line) (hmark : Terminator mark rest)
    (h : Tiles (String.ofList rest) lines) : Tiles (String.ofList (line ++ (mark ++ rest)))
      (⟨0, byteLen line⟩ :: lines.map (Line.shift (byteLen (line ++ mark)))) where
  start_eq := rfl
  stop_eq := by
    obtain ⟨l, hl, hstop⟩ := Option.map_eq_some_iff.1 h.stop_eq
    rw [List.getLast?_cons, List.getLast?_map, hl]
    simp only [Option.map_some, Option.getD_some, Line.shift, hstop, Text.length_ofList,
      Text.byteLen_append, Nat.add_assoc]
  content l hl := by
    rcases List.mem_cons.1 hl with rfl | hl
    · exact ⟨String.ofList line,
        Text.slice?_eq_some_iff.2 ⟨[], mark ++ rest, by simp, rfl, by simp⟩, by simpa⟩
    · obtain ⟨l, hmem, rfl⟩ := List.mem_map.1 hl
      obtain ⟨content, hcontent, hunbroken⟩ := h.content l hmem
      exact ⟨content, (slice?_later line mark rest l l.stop).trans hcontent, hunbroken⟩
  gap i a b ha hb := by
    rw [String.toList_ofList, terminators_more hline hmark]
    rw [List.getElem?_cons_succ, List.getElem?_map] at hb
    obtain ⟨b, hb', rfl⟩ := Option.map_eq_some_iff.1 hb
    cases i with
    | zero =>
      obtain rfl : ⟨0, byteLen line⟩ = a := by simpa using ha
      -- the first line behind the terminator starts right there
      have hstart : b.start = 0 := by
        have := h.start_eq
        rw [List.head?_eq_getElem?, hb'] at this
        simpa using this
      refine ⟨mark, rfl, ?_⟩
      rw [Line.shift, hstart]
      exact Gap.first hmark _
    | succ i =>
      rw [List.getElem?_cons_succ, List.getElem?_map] at ha
      obtain ⟨a, ha', rfl⟩ := Option.map_eq_some_iff.1 ha
      obtain ⟨m, hm, hgap⟩ := h.gap i a b ha' hb'
      rw [String.toList_ofList] at hm
      refine ⟨m, hm, ?_⟩
      rw [← List.append_assoc]
      exact hgap.shift
  count := by
    have := h.count
    rw [String.toList_ofList] at *
    rw [terminators_more hline hmark, List.length_cons, List.length_cons, List.length_map, this]

/-- Both ends of a line are places between characters, and they are in order. -/
theorem line_fits (h : Tiles text lines) {line : Line} (hline : line ∈ lines) :
    line.start ≤ line.stop ∧ Text.isBoundary text line.start ∧ Text.isBoundary text line.stop := by
  obtain ⟨content, hcontent, -⟩ := h.content line hline
  obtain ⟨hle, hstart, hstop⟩ := Text.isSome_slice?_iff.1 (Option.isSome_of_eq_some hcontent)
  exact ⟨hle, Text.isBoundary_iff.2 hstart, Text.isBoundary_iff.2 hstop⟩

theorem start_lt (h : Tiles text lines) : lines.Pairwise fun a b => a.start < b.start := by
  refine List.pairwise_map.1 (List.isChain_iff_pairwise.1 ((List.isChain_map Line.start).2 ?_))
  refine List.isChain_iff_getElem.2 fun i hi => ?_
  obtain ⟨_, -, hgap⟩ := h.gap i lines[i] lines[i + 1] (List.getElem?_eq_getElem _)
    (List.getElem?_eq_getElem _)
  exact Nat.lt_of_le_of_lt (h.line_fits (List.getElem_mem _)).1 hgap.lt

end Tiles

theorem tiles (cs : List Char) : Tiles (String.ofList cs) (linesFrom 0 0 cs) := by
  induction lined cs with
  | last hline =>
    rw [linesFrom_last hline]
    exact .last hline
  | more hline hmark _ ih =>
    rw [linesFrom_more hline hmark]
    exact ih.more hline hmark

/-- The lines of a text tile it. So each starts behind the one before, all bounds are places between
characters, and there is one line more than there are terminators, which is at most one more than there
are bytes. Of so many lines the count is taken in 32 bits: only where each byte of four gigabytes less
one ends a line it is not their number. -/
theorem lines_tile (text : String) :
    Tiles text (ofText text).lines ∧
      ((ofText text).lines.Pairwise fun a b => a.start < b.start) ∧
      (∀ line ∈ (ofText text).lines, line.start ≤ line.stop ∧ Text.isBoundary text line.start ∧
        Text.isBoundary text line.stop) ∧
      (ofText text).lines.length = (terminators text.toList).length + 1 ∧
      (ofText text).lines.length ≤ Text.length text + 1 ∧
      (ofText text).lineCount = ((terminators text.toList).length + 1) % ByteRange.modulus ∧
      ((terminators text.toList).length + 1 < ByteRange.modulus →
        (ofText text).lineCount = (terminators text.toList).length + 1) := by
  have h : Tiles text (ofText text).lines := by
    have := tiles text.toList
    rwa [String.ofList_toList] at this
  refine ⟨h, h.start_lt, fun line hline => h.line_fits hline, h.count, ?_, ?_, fun few => ?_⟩
  · rw [h.count]
    exact Nat.succ_le_succ (length_terminators_le text.toList)
  · rw [lineCount, h.count]
  · rw [lineCount, h.count, Nat.mod_eq_of_lt few]

/-- The first of two `\r` ends a line by itself, the second one with its `\n`. -/
theorem lines_tile_returns :
    (ofText "é\r\r\n\n").lines = [⟨0, 2⟩, ⟨3, 3⟩, ⟨5, 5⟩, ⟨6, 6⟩] ∧
      Text.isBoundary "é\r\r\n\n" 3 ∧ (ofText "é\r\r\n\n").lineCount = 4 := by
  obtain ⟨-, -, hfits, -, -, -, hcount⟩ := lines_tile "é\r\r\n\n"
  exact ⟨rfl, (hfits ⟨3, 3⟩ (by decide)).2.1, hcount (by decide)⟩

end JakartaCheck.LineIndex
