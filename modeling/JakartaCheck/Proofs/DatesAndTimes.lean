import Mathlib.Algebra.Group.Nat.Defs
import Mathlib.Data.List.Induction
import JakartaCheck.Check.Iso8601
import JakartaCheck.Proofs.Cutting
import JakartaCheck.Proofs.TextSearch

/-!
# Dates and times

The format of dates and times is given by the values that it writes: numbers as numerals of fixed
width (`numeral`), and from these dates, times of day, time zones and stamps, which are a date, a date
with a time, or both in a zone. A text is valid exactly if it is a written stamp
(`isValid_eq_true_iff`).

The parts of a zone are found by cutting four bytes in the middle, so whether there is an answer at
all depends on the characters in a zone: there is none exactly if a character lies across the cut
(`isValid_eq_error_iff`). In ASCII texts none does (`isValid_ascii_iff`).
-/

namespace JakartaCheck.Iso8601

/-! ### Written numbers -/

/-- `n` in `len` decimal digits; of a longer number the last ones. -/
def numeral : Nat → Nat → List Char
  | 0, _ => []
  | len + 1, n => numeral len (n / 10) ++ [Nat.digitChar (n % 10)]

/-- The number that digits stand for. -/
def valueOf (cs : List Char) : Nat := cs.foldl (fun n c => 10 * n + (c.toNat - '0'.toNat)) 0

theorem digits?_eq (len : Nat) (cs : List Char) : digits? len cs =
    if cs.length = len ∧ cs.all Char.isDigit then some (valueOf cs) else none := rfl

theorem valueOf_append (cs : List Char) (c : Char) :
    valueOf (cs ++ [c]) = 10 * valueOf cs + (c.toNat - '0'.toNat) := by
  rw [valueOf, List.foldl_append]
  rfl

theorem isDigit_digitChar {n : Nat} (h : n < 10) : (Nat.digitChar n).isDigit := by
  rw [Nat.isDigit_digitChar, decide_eq_true h]

/-- A digit is the character of its value. -/
theorem exists_digit {c : Char} (h : c.isDigit) :
    ∃ n < 10, c.toNat - '0'.toNat = n ∧ c = Nat.digitChar n := by
  obtain ⟨hlo, hhi⟩ := Char.isDigit_iff_toNat.1 h
  have hzero : '0'.toNat = 48 := rfl
  have hnine : '9'.toNat = 57 := rfl
  have hlt : c.toNat - '0'.toNat < 10 := by omega
  refine ⟨_, hlt, rfl, Char.toNat_inj.1 ?_⟩
  rw [Nat.toNat_digitChar_of_lt_ten hlt]
  omega

theorem valueOf_digit {n : Nat} (h : n < 10) : (Nat.digitChar n).toNat - '0'.toNat = n := by
  rw [Nat.toNat_digitChar_of_lt_ten h]
  exact Nat.add_sub_cancel_left 48 n

theorem length_numeral (len n : Nat) : (numeral len n).length = len := by
  induction len generalizing n with
  | zero => rfl
  | succ len ih => rw [numeral, List.length_append, ih, List.length_singleton]

theorem isDigit_of_mem_numeral {len n : Nat} {c : Char} (h : c ∈ numeral len n) : c.isDigit := by
  induction len generalizing n with
  | zero => cases h
  | succ len ih =>
    rcases List.mem_append.1 h with h | h
    · exact ih h
    · rw [List.mem_singleton.1 h]
      exact isDigit_digitChar (Nat.mod_lt n (by decide))

theorem valueOf_numeral {len n : Nat} (h : n < 10 ^ len) : valueOf (numeral len n) = n := by
  induction len generalizing n with
  | zero =>
    obtain rfl : n = 0 := Nat.lt_one_iff.1 h
    rfl
  | succ len ih =>
    have hfront : n / 10 < 10 ^ len := Nat.div_lt_of_lt_mul (by rwa [Nat.pow_succ, Nat.mul_comm] at h)
    rw [numeral, valueOf_append, ih hfront, valueOf_digit (Nat.mod_lt n (by decide)),
      Nat.div_add_mod]

/-- Digits are the numeral of the number that they stand for. -/
theorem eq_numeral {cs : List Char} (h : ∀ c ∈ cs, c.isDigit) :
    valueOf cs < 10 ^ cs.length ∧ cs = numeral cs.length (valueOf cs) := by
  induction cs using List.reverseRecOn with
  | nil => exact ⟨Nat.one_pos, rfl⟩
  | append_singleton cs c ih =>
    obtain ⟨hfront, hlast⟩ := List.forall_mem_append.1 h
    obtain ⟨hlt, heq⟩ := ih hfront
    obtain ⟨d, hd, hval, hc⟩ := exists_digit (hlast c List.mem_cons_self)
    have hvalue : valueOf (cs ++ [c]) = 10 * valueOf cs + d := by rw [valueOf_append, hval]
    rw [hvalue, List.length_append, List.length_singleton]
    refine ⟨by rw [Nat.pow_succ]; omega, ?_⟩
    have hdiv : (10 * valueOf cs + d) / 10 = valueOf cs := by omega
    have hmod : (10 * valueOf cs + d) % 10 = d := by omega
    rw [numeral, hdiv, hmod, ← heq, ← hc]

theorem digits?_eq_some_iff {len n : Nat} {cs : List Char} :
    digits? len cs = some n ↔ n < 10 ^ len ∧ cs = numeral len n := by
  rw [digits?_eq]
  constructor
  · intro h
    split at h
    · rename_i hdigits
      obtain ⟨rfl, hall⟩ := hdigits
      obtain rfl := Option.some.inj h
      exact eq_numeral (List.all_eq_true.1 hall)
    · cases h
  · rintro ⟨hlt, rfl⟩
    have hall : (numeral len n).all Char.isDigit :=
      List.all_eq_true.2 fun c hc => isDigit_of_mem_numeral hc
    rw [if_pos ⟨length_numeral len n, hall⟩, valueOf_numeral hlt]

theorem twoDigits_iff {low high : Nat} {cs : List Char} (hhigh : high < 100) :
    twoDigits low high cs ↔ ∃ n, low ≤ n ∧ n ≤ high ∧ cs = numeral 2 n := by
  unfold twoDigits
  constructor
  · intro h
    split at h
    · rename_i n hn
      rw [Bool.and_eq_true, decide_eq_true_iff, decide_eq_true_iff] at h
      exact ⟨n, h.1, h.2, (digits?_eq_some_iff.1 hn).2⟩
    · cases h
  · rintro ⟨n, hlow, hle, rfl⟩
    have hn : digits? 2 (numeral 2 n) = some n := digits?_eq_some_iff.2 ⟨by omega, rfl⟩
    rw [hn]
    simp [hlow, hle]

/-- Numbers from zero on, in two digits. -/
theorem twoDigits_zero_iff {high : Nat} {cs : List Char} (hhigh : high < 100) :
    twoDigits 0 high cs ↔ ∃ n : Fin (high + 1), cs = numeral 2 n := by
  rw [twoDigits_iff hhigh]
  constructor
  · rintro ⟨n, -, hle, rfl⟩
    exact ⟨⟨n, Nat.lt_succ_of_le hle⟩, rfl⟩
  · rintro ⟨n, rfl⟩
    exact ⟨n, Nat.zero_le _, Nat.le_of_lt_succ n.isLt, rfl⟩

theorem hour_iff {cs : List Char} : twoDigits 0 23 cs ↔ ∃ n : Fin 24, cs = numeral 2 n :=
  twoDigits_zero_iff (by decide)

theorem minute_iff {cs : List Char} : twoDigits 0 59 cs ↔ ∃ n : Fin 60, cs = numeral 2 n :=
  twoDigits_zero_iff (by decide)

theorem second_iff {cs : List Char} : twoDigits 0 60 cs ↔ ∃ n : Fin 61, cs = numeral 2 n :=
  twoDigits_zero_iff (by decide)

theorem hour_minute_iff {hours minutes : List Char} :
    (twoDigits 0 23 hours && twoDigits 0 59 minutes) = true ↔
      ∃ (hour : Fin 24) (minute : Fin 60), hours = numeral 2 hour ∧ minutes = numeral 2 minute := by
  rw [Bool.and_eq_true, hour_iff, minute_iff]
  constructor
  · rintro ⟨⟨hour, rfl⟩, minute, rfl⟩
    exact ⟨hour, minute, rfl, rfl⟩
  · rintro ⟨hour, minute, rfl, rfl⟩
    exact ⟨⟨hour, rfl⟩, minute, rfl⟩

theorem not_mem_numeral {c : Char} (hc : c.isDigit = false) (len n : Nat) : c ∉ numeral len n := by
  intro h
  rw [isDigit_of_mem_numeral h] at hc
  cases hc

theorem toNat_lt_of_isDigit {c : Char} (h : c.isDigit) : c.toNat < 128 := by
  obtain ⟨-, hhi⟩ := Char.isDigit_iff_toNat.1 h
  exact Nat.lt_of_le_of_lt hhi (by decide)

theorem byteLen_numeral (len n : Nat) : Text.byteLen (numeral len n) = len := by
  rw [Text.byteLen_of_ascii fun c hc => toNat_lt_of_isDigit (isDigit_of_mem_numeral hc),
    length_numeral]

/-! ### Dates -/

/-- A calendar date. Every month has 31 days. -/
structure Date where
  year : Fin 10000
  month : Nat
  day : Nat
  month_valid : 1 ≤ month ∧ month ≤ 12
  day_valid : 1 ≤ day ∧ day ≤ 31

def Date.write (d : Date) : List Char :=
  numeral 4 d.year ++ '-' :: (numeral 2 d.month ++ '-' :: numeral 2 d.day)

theorem isDate_iff {cs : List Char} : isDate cs ↔ ∃ d : Date, cs = d.write := by
  constructor
  · intro h
    unfold isDate at h
    split at h
    · rename_i year month day hparts
      obtain ⟨-, -, hcs⟩ := Text.splitOn_eq_iff.1 hparts
      simp only [Bool.and_eq_true] at h
      obtain ⟨⟨hyear, hmonth⟩, hday⟩ := h
      obtain ⟨y, hy⟩ := Option.isSome_iff_exists.1 hyear
      obtain ⟨hlt, rfl⟩ := digits?_eq_some_iff.1 hy
      obtain ⟨m, hm, hm', rfl⟩ := (twoDigits_iff (by decide)).1 hmonth
      obtain ⟨d, hd, hd', rfl⟩ := (twoDigits_iff (by decide)).1 hday
      refine ⟨⟨⟨y, hlt⟩, m, d, ⟨hm, hm'⟩, ⟨hd, hd'⟩⟩, ?_⟩
      simpa [Date.write] using hcs
    · cases h
  · rintro ⟨d, rfl⟩
    have hparts : Text.splitOn '-' d.write = [numeral 4 d.year, numeral 2 d.month, numeral 2 d.day] := by
      refine Text.splitOn_eq_iff.2 ⟨nofun, ?_, by simp [Date.write]⟩
      have hno : ∀ len n, '-' ∉ numeral len n := not_mem_numeral (by decide)
      simp [hno]
    have hyear : digits? 4 (numeral 4 d.year) = some d.year.val :=
      digits?_eq_some_iff.2 ⟨d.year.isLt, rfl⟩
    have hmonth : twoDigits 1 12 (numeral 2 d.month) :=
      (twoDigits_iff (by decide)).2 ⟨d.month, d.month_valid.1, d.month_valid.2, rfl⟩
    have hday : twoDigits 1 31 (numeral 2 d.day) :=
      (twoDigits_iff (by decide)).2 ⟨d.day, d.day_valid.1, d.day_valid.2, rfl⟩
    rw [isDate, hparts]
    simp [hyear, hmonth, hday]

/-! ### Times -/

/-- Digits next to each other. -/
def figures (digits : List (Fin 10)) : List Char := digits.map fun d : Fin 10 => Nat.digitChar d

/-- Seconds up to a leap second. -/
structure Seconds where
  whole : Fin 61
  /-- The digits behind the point; without any there is no point. -/
  fraction : List (Fin 10)

def Seconds.write (s : Seconds) : List Char :=
  numeral 2 s.whole ++ if s.fraction = [] then [] else '.' :: figures s.fraction

/-- A time of day. -/
structure Clock where
  hour : Fin 24
  minute : Fin 60
  seconds : Option Seconds

def Clock.write (t : Clock) : List Char :=
  numeral 2 t.hour ++ ':' :: (numeral 2 t.minute ++
    match t.seconds with
    | none => []
    | some s => ':' :: s.write)

theorem isDigit_of_mem_figures {digits : List (Fin 10)} {c : Char} (h : c ∈ figures digits) :
    c.isDigit := by
  obtain ⟨d, -, rfl⟩ := List.mem_map.1 h
  exact isDigit_digitChar d.isLt

theorem exists_figures {cs : List Char} (h : ∀ c ∈ cs, c.isDigit) :
    ∃ digits, cs = figures digits := by
  induction cs with
  | nil => exact ⟨[], rfl⟩
  | cons c cs ih =>
    obtain ⟨hfirst, hrest⟩ := List.forall_mem_cons.1 h
    obtain ⟨d, hd, -, rfl⟩ := exists_digit hfirst
    obtain ⟨digits, rfl⟩ := ih hrest
    exact ⟨⟨d, hd⟩ :: digits, rfl⟩

/-- Digits stand behind the point of a time, and there are some. -/
theorem fraction_iff {cs : List Char} : (!cs.isEmpty && cs.all Char.isDigit) = true ↔
    ∃ digits, digits ≠ [] ∧ cs = figures digits := by
  rw [Bool.and_eq_true, Bool.not_eq_true', List.isEmpty_eq_false_iff, List.all_eq_true]
  constructor
  · rintro ⟨hne, hdigits⟩
    obtain ⟨digits, rfl⟩ := exists_figures hdigits
    exact ⟨digits, mt (congrArg figures) hne, rfl⟩
  · rintro ⟨digits, hne, rfl⟩
    exact ⟨mt List.map_eq_nil_iff.1 hne, fun c hc => isDigit_of_mem_figures hc⟩

/-- A fraction stands behind the time without it. -/
theorem Clock.write_fraction (hh : Fin 24) (mm : Fin 60) (ss : Fin 61) {digits : List (Fin 10)}
    (hne : digits ≠ []) : (Clock.mk hh mm (some ⟨ss, digits⟩)).write =
      (Clock.mk hh mm (some ⟨ss, []⟩)).write ++ '.' :: figures digits := by
  simp [Clock.write, Seconds.write, hne]

/-- A time with seconds, as it is cut at its colons. -/
theorem exists_seconds_of_parts {cs hour minute second : List Char}
    (hparts : Text.splitOn ':' cs = [hour, minute, second])
    (h : (twoDigits 0 23 hour && twoDigits 0 59 minute && twoDigits 0 60 second) = true) :
    ∃ hh mm ss, cs = (Clock.mk hh mm (some ⟨ss, []⟩)).write := by
  obtain ⟨-, -, hcs⟩ := Text.splitOn_eq_iff.1 hparts
  obtain ⟨hclock, hsecond⟩ := Bool.and_eq_true_iff.1 h
  obtain ⟨hh, mm, rfl, rfl⟩ := hour_minute_iff.1 hclock
  obtain ⟨ss, rfl⟩ := second_iff.1 hsecond
  exact ⟨hh, mm, ss, by simpa [Clock.write, Seconds.write] using hcs⟩

theorem exists_clock_of_isTime {cs : List Char} (h : isTime cs) : ∃ t : Clock, cs = t.write := by
  unfold isTime at h
  cases hpoint : Text.splitOnce '.' cs with
  | none =>
    simp only [hpoint, Bool.true_and] at h
    split at h
    · rename_i hour minute hparts
      obtain ⟨-, -, hcs⟩ := Text.splitOn_eq_iff.1 hparts
      obtain ⟨hh, mm, rfl, rfl⟩ := hour_minute_iff.1 h
      exact ⟨⟨hh, mm, none⟩, by simpa [Clock.write] using hcs⟩
    · rename_i hour minute second hparts
      obtain ⟨hh, mm, ss, rfl⟩ := exists_seconds_of_parts hparts h
      exact ⟨_, rfl⟩
    · cases h
  | some cut =>
    obtain ⟨clock, fraction⟩ := cut
    simp only [hpoint] at h
    obtain ⟨rfl, -⟩ := Text.splitOnce_eq_some_iff.1 hpoint
    obtain ⟨hfraction, h⟩ := Bool.and_eq_true_iff.1 h
    obtain ⟨digits, hne, rfl⟩ := fraction_iff.1 hfraction
    split at h
    · cases h
    · rename_i hour minute second hparts
      obtain ⟨hh, mm, ss, rfl⟩ := exists_seconds_of_parts hparts h
      exact ⟨⟨hh, mm, some ⟨ss, digits⟩⟩, (Clock.write_fraction hh mm ss hne).symm⟩
    · cases h

theorem isTime_write (t : Clock) : isTime t.write := by
  obtain ⟨hh, mm, seconds⟩ := t
  have hpoint : ∀ len n, '.' ∉ numeral len n := not_mem_numeral (by decide)
  have hcolon : ∀ len n, ':' ∉ numeral len n := not_mem_numeral (by decide)
  have hhour : twoDigits 0 23 (numeral 2 hh) := hour_iff.2 ⟨hh, rfl⟩
  have hminute : twoDigits 0 59 (numeral 2 mm) := minute_iff.2 ⟨mm, rfl⟩
  cases seconds with
  | none =>
    have hnone : Text.splitOnce '.' (Clock.mk hh mm none).write = none :=
      Text.splitOnce_eq_none_iff.2 (by simp [Clock.write, hpoint])
    have hparts : Text.splitOn ':' (Clock.mk hh mm none).write = [numeral 2 hh, numeral 2 mm] :=
      Text.splitOn_eq_iff.2 ⟨nofun, by simp [hcolon], by simp [Clock.write]⟩
    rw [isTime, hnone]
    simp [hparts, hhour, hminute]
  | some seconds =>
    obtain ⟨ss, digits⟩ := seconds
    have hsecond : twoDigits 0 60 (numeral 2 ss) := second_iff.2 ⟨ss, rfl⟩
    have hno : '.' ∉ (Clock.mk hh mm (some ⟨ss, []⟩)).write := by
      simp [Clock.write, Seconds.write, hpoint]
    have hparts : Text.splitOn ':' (Clock.mk hh mm (some ⟨ss, []⟩)).write =
        [numeral 2 hh, numeral 2 mm, numeral 2 ss] :=
      Text.splitOn_eq_iff.2 ⟨nofun, by simp [hcolon], by simp [Clock.write, Seconds.write]⟩
    by_cases hne : digits = []
    · subst hne
      rw [isTime, Text.splitOnce_eq_none_iff.2 hno]
      simp [hparts, hhour, hminute, hsecond]
    · have hfraction := fraction_iff.2 ⟨digits, hne, rfl⟩
      rw [Clock.write_fraction hh mm ss hne, isTime, Text.splitOnce_eq_some_iff.2 ⟨rfl, hno⟩]
      simp only [hfraction, hparts, hhour, hminute, hsecond, Bool.and_self]

theorem isTime_iff {cs : List Char} : isTime cs ↔ ∃ t : Clock, cs = t.write := by
  constructor
  · exact exists_clock_of_isTime
  · rintro ⟨t, rfl⟩
    exact isTime_write t

theorem startsZone_of_isDigit {c : Char} (h : c.isDigit) : startsZone c = false := by
  unfold startsZone
  by_contra hstart
  simp only [Bool.not_eq_false, Bool.or_eq_true, beq_iff_eq] at hstart
  rcases hstart with (rfl | rfl) | rfl <;> cases h

/-- No character of a time starts a zone. -/
theorem startsZone_of_mem_write (t : Clock) : ∀ c ∈ t.write, startsZone c = false := by
  have hnumeral : ∀ len n, ∀ c ∈ numeral len n, startsZone c = false := fun len n c hc =>
    startsZone_of_isDigit (isDigit_of_mem_numeral hc)
  have hfigures : ∀ digits, ∀ c ∈ figures digits, startsZone c = false := fun digits c hc =>
    startsZone_of_isDigit (isDigit_of_mem_figures hc)
  obtain ⟨hh, mm, seconds⟩ := t
  simp only [Clock.write, List.forall_mem_append, List.forall_mem_cons]
  refine ⟨hnumeral 2 hh, rfl, hnumeral 2 mm, ?_⟩
  cases seconds with
  | none => exact nofun
  | some s =>
    simp only [Seconds.write, List.forall_mem_append, List.forall_mem_cons]
    refine ⟨rfl, hnumeral 2 s.whole, ?_⟩
    split
    · exact nofun
    · exact List.forall_mem_cons.2 ⟨rfl, hfigures s.fraction⟩

/-! ### Zones -/

inductive Sign where
  | plus
  | minus

def Sign.char : Sign → Char
  | .plus => '+'
  | .minus => '-'

/-- A time zone, by its distance from universal time. -/
inductive Zone where
  | universal
  | hours (sign : Sign) (hour : Fin 24)
  /-- Hours and minutes, with a colon between them or without one. -/
  | minutes (sign : Sign) (hour : Fin 24) (colon : Bool) (minute : Fin 60)

def Zone.write : Zone → List Char
  | .universal => ['Z']
  | .hours sign hour => sign.char :: numeral 2 hour
  | .minutes sign hour colon minute =>
    sign.char :: (numeral 2 hour ++ ((if colon then [':'] else []) ++ numeral 2 minute))

/-- The ways to take apart what stands behind the sign of a zone. -/
inductive Divides (offset : List Char) : Outcome (List Char × Option (List Char)) → Prop
  | colon {hours minutes : List Char} (eq : offset = hours ++ ':' :: minutes) (first : ':' ∉ hours) :
      Divides offset (.ok (hours, some minutes))
  | middle {hours minutes : List Char} (solid : ':' ∉ offset) (four : Text.byteLen offset = 4)
      (eq : offset = hours ++ minutes) (half : Text.byteLen hours = 2) :
      Divides offset (.ok (hours, some minutes))
  /-- A character lies across the middle of four bytes. -/
  | across (solid : ':' ∉ offset) (four : Text.byteLen offset = 4)
      (uncut : ¬ Text.CutAt offset 2) : Divides offset (.error (.badSlice 0 2))
  | whole (solid : ':' ∉ offset) (other : Text.byteLen offset ≠ 4) :
      Divides offset (.ok (offset, none))

theorem divides_zoneParts (offset : List Char) : Divides offset (zoneParts offset) := by
  unfold zoneParts
  split
  · rename_i hours minutes hcolon
    obtain ⟨heq, hfirst⟩ := Text.splitOnce_eq_some_iff.1 hcolon
    exact .colon heq hfirst
  · rename_i hcolon
    have hsolid := Text.splitOnce_eq_none_iff.1 hcolon
    by_cases hfour : Text.byteLen offset = 4
    · rw [if_pos hfour]
      split
      · rename_i hours minutes hsplit
        obtain ⟨heq, hhalf⟩ := Text.splitBytes?_eq_some_iff.1 hsplit
        exact .middle hsolid hfour heq hhalf
      · rename_i hsplit
        refine .across hsolid hfour ?_
        rintro ⟨a, b, heq, hhalf⟩
        rw [Text.splitBytes?_eq_some_iff.2 ⟨heq, hhalf⟩] at hsplit
        cases hsplit
    · rw [if_neg hfour]
      exact .whole hsolid hfour

/-- A zone that starts with a sign is as valid as its parts. -/
theorem isZone_sign (sign : Sign) (offset : List Char) : isZone (sign.char :: offset) =
    (zoneParts offset).map fun parts =>
      twoDigits 0 23 parts.1 && parts.2.all (twoDigits 0 59) := by
  -- the two signs are read alike
  have hsign : isZone (sign.char :: offset) = isZone ('+' :: offset) := by cases sign <;> rfl
  rw [hsign]
  cases hparts : zoneParts offset with
  | error fault => simp [isZone, hparts, Except.map]
  | ok parts =>
    obtain ⟨hours, minutes⟩ := parts
    cases minutes with
    | none => simp [isZone, hparts, Except.map]
    | some minutes => simp [isZone, hparts, Except.map]

theorem Sign.startsZone_char (sign : Sign) : startsZone sign.char := by cases sign <;> rfl

theorem Zone.startsZone_head (z : Zone) : ∀ c ∈ z.write.head?, startsZone c := by
  cases z with
  | universal =>
    rintro c ⟨⟩
    rfl
  | hours sign hour | minutes sign hour colon minute =>
    rintro c ⟨⟩
    exact sign.startsZone_char

theorem isZone_cases (cs : List Char) : cs = [] ∨ cs = ['Z'] ∨
    (∃ sign offset, cs = Sign.char sign :: offset) ∨ isZone cs = .ok false := by
  unfold isZone
  split
  · exact .inl rfl
  · exact .inr (.inl rfl)
  · rename_i c offset _
    by_cases hplus : c = '+'
    · exact .inr (.inr (.inl ⟨.plus, offset, congrArg (· :: offset) hplus⟩))
    by_cases hminus : c = '-'
    · exact .inr (.inr (.inl ⟨.minus, offset, congrArg (· :: offset) hminus⟩))
    · refine .inr (.inr (.inr (if_neg ?_)))
      simp [hplus, hminus]

theorem zoneParts_write (hour : Fin 24) (minute : Fin 60) :
    zoneParts (numeral 2 hour) = .ok (numeral 2 hour, none) ∧
    zoneParts (numeral 2 hour ++ numeral 2 minute) = .ok (numeral 2 hour, some (numeral 2 minute)) ∧
    zoneParts (numeral 2 hour ++ ':' :: numeral 2 minute) =
      .ok (numeral 2 hour, some (numeral 2 minute)) := by
  have hcolon : ∀ len n, ':' ∉ numeral len n := not_mem_numeral (by decide)
  refine ⟨?_, ?_, ?_⟩
  · have hother : Text.byteLen (numeral 2 hour) ≠ 4 := by
      rw [byteLen_numeral]
      decide
    rw [zoneParts, Text.splitOnce_eq_none_iff.2 (hcolon 2 hour), if_neg hother]
  · have hsolid : ':' ∉ numeral 2 hour ++ numeral 2 minute := by simp [hcolon]
    have hfour : Text.byteLen (numeral 2 hour ++ numeral 2 minute) = 4 := by
      rw [Text.byteLen_append, byteLen_numeral, byteLen_numeral]
    rw [zoneParts, Text.splitOnce_eq_none_iff.2 hsolid, if_pos hfour,
      Text.splitBytes?_eq_some_iff.2 ⟨rfl, byteLen_numeral 2 hour⟩]
  · rw [zoneParts, Text.splitOnce_eq_some_iff.2 ⟨rfl, hcolon 2 hour⟩]

theorem isZone_write (z : Zone) : isZone z.write = .ok true := by
  cases z with
  | universal => rfl
  | hours sign hour =>
    have hhour : twoDigits 0 23 (numeral 2 hour) := hour_iff.2 ⟨hour, rfl⟩
    rw [Zone.write, isZone_sign, (zoneParts_write hour 0).1]
    simp [Except.map, hhour]
  | minutes sign hour colon minute =>
    obtain ⟨-, hbasic, hextended⟩ := zoneParts_write hour minute
    have hhour : twoDigits 0 23 (numeral 2 hour) := hour_iff.2 ⟨hour, rfl⟩
    have hminute : twoDigits 0 59 (numeral 2 minute) := minute_iff.2 ⟨minute, rfl⟩
    have hparts : zoneParts (numeral 2 hour ++ ((if colon then [':'] else []) ++ numeral 2 minute)) =
        .ok (numeral 2 hour, some (numeral 2 minute)) := by
      cases colon with
      | false => exact hbasic
      | true => exact hextended
    rw [Zone.write, isZone_sign, hparts]
    simp [Except.map, hhour, hminute]

theorem exists_zone_of_isZone {sign : Sign} {offset : List Char}
    (h : isZone (sign.char :: offset) = .ok true) : ∃ z : Zone, sign.char :: offset = z.write := by
  rw [isZone_sign] at h
  have hparts := divides_zoneParts offset
  generalize zoneParts offset = parts at h hparts
  cases hparts with
  | colon heq _ =>
    obtain ⟨hour, minute, rfl, rfl⟩ := hour_minute_iff.1 (Except.ok.inj h)
    exact ⟨.minutes sign hour true minute, congrArg _ heq⟩
  | middle _ _ heq _ =>
    obtain ⟨hour, minute, rfl, rfl⟩ := hour_minute_iff.1 (Except.ok.inj h)
    exact ⟨.minutes sign hour false minute, congrArg _ heq⟩
  | across => cases h
  | whole =>
    obtain ⟨hhour, -⟩ := Bool.and_eq_true_iff.1 (Except.ok.inj h)
    obtain ⟨hour, rfl⟩ := hour_iff.1 hhour
    exact ⟨.hours sign hour, rfl⟩

theorem isZone_eq_true_iff {cs : List Char} :
    isZone cs = .ok true ↔ cs = [] ∨ ∃ z : Zone, cs = z.write := by
  constructor
  · intro h
    rcases isZone_cases cs with rfl | rfl | ⟨sign, offset, rfl⟩ | hfalse
    · exact .inl rfl
    · exact .inr ⟨.universal, rfl⟩
    · exact .inr (exists_zone_of_isZone h)
    · rw [hfalse] at h
      cases h
  · rintro (rfl | ⟨z, rfl⟩)
    · rfl
    · exact isZone_write z

/-- The text is a sign with four bytes behind it, without a colon and with a character across the
middle. -/
def IsSplit (zone : List Char) : Prop :=
  ∃ (sign : Sign) (offset : List Char), zone = sign.char :: offset ∧ ':' ∉ offset ∧
    Text.byteLen offset = 4 ∧ ¬ Text.CutAt offset 2

theorem isZone_eq_error_iff {cs : List Char} {fault : Fault} :
    isZone cs = .error fault ↔ fault = .badSlice 0 2 ∧ IsSplit cs := by
  constructor
  · intro h
    rcases isZone_cases cs with rfl | rfl | ⟨sign, offset, rfl⟩ | hfalse
    · cases h
    · cases h
    · rw [isZone_sign] at h
      have hparts := divides_zoneParts offset
      generalize zoneParts offset = parts at h hparts
      cases hparts with
      | across hsolid hfour huncut =>
        cases h
        exact ⟨rfl, sign, offset, rfl, hsolid, hfour, huncut⟩
      | _ => cases h
    · rw [hfalse] at h
      cases h
  · rintro ⟨rfl, sign, offset, rfl, hsolid, hfour, huncut⟩
    have hsplit : Text.splitBytes? 2 offset = none := by
      rw [Option.eq_none_iff_forall_ne_some]
      rintro ⟨a, b⟩ hsplit
      exact huncut ⟨a, b, Text.splitBytes?_eq_some_iff.1 hsplit⟩
    rw [isZone_sign, zoneParts, Text.splitOnce_eq_none_iff.2 hsolid, if_pos hfour, hsplit]
    rfl

/-! ### Dates with times -/

/-- A date, a date with a time, or a date with a time in a zone. -/
inductive Stamp where
  | day (d : Date)
  | timed (d : Date) (t : Clock)
  | zoned (d : Date) (t : Clock) (z : Zone)

def Stamp.write : Stamp → List Char
  | .day d => d.write
  | .timed d t => d.write ++ 'T' :: t.write
  | .zoned d t z => d.write ++ 'T' :: (t.write ++ z.write)

/-- The text is written by the format. -/
def IsStamp (value : String) : Prop := ∃ s : Stamp, value.toList = s.write

/-- The zone of the text is a split one. -/
def HasSplitZone (value : String) : Prop := ∃ (d : Date) (t : Clock) (zone : List Char),
  value.toList = d.write ++ 'T' :: (t.write ++ zone) ∧ IsSplit zone

theorem not_T_mem_write (d : Date) : 'T' ∉ d.write := by
  have hno : ∀ len n, 'T' ∉ numeral len n := not_mem_numeral (by decide)
  simp [Date.write, hno]

/-- The zone of a text is what decides about it, behind a date and a time. -/
theorem isValid_of_timed {value : String} {d : Date} {t : Clock} {zone : List Char}
    (htext : value.toList = d.write ++ 'T' :: (t.write ++ zone))
    (hzone : ∀ c ∈ zone.head?, startsZone c) : isValid value = isZone zone := by
  have hclock : ∀ c ∈ t.write, (!startsZone c) = true := by
    intro c hc
    rw [startsZone_of_mem_write t c hc]
    rfl
  have hcut : zone.takeWhile (!startsZone ·) = [] ∧ zone.dropWhile (!startsZone ·) = zone := by
    cases zone with
    | nil => exact ⟨rfl, rfl⟩
    | cons c zone =>
      have hc : startsZone c := hzone c rfl
      constructor
      · rw [List.takeWhile_cons, hc]
        rfl
      · rw [List.dropWhile_cons, hc]
        rfl
  rw [isValid, Text.splitOnce_eq_some_iff.2 ⟨htext, not_T_mem_write d⟩]
  simp only [List.takeWhile_append_of_pos hclock, List.dropWhile_append_of_pos hclock, hcut,
    List.append_nil, isDate_iff.2 ⟨d, rfl⟩, isTime_write, Bool.and_self, if_pos]

theorem isValid_cases (value : String) : (∃ d : Date, value.toList = d.write) ∨
    (∃ (d : Date) (t : Clock) (zone : List Char),
      value.toList = d.write ++ 'T' :: (t.write ++ zone) ∧ isValid value = isZone zone) ∨
    isValid value = .ok false := by
  unfold isValid
  split
  · rename_i hnone
    by_cases hdate : isDate value.toList
    · exact .inl (isDate_iff.1 hdate)
    · rw [Bool.not_eq_true] at hdate
      exact .inr (.inr (congrArg _ hdate))
  · rename_i date rest hsplit
    obtain ⟨htext, -⟩ := Text.splitOnce_eq_some_iff.1 hsplit
    split
    · rename_i hparts
      obtain ⟨hdate, htime⟩ := Bool.and_eq_true_iff.1 hparts
      obtain ⟨d, rfl⟩ := isDate_iff.1 hdate
      obtain ⟨t, ht⟩ := isTime_iff.1 htime
      refine .inr (.inl ⟨d, t, _, ?_, rfl⟩)
      rw [← ht, List.takeWhile_append_dropWhile]
      exact htext
    · exact .inr (.inr rfl)

theorem isValid_eq_true_iff {value : String} : isValid value = .ok true ↔ IsStamp value := by
  constructor
  · intro h
    rcases isValid_cases value with ⟨d, htext⟩ | ⟨d, t, zone, htext, hzone⟩ | hfalse
    · exact ⟨.day d, htext⟩
    · rw [hzone] at h
      rcases isZone_eq_true_iff.1 h with rfl | ⟨z, rfl⟩
      · exact ⟨.timed d t, by rwa [List.append_nil] at htext⟩
      · exact ⟨.zoned d t z, htext⟩
    · rw [hfalse] at h
      cases h
  · rintro ⟨s, htext⟩
    cases s with
    | day d =>
      have hnone : Text.splitOnce 'T' value.toList = none :=
        Text.splitOnce_eq_none_iff.2 (htext ▸ not_T_mem_write d)
      rw [isValid, hnone]
      exact congrArg _ (isDate_iff.2 ⟨d, htext⟩)
    | timed d t =>
      have htext : value.toList = d.write ++ 'T' :: (t.write ++ []) := by
        rw [List.append_nil]
        exact htext
      rw [isValid_of_timed htext nofun]
      rfl
    | zoned d t z => rw [isValid_of_timed htext z.startsZone_head, isZone_write]

instance : DecidablePred IsStamp := fun value =>
  decidable_of_iff (isValid value = .ok true) isValid_eq_true_iff

theorem isValid_eq_error_iff {value : String} {fault : Fault} :
    isValid value = .error fault ↔ fault = .badSlice 0 2 ∧ HasSplitZone value := by
  constructor
  · intro h
    rcases isValid_cases value with ⟨d, htext⟩ | ⟨d, t, zone, htext, hzone⟩ | hfalse
    · rw [isValid_eq_true_iff.2 ⟨.day d, htext⟩] at h
      cases h
    · rw [hzone] at h
      obtain ⟨rfl, hsplit⟩ := isZone_eq_error_iff.1 h
      exact ⟨rfl, d, t, zone, htext, hsplit⟩
    · rw [hfalse] at h
      cases h
  · rintro ⟨rfl, d, t, zone, htext, hsplit⟩
    have hhead : ∀ c ∈ zone.head?, startsZone c := by
      obtain ⟨sign, offset, rfl, -⟩ := hsplit
      rintro c ⟨⟩
      exact sign.startsZone_char
    rw [isValid_of_timed htext hhead]
    exact isZone_eq_error_iff.2 ⟨rfl, hsplit⟩

/-- An ASCII text is answered, with yes exactly if it is a written date or date and time. -/
theorem isValid_ascii_iff (value : String) (ascii : ∀ c ∈ value.toList, c.toNat < 128) :
    ∃ valid, isValid value = .ok valid ∧ (valid = true ↔ ∃ s : Stamp, value.toList = s.write) := by
  have hwhole : ¬ HasSplitZone value := by
    rintro ⟨d, t, zone, htext, sign, offset, rfl, -, hfour, huncut⟩
    have hoffset : ∀ c ∈ offset, c.toNat < 128 := by
      intro c hc
      exact ascii c (by simp [htext, hc])
    rw [Text.byteLen_of_ascii hoffset] at hfour
    exact huncut (Text.cutAt_of_ascii hoffset (by omega))
  cases h : isValid value with
  | error fault => exact absurd (isValid_eq_error_iff.1 h).2 hwhole
  | ok valid =>
    refine ⟨valid, rfl, ?_⟩
    rw [← IsStamp, ← isValid_eq_true_iff, h, Except.ok.injEq]

theorem isValid_ascii_iff_zoned : isValid "2001-07-04T12:08:56.235-07:00" = .ok true ∧
    ∃ s : Stamp, "2001-07-04T12:08:56.235-07:00".toList = s.write := by
  have ascii : "2001-07-04T12:08:56.235-07:00".toList.all (·.toNat < 128) := by decide
  obtain ⟨valid, hanswer, hstamp⟩ := isValid_ascii_iff "2001-07-04T12:08:56.235-07:00" fun c hc =>
    of_decide_eq_true (List.all_eq_true.1 ascii c hc)
  have htrue : isValid "2001-07-04T12:08:56.235-07:00" = .ok true := by decide +kernel
  obtain rfl : valid = true := Except.ok.inj (hanswer.symm.trans htrue)
  exact ⟨htrue, hstamp.1 rfl⟩

end JakartaCheck.Iso8601
