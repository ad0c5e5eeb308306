import JakartaCheck.Java.Reading
import JakartaCheck.Proofs.DatesAndTimes
import JakartaCheck.Proofs.DisabledRules

/-!
# Dates of generated code

The rule on generated code looks at one date of each type and of each member (`writtenDates`) and
flags those that are not written in the date format (`collect_of_not_split`). A date without an
answer makes the rule crash, wherever it stands in the unit (`collect_of_split`), and as an analysis
has nothing of a rule that crashes, none of the other dates is flagged then (`analyze_flags_dates`).
-/

namespace JakartaCheck.Lifecycle

open Iso8601

/-! ### Dates of generated code -/

/-- The date in the first annotation that says when code was generated, with the argument that it
stands in, if it is written as a string. -/
def writtenDate? (unit : CompilationUnit) (m : Modifiers) : Option (Argument × String) := do
  let a ← unit.annotationOf? m generated
  let date ← a.arg? "date"
  let value ← date.stringValue
  some (date, value)

/-- All such dates of a unit, of its types and their members. -/
def writtenDates (unit : CompilationUnit) : List (Argument × String) :=
  (unit.types.flatMap modifierLists).filterMap (writtenDate? unit)

def invalidDate (date : Argument) : Diagnostic :=
  Diagnostic.error Source.annotations Code.invalidDateFormat
    "The date element in the @Generated annotation must follow the ISO 8601 standard."
    date.valueSpan

/-- One diagnostic for each date that is none. -/
def flagged (dates : List (Argument × String)) : List Diagnostic :=
  (dates.filter fun x => !decide (IsStamp x.2)).map fun x => invalidDate x.1

variable {unit : CompilationUnit} {m : Modifiers}

theorem dateFindings_of_none (h : writtenDate? unit m = none) : dateFindings unit m = .ok [] := by
  unfold writtenDate? at h
  simp only [dateFindings, h]

theorem dateFindings_of_some {x : Argument × String} (h : writtenDate? unit m = some x) :
    dateFindings unit m = (isValid x.2).map fun valid => onlyIf (!valid) (invalidDate x.1) := by
  unfold writtenDate? at h
  simp only [dateFindings, h]
  cases isValid x.2 <;> rfl

theorem dateFindings_of_split {x : Argument × String} (h : writtenDate? unit m = some x)
    (hsplit : HasSplitZone x.2) : dateFindings unit m = .error (.badSlice 0 2) := by
  rw [dateFindings_of_some h, isValid_eq_error_iff.2 ⟨rfl, hsplit⟩]
  rfl

theorem dateFindings_of_not_split {x : Argument × String} (h : writtenDate? unit m = some x)
    (hsplit : ¬ HasSplitZone x.2) : dateFindings unit m = .ok (flagged [x]) := by
  rw [dateFindings_of_some h]
  cases hvalid : isValid x.2 with
  | error fault => exact absurd (isValid_eq_error_iff.1 hvalid).2 hsplit
  | ok valid =>
    have hstamp : IsStamp x.2 ↔ valid = true := by
      rw [← isValid_eq_true_iff, hvalid, Except.ok.injEq]
    cases valid with
    | false => simp [Except.map, flagged, hstamp, onlyIf]
    | true => simp [Except.map, flagged, hstamp, onlyIf]

theorem flagged_append (a b : List (Argument × String)) : flagged (a ++ b) = flagged a ++ flagged b := by
  rw [flagged, List.filter_append, List.map_append]
  rfl

/-- As long as no zone is split, all dates are looked at. -/
theorem mapM_dateFindings {ms : List Modifiers}
    (h : ∀ x ∈ ms.filterMap (writtenDate? unit), ¬ HasSplitZone x.2) :
    ∃ found, ms.mapM (dateFindings unit) = .ok found ∧
      found.flatten = flagged (ms.filterMap (writtenDate? unit)) := by
  induction ms with
  | nil => exact ⟨[], rfl, rfl⟩
  | cons m ms ih =>
    cases hdate : writtenDate? unit m with
    | none =>
      rw [List.filterMap_cons_none hdate] at h ⊢
      obtain ⟨found, hfound, hflat⟩ := ih h
      refine ⟨[] :: found, ?_, hflat⟩
      rw [List.mapM_cons, dateFindings_of_none hdate, hfound]
      rfl
    | some x =>
      rw [List.filterMap_cons_some hdate] at h ⊢
      obtain ⟨hx, h⟩ := List.forall_mem_cons.1 h
      obtain ⟨found, hfound, hflat⟩ := ih h
      refine ⟨flagged [x] :: found, ?_, ?_⟩
      · rw [List.mapM_cons, dateFindings_of_not_split hdate hx, hfound]
        rfl
      · rw [List.flatten_cons, hflat, ← flagged_append]
        rfl

/-- One split zone is enough to look at no more dates. -/
theorem mapM_dateFindings_of_split {ms : List Modifiers} {x : Argument × String}
    (hx : x ∈ ms.filterMap (writtenDate? unit)) (hsplit : HasSplitZone x.2) :
    ms.mapM (dateFindings unit) = .error (.badSlice 0 2) := by
  induction ms with
  | nil => cases hx
  | cons m ms ih =>
    rw [List.mapM_cons]
    cases hdate : writtenDate? unit m with
    | none =>
      rw [List.filterMap_cons_none hdate] at hx
      rw [dateFindings_of_none hdate, ih hx]
      rfl
    | some y =>
      rw [List.filterMap_cons_some hdate] at hx
      by_cases hy : HasSplitZone y.2
      · rw [dateFindings_of_split hdate hy]
        rfl
      · rcases List.mem_cons.1 hx with rfl | hx
        · exact absurd hsplit hy
        · rw [dateFindings_of_not_split hdate hy, ih hx]
          rfl

theorem collect_of_split {x : Argument × String} (hx : x ∈ writtenDates unit)
    (hsplit : HasSplitZone x.2) :
    (generatedDate.collect unit).result = .error (.crash (.badSlice 0 2)) := by
  simp only [generatedDate, Rule.ofOutcome, mapM_dateFindings_of_split hx hsplit]
  rfl

theorem collect_of_not_split (h : ∀ x ∈ writtenDates unit, ¬ HasSplitZone x.2) :
    (generatedDate.collect unit).result = .ok (flagged (writtenDates unit)) := by
  obtain ⟨found, hfound, hflat⟩ := mapM_dateFindings h
  simp only [generatedDate, Rule.ofOutcome, hfound]
  exact congrArg Except.ok hflat

/-! ### What an analysis has of the rule -/

theorem kept_of_split {x : Argument × String} (hx : x ∈ writtenDates unit) (hsplit : HasSplitZone x.2)
    (maxPerRule : Nat) : generatedDate.kept maxPerRule unit = [] := by
  rw [Rule.kept, collect_of_split hx hsplit, ite_self]

theorem kept_of_not_split (h : ∀ x ∈ writtenDates unit, ¬ HasSplitZone x.2) (maxPerRule : Nat) :
    generatedDate.kept maxPerRule unit = if unit.mentions "jakarta.annotation" then
      (flagged (writtenDates unit)).take maxPerRule else [] := by
  rw [Rule.kept, collect_of_not_split h]
  rfl

/-- If the zone of one date is split, the rule crashes and the analysis has none of its findings.
Otherwise it flags exactly the dates that are none, and where the rule applies the analysis has these
findings up to the quota. -/
theorem analyze_flags_dates (unit : CompilationUnit) (maxPerRule : Nat) {token : CancelToken}
    {cancelled : List CancelToken} {before after : List Rule}
    (live : ¬ Engine.CalledOff unit token cancelled (before ++ generatedDate :: after)) :
    ((∃ x ∈ writtenDates unit, HasSplitZone x.2) →
      (generatedDate.collect unit).result = .error (.crash (.badSlice 0 2)) ∧
      (Engine.analyze maxPerRule unit token cancelled (before ++ generatedDate :: after)).1 =
        .ok (Engine.findings maxPerRule unit before ++ Engine.findings maxPerRule unit after)) ∧
    ((∀ x ∈ writtenDates unit, ¬ HasSplitZone x.2) →
      (generatedDate.collect unit).result = .ok (flagged (writtenDates unit)) ∧
      (Engine.analyze maxPerRule unit token cancelled (before ++ generatedDate :: after)).1 =
        .ok (Engine.findings maxPerRule unit before ++
          (if unit.mentions "jakarta.annotation" then (flagged (writtenDates unit)).take maxPerRule
            else []) ++
          Engine.findings maxPerRule unit after)) := by
  have hanswer := (Engine.analyze_fst maxPerRule unit token cancelled _).2 live
  have hkept : ∀ rules : List Rule,
      rules.flatMap (Rule.kept maxPerRule unit) = Engine.findings maxPerRule unit rules := by
    intro rules
    rw [Engine.findings]
    exact congrArg (rules.flatMap ·) (funext fun rule => (Engine.runRule_fst rule).symm)
  rw [List.flatMap_append, List.flatMap_cons, hkept, hkept] at hanswer
  constructor
  · rintro ⟨x, hx, hsplit⟩
    refine ⟨collect_of_split hx hsplit, ?_⟩
    rw [hanswer, kept_of_split hx hsplit, List.nil_append]
  · intro h
    refine ⟨collect_of_not_split h, ?_⟩
    rw [hanswer, kept_of_not_split h, List.append_assoc]

/-- A class that says it was generated yesterday. -/
def generatedYesterday : CompilationUnit where
  uri := "file:///A.java"
  text := "@jakarta.annotation.Generated(date = \"yesterday\") class A {}"
  package := none
  imports := []
  types := [⟨.classType, "A", ⟨56, 57⟩, ⟨0, 60⟩, ⟨58, 60⟩, ⟨some ⟨0, 49⟩, [], [⟨
    "jakarta.annotation.Generated", "Generated", some "jakarta.annotation.Generated", ⟨0, 49⟩,
    ⟨1, 29⟩, [⟨"date", ⟨30, 48⟩, ⟨37, 48⟩, "\"yesterday\"", some "yesterday"⟩], some ⟨29, 49⟩⟩]⟩,
    none, none, [], [], []⟩]
  calls := []

theorem analyze_flags_dates_yesterday :
    (Engine.analyze 9 generatedYesterday 1 [0] rules).1 =
      .ok ((writtenDates generatedYesterday).map fun x => invalidDate x.1) := by
  have live : ¬ Engine.CalledOff generatedYesterday 1 [0]
      ([callbacks, resourceAttributes] ++ generatedDate :: []) :=
    RuleRegistry.not_calledOff (by decide) fun _ hrule => List.mem_append_right _ hrule
  have hdates : (writtenDates generatedYesterday).map (·.2) = ["yesterday"] := by decide +kernel
  have hvalue : ∀ x ∈ writtenDates generatedYesterday, x.2 = "yesterday" := by
    intro x hx
    have hx := List.mem_map_of_mem (f := fun x : Argument × String => x.2) hx
    rw [hdates] at hx
    exact List.mem_singleton.1 hx
  have hinvalid : isValid "yesterday" = .ok false := by decide +kernel
  have hwhole : ∀ x ∈ writtenDates generatedYesterday, ¬ HasSplitZone x.2 := by
    intro x hx hsplit
    rw [hvalue x hx] at hsplit
    rw [isValid_eq_error_iff.2 ⟨rfl, hsplit⟩] at hinvalid
    cases hinvalid
  have happlies : generatedYesterday.mentions "jakarta.annotation" := by decide +kernel
  have hfound := ((analyze_flags_dates generatedYesterday 9 live).2 hwhole).2
  have hall : flagged (writtenDates generatedYesterday) =
      (writtenDates generatedYesterday).map fun x => invalidDate x.1 := by
    rw [flagged, List.filter_eq_self.2]
    intro x hx
    have hnone : ¬ IsStamp x.2 := by
      rw [hvalue x hx, ← isValid_eq_true_iff, hinvalid]
      nofun
    simp [hnone]
  rw [if_pos happlies, hall] at hfound
  exact hfound

/-- Behind a split zone, no built-in rule flags a date. -/
theorem no_date_flagged_of_split {x : Argument × String} (hx : x ∈ writtenDates unit)
    (hsplit : HasSplitZone x.2) (maxPerRule : Nat) {token : CancelToken} {cancelled : List CancelToken}
    (live : token ∉ cancelled) :
    ∃ all, (Engine.analyze maxPerRule unit token cancelled RuleRegistry.builtinRules).1 = .ok all ∧
      ∀ d ∈ all, d.code ≠ Code.invalidDateFormat := by
  have hids : (RuleRegistry.builtinRules.map Rule.id).Nodup := by decide +kernel
  have hmem : generatedDate ∈ RuleRegistry.builtinRules := by simp [RuleRegistry.builtinRules, rules]
  have howner := RuleRegistry.ownerOf?_builtin generatedDate hmem _ List.mem_cons_self
  refine ⟨_, (Engine.analyze_fst maxPerRule unit token cancelled _).2
    (RuleRegistry.not_calledOff live fun _ hrule => hrule), ?_⟩
  intro d hd hcode
  obtain ⟨rule, hrule, hd⟩ := List.mem_flatMap.1 hd
  have hid : some rule.id = some generatedDate.id := by
    rw [← (RuleRegistry.owner_of_kept hrule hd).2, hcode]
    exact howner
  obtain rfl := List.inj_on_of_nodup_map hids hrule hmem (Option.some.inj hid)
  rw [kept_of_split hx hsplit] at hd
  cases hd

/-- A class whose date has a character across the middle of its zone, and a class behind it. -/
def splitZoneText : String :=
  "import jakarta.annotation.Generated;\n" ++
    "@Generated(date = \"2001-07-04T12:08+1é1\") class A \x7b\x7d\n" ++
    "@Generated(date = \"yesterday\") class B \x7b\x7d"

/-- The date of the second class is not flagged because of the first one. -/
theorem analyze_hides_date_behind_split_zone :
    ∃ unit, CompilationUnit.ofText? "file:///A.java" splitZoneText = some unit ∧
      (∃ x ∈ writtenDates unit, x.2 = "yesterday" ∧ ¬ IsStamp x.2) ∧
      (generatedDate.collect unit).result = .error (.crash (.badSlice 0 2)) ∧
      ∃ all, (Engine.analyze 256 unit 1 [0] RuleRegistry.builtinRules).1 = .ok all ∧
        ∀ d ∈ all, d.code ≠ Code.invalidDateFormat := by
  have facts : (CompilationUnit.ofText? "file:///A.java" splitZoneText).map (fun unit =>
      (writtenDates unit).map (·.2)) = some ["2001-07-04T12:08+1é1", "yesterday"] := by
    decide +kernel
  obtain ⟨unit, lowered, hdates⟩ := Option.map_eq_some_iff.1 facts
  have hmem : ∀ value ∈ ["2001-07-04T12:08+1é1", "yesterday"], ∃ x ∈ writtenDates unit, x.2 = value := by
    intro value hvalue
    rw [← hdates] at hvalue
    exact List.mem_map.1 hvalue
  obtain ⟨x, hx, hfirst⟩ := hmem "2001-07-04T12:08+1é1" (by decide)
  obtain ⟨y, hy, hsecond⟩ := hmem "yesterday" (by decide)
  have hfault : isValid "2001-07-04T12:08+1é1" = .error (.badSlice 0 2) := by decide +kernel
  have hsplit : HasSplitZone x.2 := hfirst ▸ (isValid_eq_error_iff.1 hfault).2
  have hinvalid : ¬ IsStamp y.2 := by
    rw [hsecond]
    decide +kernel
  exact ⟨unit, lowered, ⟨y, hy, hsecond, hinvalid⟩, collect_of_split hx hsplit,
    no_date_flagged_of_split hx hsplit 256 (by decide)⟩

end JakartaCheck.Lifecycle
