import JakartaCheck.Check.Member
import JakartaCheck.Proofs.FixCoverage

/-!
# Annotations that exclude each other

An annotation may stand more than once in a list of modifiers, and one annotation may be on both
sides of a rule of exclusion. So who takes part in a conflict is said of occurrences, which are
annotations with their places: an occurrence is `Opposed` if another occurrence stands against it.
The check looks for one such pair only (`hasConflict_iff`) and then takes all annotations of either
side; as soon as there is a pair, each of these has an opponent (`opposed_iff`).
-/

namespace JakartaCheck.Check

variable {primary conflicting : AnnotationUse → Bool} {annotations : List AnnotationUse}

/-- One of the annotations is `primary` and the other `conflicting`. -/
def Against (primary conflicting : AnnotationUse → Bool) (a b : AnnotationUse) : Prop :=
  (primary a ∧ conflicting b) ∨ (primary b ∧ conflicting a)

/-- Another occurrence in the list stands against the occurrence `x`. -/
def Opposed (primary conflicting : AnnotationUse → Bool) (annotations : List AnnotationUse)
    (x : AnnotationUse × Nat) : Prop :=
  ∃ y ∈ annotations.zipIdx, y.2 ≠ x.2 ∧ Against primary conflicting x.1 y.1

/-! ### Pairs -/

/-- An annotation of `annotations` meets a conflicting one at another place, in front of it included. -/
theorem hasConflict_iff (before : List AnnotationUse) :
    hasConflict primary conflicting before annotations ↔
      ∃ x ∈ annotations.zipIdx before.length, ∃ y ∈ (before ++ annotations).zipIdx,
        y.2 ≠ x.2 ∧ primary x.1 ∧ conflicting y.1 := by
  induction annotations generalizing before with
  | nil => simp [hasConflict]
  | cons a rest ih =>
    have hfront : ∀ y ∈ before.zipIdx, y.2 ≠ before.length := fun y hy => by
      have := List.snd_lt_add_of_mem_zipIdx hy
      omega
    have hback : ∀ y ∈ rest.zipIdx (before.length + 1), y.2 ≠ before.length := fun y hy => by
      have := List.le_snd_of_mem_zipIdx hy
      omega
    have hany : ∀ (items : List AnnotationUse) (n : Nat),
        items.any conflicting = true ↔ ∃ y ∈ items.zipIdx n, conflicting y.1 := fun items n => by
      rw [List.any_eq_true]
      constructor
      · rintro ⟨b, hb, hconflict⟩
        rw [← List.zipIdx_map_fst n items] at hb
        obtain ⟨y, hy, rfl⟩ := List.mem_map.1 hb
        exact ⟨y, hy, hconflict⟩
      · rintro ⟨y, hy, hconflict⟩
        exact ⟨y.1, List.fst_mem_of_mem_zipIdx hy, hconflict⟩
    -- the opponents of `a` stand in front of it or behind it
    have hhere : (∃ y ∈ (before ++ a :: rest).zipIdx, y.2 ≠ before.length ∧ conflicting y.1) ↔
        before.any conflicting || rest.any conflicting := by
      rw [Bool.or_eq_true, hany before 0, hany rest (before.length + 1), List.zipIdx_append,
        List.zipIdx_cons]
      simp only [List.mem_append, List.mem_cons, Nat.zero_add]
      constructor
      · rintro ⟨y, hy | rfl | hy, hne, hconflict⟩
        · exact .inl ⟨y, hy, hconflict⟩
        · exact absurd rfl hne
        · exact .inr ⟨y, hy, hconflict⟩
      · rintro (⟨y, hy, hconflict⟩ | ⟨y, hy, hconflict⟩)
        · exact ⟨y, .inl hy, hfront y hy, hconflict⟩
        · exact ⟨y, .inr (.inr hy), hback y hy, hconflict⟩
    have hlen : (before ++ [a]).length = before.length + 1 := by simp
    rw [hasConflict, Bool.or_eq_true, Bool.and_eq_true, ← hhere, ih, hlen, List.append_assoc,
      List.singleton_append, List.zipIdx_cons, List.exists_mem_cons_iff]
    refine or_congr_left ?_
    constructor
    · rintro ⟨hprimary, y, hy, hne, hconflict⟩
      exact ⟨y, hy, hne, hprimary, hconflict⟩
    · rintro ⟨y, hy, hne, hprimary, hconflict⟩
      exact ⟨hprimary, y, hy, hne, hconflict⟩

theorem hasConflict_of_opposed {x : AnnotationUse × Nat} (hx : x ∈ annotations.zipIdx)
    (h : Opposed primary conflicting annotations x) :
    hasConflict primary conflicting [] annotations := by
  obtain ⟨y, hy, hne, hagainst⟩ := h
  refine (hasConflict_iff []).2 ?_
  rcases hagainst with ⟨hprimary, hconflict⟩ | ⟨hprimary, hconflict⟩
  · exact ⟨x, hx, y, hy, hne, hprimary, hconflict⟩
  · exact ⟨y, hy, x, hx, hne.symm, hprimary, hconflict⟩

theorem eq_of_same_place {x y : AnnotationUse × Nat} (hx : x ∈ annotations.zipIdx)
    (hy : y ∈ annotations.zipIdx) (h : y.2 = x.2) : x = y := by
  have hsame : some x.1 = some y.1 := by
    rw [← List.mem_zipIdx_iff_getElem?.1 hx, ← List.mem_zipIdx_iff_getElem?.1 hy, h]
  exact Prod.ext (Option.some.inj hsame) h.symm

/-- If there is a conflict at all, whoever is on one of the sides has an opponent. -/
theorem opposed_iff (h : hasConflict primary conflicting [] annotations) {x : AnnotationUse × Nat}
    (hx : x ∈ annotations.zipIdx) :
    Opposed primary conflicting annotations x ↔ primary x.1 || conflicting x.1 := by
  rw [Bool.or_eq_true]
  constructor
  · rintro ⟨y, -, -, ⟨hprimary, -⟩ | ⟨-, hconflict⟩⟩
    · exact .inl hprimary
    · exact .inr hconflict
  · obtain ⟨p, hp, c, hc, hne, hprimary, hconflict⟩ := (hasConflict_iff []).1 h
    -- the opponent is the far side of the pair, or the near side if `x` is the far side itself
    rintro (hside | hside)
    · by_cases hself : c.2 = x.2
      · obtain rfl := eq_of_same_place hx hc hself
        exact ⟨p, hp, hne.symm, .inr ⟨hprimary, hconflict⟩⟩
      · exact ⟨c, hc, hself, .inl ⟨hside, hconflict⟩⟩
    · by_cases hself : p.2 = x.2
      · obtain rfl := eq_of_same_place hx hp hself
        exact ⟨c, hc, hne, .inl ⟨hprimary, hconflict⟩⟩
      · exact ⟨p, hp, hself, .inr ⟨hprimary, hside⟩⟩

/-- The annotations that are taken are those of the opposed occurrences. -/
theorem conflictingAnnotations_eq (m : Modifiers) (primary conflicting : AnnotationUse → Bool) :
    ∃ occurrences : List (AnnotationUse × Nat), occurrences.Sublist m.annotations.zipIdx ∧
      (∀ x ∈ m.annotations.zipIdx, x ∈ occurrences ↔ Opposed primary conflicting m.annotations x) ∧
      conflictingAnnotations m primary conflicting = occurrences.map Prod.fst := by
  cases hany : hasConflict primary conflicting [] m.annotations with
  | false =>
    refine ⟨[], List.nil_sublist _, fun x hx => ⟨nofun, fun h => ?_⟩, ?_⟩
    · rw [hasConflict_of_opposed hx h] at hany
      cases hany
    · rw [conflictingAnnotations, hany]
      rfl
  | true =>
    refine ⟨m.annotations.zipIdx.filter fun x => primary x.1 || conflicting x.1, List.filter_sublist,
      fun x hx => ?_, ?_⟩
    · rw [opposed_iff hany hx, List.mem_filter]
      exact and_iff_right hx
    · have hfst := List.zipIdx_map_fst 0 m.annotations
      rw [conflictingAnnotations, hany, if_pos rfl]
      conv_lhs => rw [← hfst, List.filter_map]
      rfl

/-! ### Names of the participants -/

/-- The texts in `written`, each once, in the order in which they first occur there. -/
structure FirstOccurrences (written names : List String) : Prop where
  mem_iff : ∀ name, name ∈ names ↔ name ∈ written
  nodup : names.Nodup
  ordered : names.Pairwise fun a b => written.idxOf a < written.idxOf b

theorem idxOf_distinctFrom (seen written : List String) :
    (distinctFrom seen written).Pairwise fun a b => written.idxOf a < written.idxOf b := by
  induction written generalizing seen with
  | nil => exact .nil
  | cons name written ih =>
    -- a name that is new behind `name` occurs one place later than it does without it
    have hlater : ∀ seen', name ∈ seen' → (distinctFrom seen' written).Pairwise fun a b =>
        (name :: written).idxOf a < (name :: written).idxOf b := fun seen' hseen => by
      refine (ih seen').imp_of_mem fun {a b} ha hb hlt => ?_
      have hne : ∀ c ∈ distinctFrom seen' written, name ≠ c := fun c hc heq =>
        (mem_distinctFrom.1 hc).2 (heq ▸ hseen)
      rw [List.idxOf_cons_ne _ (hne a ha), List.idxOf_cons_ne _ (hne b hb)]
      exact Nat.succ_lt_succ hlt
    rw [distinctFrom]
    split
    case isTrue hseen => exact hlater seen (by simpa using hseen)
    case isFalse hnew =>
      refine List.pairwise_cons.2 ⟨fun b hb => ?_, hlater _ List.mem_cons_self⟩
      have hne : name ≠ b := fun heq => (mem_distinctFrom.1 hb).2 (by simp [heq])
      rw [List.idxOf_cons_self, List.idxOf_cons_ne _ hne]
      exact Nat.succ_pos _

theorem distinctNames_firstOccurrences (participants : List AnnotationUse) :
    FirstOccurrences (participants.map (·.simpleName)) (distinctNames participants) := by
  have hordered := idxOf_distinctFrom [] (participants.map (·.simpleName))
  exact {
    mem_iff := fun name => by simp [distinctNames, mem_distinctFrom]
    nodup := List.Pairwise.imp (fun {a b} hlt heq => by rw [heq] at hlt; exact Nat.lt_irrefl _ hlt)
      hordered
    ordered := hordered }

/-- The diagnostic of one participant. -/
structure Flags (source code message : String) (participants : List AnnotationUse)
    (a : AnnotationUse) (d : Diagnostic) : Prop where
  place : d.span = a.nameSpan
  severity : d.severity = .error
  origin : d.source = source ∧ d.code = code ∧ d.message = message
  names : FirstOccurrences (participants.map (·.simpleName)) d.names

theorem exclusionDiagnostics_flag (participants : List AnnotationUse) (source code message : String) :
    List.Forall₂ (Flags source code message participants) participants
      (exclusionDiagnostics participants source code message) := by
  rw [exclusionDiagnostics, List.forall₂_map_right_iff, List.forall₂_same]
  intro a _
  refine ⟨rfl, rfl, ⟨rfl, rfl, rfl⟩, ?_⟩
  rw [Diagnostic.names_withNames]
  exact distinctNames_firstOccurrences participants

/-- Each occurrence of an annotation that stands in a conflict is flagged once, in source order, with
the names of all that do, and no other occurrence is. -/
theorem exclusionDiagnostics_flag_opposed (m : Modifiers)
    (primary conflicting : AnnotationUse → Bool) (source code message : String) :
    ∃ occurrences : List (AnnotationUse × Nat), occurrences.Sublist m.annotations.zipIdx ∧
      (∀ x ∈ m.annotations.zipIdx, x ∈ occurrences ↔
        ∃ y ∈ m.annotations.zipIdx, y.2 ≠ x.2 ∧
          ((primary x.1 ∧ conflicting y.1) ∨ (primary y.1 ∧ conflicting x.1))) ∧
      conflictingAnnotations m primary conflicting = occurrences.map Prod.fst ∧
      List.Forall₂ (fun x => Flags source code message (occurrences.map Prod.fst) x.1) occurrences
        (exclusionDiagnostics (conflictingAnnotations m primary conflicting) source code message) := by
  obtain ⟨occurrences, hsub, hopposed, heq⟩ := conflictingAnnotations_eq m primary conflicting
  refine ⟨occurrences, hsub, hopposed, heq, ?_⟩
  have hflags := exclusionDiagnostics_flag (occurrences.map Prod.fst) source code message
  rw [heq]
  rwa [List.forall₂_map_left_iff] at hflags

end JakartaCheck.Check
