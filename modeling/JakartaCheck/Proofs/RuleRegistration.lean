import JakartaCheck.Proofs.FixRegistration
import JakartaCheck.Rules.Rule
import Mathlib.Data.List.Induction

/-!
# Registering rules and disabling them

Rules are added one by one, and disabling some of them means to add the others again to a new
registry, whatever comes of it. Beside the rules stands a table from codes to the ids of their owners
(`Owned`). Any two rules stay apart (`Owned.Apart`) and the table stays true to them
(`Owned.Consistent`), whatever the history. So rules that were taken once are taken again
(`Owned.Consistent.addAll`), and disabling loses no other rule.
-/

namespace JakartaCheck

/-- What is done to a registry. -/
inductive RegistryChange (α : Type) where
  | add (entry : α)
  | disable (ids : List String)

namespace RegistryChange

/-- The entry that a change tries to add. -/
def added? {α : Type} : RegistryChange α → Option α
  | add entry => some entry
  | disable _ => none

end RegistryChange

/-- The registry after a change, which may fail. -/
def Registry.change {α : Type} [Coded α] (r : Registry α) : RegistryChange α → Registry α
  | .add entry => r.attempt entry
  | .disable ids => r.without ids

/-- Entries beside a table from each code to the id of its owner. -/
structure Owned (α : Type) where
  entries : List α
  owners : List (String × String)

namespace Owned

variable {α : Type} [Coded α]

def empty : Owned α := ⟨[], []⟩

def ownerOf? (s : Owned α) (code : String) : Option String := s.owners.lookup code

/-- Adds an entry at the end and its codes to the table, or says why not. -/
def register (s : Owned α) (entry : α) : Option RegisterError × Owned α :=
  if (s.entries.map Coded.id).contains (Coded.id entry) then
    (some (.duplicateId (Coded.id entry)), s)
  else
    match (Coded.codes entry).find? fun code => (s.ownerOf? code).isSome with
    | some code => (some (.duplicateCode code ((s.ownerOf? code).getD "")), s)
    | none =>
      (none, ⟨s.entries ++ [entry],
        (Coded.codes entry).foldl (fun table code => (code, Coded.id entry) :: table) s.owners⟩)

/-- Adds entries one after the other; those that fail are passed over. -/
def addAll (s : Owned α) (entries : List α) : Owned α :=
  entries.foldl (fun s entry => (s.register entry).2) s

/-- Adds the entries whose ids are not listed to an empty registry. -/
def withDisabled (s : Owned α) (ids : List String) : Owned α :=
  if ids.isEmpty then s
  else empty.addAll (s.entries.filter fun entry => !ids.contains (Coded.id entry))

def change (s : Owned α) : RegistryChange α → Owned α
  | .add entry => (s.register entry).2
  | .disable ids => s.withDisabled ids

/-- The registry after a history of changes. -/
def after (history : List (RegistryChange α)) : Owned α := history.foldl change empty

/-- The registry without the table. -/
def registry (s : Owned α) : Registry α := ⟨s.entries⟩

/-! ### Entries that are apart -/

/-- The entries share neither the id nor a code. -/
def Apart (e f : α) : Prop := Coded.id e ≠ Coded.id f ∧ ∀ code ∈ Coded.codes e, code ∉ Coded.codes f

theorem Apart.symm {e f : α} (h : Apart e f) : Apart f e :=
  ⟨Ne.symm h.1, fun code hf he => h.2 code he hf⟩

/-- Any two entries are apart, and the table gives each code exactly the id of the entry with it. -/
structure Consistent (s : Owned α) : Prop where
  apart : s.entries.Pairwise Apart
  owners : ∀ code id, s.ownerOf? code = some id ↔
    ∃ entry ∈ s.entries, Coded.id entry = id ∧ code ∈ Coded.codes entry

namespace Consistent

variable {s : Owned α}

theorem empty : (Owned.empty : Owned α).Consistent where
  apart := .nil
  owners := by
    intro code id
    constructor
    · nofun
    · rintro ⟨entry, mem, -⟩
      cases mem

theorem isSome_ownerOf? (h : s.Consistent) {code : String} :
    (s.ownerOf? code).isSome ↔ ∃ entry ∈ s.entries, code ∈ Coded.codes entry := by
  rw [Option.isSome_iff_exists]
  constructor
  · rintro ⟨id, owner⟩
    obtain ⟨entry, mem, -, hcode⟩ := (h.owners code id).1 owner
    exact ⟨entry, mem, hcode⟩
  · rintro ⟨entry, mem, hcode⟩
    exact ⟨Coded.id entry, (h.owners code _).2 ⟨entry, mem, rfl, hcode⟩⟩

theorem register_eq_none_iff (h : s.Consistent) (entry : α) :
    (s.register entry).1 = none ↔ ∀ e ∈ s.entries, Apart e entry := by
  unfold register
  constructor
  · intro accepted e he
    split at accepted
    · cases accepted
    · rename_i fresh
      split at accepted
      · cases accepted
      · rename_i free
        refine ⟨fun eq => fresh ?_, fun code hcode hentry => ?_⟩
        · rw [← eq]
          simpa using ⟨e, he, rfl⟩
        · exact List.find?_eq_none.1 free code hentry (h.isSome_ownerOf?.2 ⟨e, he, hcode⟩)
  · intro apart
    rw [if_neg]
    · have free : (Coded.codes entry).find? (fun code => (s.ownerOf? code).isSome) = none := by
        refine List.find?_eq_none.2 fun code hcode owned => ?_
        obtain ⟨e, he, hcode'⟩ := h.isSome_ownerOf?.1 owned
        exact (apart e he).2 code hcode' hcode
      rw [free]
    · intro taken
      simp only [List.contains_eq_mem, List.mem_map, decide_eq_true_eq] at taken
      obtain ⟨e, he, eq⟩ := taken
      exact (apart e he).1 eq

theorem register_of_ne_none {entry : α} (refused : (s.register entry).1 ≠ none) :
    (s.register entry).2 = s := by
  unfold register at refused ⊢
  split
  · rfl
  · split
    · rfl
    · rename_i fresh _ free
      rw [if_neg fresh, free] at refused
      exact absurd rfl refused

theorem register_of_eq_none {entry : α} (accepted : (s.register entry).1 = none) :
    (s.register entry).2 = ⟨s.entries ++ [entry],
      (Coded.codes entry).foldl (fun table code => (code, Coded.id entry) :: table) s.owners⟩ := by
  unfold register at accepted ⊢
  split at accepted
  · cases accepted
  · rename_i fresh
    rw [if_neg fresh]
    split at accepted
    · cases accepted
    · rfl

theorem register (h : s.Consistent) (entry : α) : (s.register entry).2.Consistent := by
  by_cases accepted : (s.register entry).1 = none
  · have apart := (h.register_eq_none_iff entry).1 accepted
    rw [register_of_eq_none accepted]
    refine ⟨?_, fun code id => ?_⟩
    · refine List.pairwise_append.2 ⟨h.apart, List.pairwise_singleton _ _, fun e he f hf => ?_⟩
      rw [List.mem_singleton.1 hf]
      exact apart e he
    · unfold ownerOf?
      rw [Indexed.lookup_foldl_cons]
      simp only [List.mem_append, List.mem_singleton]
      -- the codes of the new entry stand first in the table, and no other entry has them
      split
      · rename_i hcode
        constructor
        · intro eq
          exact ⟨entry, .inr rfl, Option.some.inj eq, hcode⟩
        · rintro ⟨e, he | rfl, rfl, hcode'⟩
          · exact absurd hcode ((apart e he).2 code hcode')
          · rfl
      · rename_i hcode
        rw [← ownerOf?, h.owners]
        constructor
        · rintro ⟨e, he, found⟩
          exact ⟨e, .inl he, found⟩
        · rintro ⟨e, he | rfl, rfl, hcode'⟩
          · exact ⟨e, he, rfl, hcode'⟩
          · exact absurd hcode' hcode
  · rw [register_of_ne_none accepted]
    exact h

/-- Entries that are apart from each other and from those that are there are all taken. -/
theorem addAll (h : s.Consistent) (entries : List α) (apart : (s.entries ++ entries).Pairwise Apart) :
    (s.addAll entries).Consistent ∧ (s.addAll entries).entries = s.entries ++ entries ∧
      ∀ before entry rest, entries = before ++ entry :: rest →
        ((s.addAll before).register entry).1 = none := by
  induction entries generalizing s with
  | nil =>
    refine ⟨h, (List.append_nil _).symm, fun before entry rest eq => ?_⟩
    cases before <;> cases eq
  | cons e entries ih =>
    have accepted : (s.register e).1 = none := (h.register_eq_none_iff e).2 fun f hf =>
      (List.pairwise_append.1 apart).2.2 f hf e List.mem_cons_self
    have grown : (s.register e).2.entries = s.entries ++ [e] := by rw [register_of_eq_none accepted]
    obtain ⟨consistent, same, more⟩ := ih (h.register e) (by rw [grown]; simpa using apart)
    refine ⟨consistent, ?_, fun before entry rest eq => ?_⟩
    · show ((s.register e).2.addAll entries).entries = _
      rw [same, grown, List.append_assoc]
      rfl
    · cases before with
      | nil =>
        obtain ⟨rfl, -⟩ := List.cons.inj eq
        exact accepted
      | cons b before =>
        obtain ⟨rfl, others⟩ := List.cons.inj eq
        exact more before entry rest others

theorem addAll_filter (h : s.Consistent) (p : α → Bool) :
    (Owned.empty.addAll (s.entries.filter p)).Consistent ∧
      (Owned.empty.addAll (s.entries.filter p)).entries = s.entries.filter p ∧
      ∀ before entry rest, s.entries.filter p = before ++ entry :: rest →
        ((Owned.empty.addAll before).register entry).1 = none :=
  Consistent.empty.addAll _ (h.apart.sublist List.filter_sublist)

theorem withDisabled (h : s.Consistent) (ids : List String) :
    (s.withDisabled ids).Consistent ∧
      (s.withDisabled ids).entries = s.entries.filter fun entry => !ids.contains (Coded.id entry) := by
  unfold Owned.withDisabled
  split
  · rename_i none
    refine ⟨h, (List.filter_eq_self.2 fun entry _ => ?_).symm⟩
    rw [List.isEmpty_iff.1 none]
    rfl
  · obtain ⟨consistent, entries, -⟩ := h.addAll_filter fun entry => !ids.contains (Coded.id entry)
    exact ⟨consistent, entries⟩

/-! ### Histories -/

theorem change (h : s.Consistent) (change : RegistryChange α) : (s.change change).Consistent := by
  cases change with
  | add entry => exact h.register entry
  | disable ids => exact (h.withDisabled ids).1

end Consistent

/-- What holds at first and is kept by every change holds after every history. -/
theorem after_induction {P : Owned α → List (RegistryChange α) → Prop} (start : P empty [])
    (step : ∀ s history change, P s history → P (s.change change) (history ++ [change]))
    (history : List (RegistryChange α)) : P (after history) history := by
  induction history using List.reverseRecOn with
  | nil => exact start
  | append_singleton history change ih =>
    unfold after at ih ⊢
    rw [List.foldl_append]
    exact step _ history change ih

theorem after_consistent (history : List (RegistryChange α)) : (after history).Consistent :=
  after_induction (P := fun s _ => s.Consistent) .empty (fun _ _ change h => h.change change) history

/-- The entries stand in the order in which they were added. -/
theorem after_sublist (history : List (RegistryChange α)) :
    (after history).entries.Sublist (history.filterMap RegistryChange.added?) := by
  suffices both : (after history).Consistent ∧
      (after history).entries.Sublist (history.filterMap RegistryChange.added?) from both.2
  refine after_induction (P := fun s history => s.Consistent ∧
    s.entries.Sublist (history.filterMap RegistryChange.added?)) ⟨.empty, .slnil⟩ ?_ history
  rintro s history change ⟨consistent, sub⟩
  refine ⟨consistent.change change, ?_⟩
  rw [List.filterMap_append]
  cases change with
  | add entry =>
    by_cases accepted : (s.register entry).1 = none
    · show (s.register entry).2.entries.Sublist _
      rw [Consistent.register_of_eq_none accepted]
      exact sub.append (.refl _)
    · show (s.register entry).2.entries.Sublist _
      rw [Consistent.register_of_ne_none accepted]
      exact sub.trans (List.sublist_append_left _ _)
  | disable ids =>
    show (s.withDisabled ids).entries.Sublist _
    rw [(consistent.withDisabled ids).2]
    exact (List.filter_sublist.trans sub).trans (List.sublist_append_left _ _)

/-! ### With and without the table -/

theorem Consistent.ownerOf?_eq {s : Owned α} (h : s.Consistent) (code : String) :
    s.registry.ownerOf? code = s.ownerOf? code := by
  unfold Registry.ownerOf?
  cases found : s.registry.entryFor? code with
  | some entry =>
    obtain ⟨mem, hcode⟩ := Registry.mem_of_entryFor? found
    exact ((h.owners code _).2 ⟨entry, mem, rfl, hcode⟩).symm
  | none =>
    have free := Registry.entryFor?_eq_none_iff.1 found
    refine (Option.not_isSome_iff_eq_none.1 fun owned => ?_).symm
    obtain ⟨entry, mem, hcode⟩ := h.isSome_ownerOf?.1 owned
    exact free entry mem hcode

theorem Consistent.firstOwned?_eq {s : Owned α} (h : s.Consistent) (codes : List String) :
    s.registry.firstOwned? codes = (codes.find? fun code => (s.ownerOf? code).isSome).map
      fun code => (code, (s.ownerOf? code).getD "") := by
  induction codes with
  | nil => rfl
  | cons code codes ih =>
    rw [Registry.firstOwned?, h.ownerOf?_eq, List.find?_cons]
    cases owner : s.ownerOf? code with
    | none => exact ih
    | some id =>
      show some (code, id) = some (code, (s.ownerOf? code).getD "")
      rw [owner]
      rfl

/-- With and without the table the same entries are taken, and the same errors come up. -/
theorem Consistent.register_eq {s : Owned α} (h : s.Consistent) (entry : α) :
    s.registry.register entry =
      match s.register entry with
      | (some reason, _) => .error reason
      | (none, s') => .ok s'.registry := by
  have ids : s.registry.ids = s.entries.map Coded.id := rfl
  unfold Registry.register Owned.register
  rw [ids, h.firstOwned?_eq]
  split
  · rfl
  · cases (Coded.codes entry).find? fun code => (s.ownerOf? code).isSome <;> rfl

theorem Consistent.change_eq {s : Owned α} (h : s.Consistent) (change : RegistryChange α) :
    s.registry.change change = (s.change change).registry := by
  cases change with
  | add entry =>
    show s.registry.attempt entry = (s.register entry).2.registry
    unfold Registry.attempt
    rw [h.register_eq]
    cases result : s.register entry with
    | mk reason s' =>
      cases reason with
      | none => rfl
      | some reason =>
        have refused : (s.register entry).1 ≠ none := by simp [result]
        have same := register_of_ne_none refused
        rw [result] at same
        rw [same]
  | disable ids =>
    exact congrArg Registry.mk (h.withDisabled ids).2.symm

theorem after_registry (history : List (RegistryChange α)) :
    (after history).registry = history.foldl Registry.change Registry.empty := by
  suffices both : (after history).Consistent ∧
      (after history).registry = history.foldl Registry.change Registry.empty from both.2
  refine after_induction (P := fun s history => s.Consistent ∧
    s.registry = history.foldl Registry.change Registry.empty) ⟨.empty, rfl⟩ ?_ history
  rintro s history change ⟨consistent, same⟩
  rw [List.foldl_append, ← same]
  exact ⟨consistent.change change, (consistent.change_eq change).symm⟩

/-! ### What holds after every history -/

/-- A registry as it stands after some history. -/
structure Faithful (history : List (RegistryChange α)) (s : Owned α) : Prop where
  ids_distinct : (s.entries.map Coded.id).Nodup
  in_order : s.entries.Sublist (history.filterMap RegistryChange.added?)
  owner_iff : ∀ code id, s.ownerOf? code = some id ↔
    ∃ entry ∈ s.entries, Coded.id entry = id ∧ code ∈ Coded.codes entry
  codes_disjoint : s.entries.Pairwise fun e f => ∀ code ∈ Coded.codes e, code ∉ Coded.codes f
  refuses_iff : ∀ entry, (s.register entry).1 ≠ none ↔ Coded.id entry ∈ s.entries.map Coded.id ∨
    ∃ code ∈ Coded.codes entry, (s.ownerOf? code).isSome
  refused : ∀ entry, (s.register entry).1 ≠ none → (s.register entry).2 = s
  accepted : ∀ entry, (s.register entry).1 = none →
    (s.register entry).2.entries = s.entries ++ [entry]
  disabled : ∀ ids, (s.withDisabled ids).entries =
    s.entries.filter fun entry => !ids.contains (Coded.id entry)
  taken_again : ∀ (ids : List String) before entry rest,
    (s.entries.filter fun entry => !ids.contains (Coded.id entry)) = before ++ entry :: rest →
      ((empty.addAll before).register entry).1 = none
  same_entries : s.registry = history.foldl Registry.change Registry.empty
  same_owners : ∀ code, s.registry.ownerOf? code = s.ownerOf? code
  same_answers : ∀ entry, s.registry.register entry =
    match s.register entry with
    | (some reason, _) => .error reason
    | (none, s') => .ok s'.registry

/-- After any history of additions and disablings, the entries are apart and the table is true to
them; what fails changes nothing, and disabling loses no entry but those it names. -/
theorem after_faithful (history : List (RegistryChange α)) : Faithful history (after history) := by
  have h := after_consistent history
  refine ⟨?_, after_sublist history, h.owners, h.apart.imp fun apart => apart.2, fun entry => ?_,
    fun _ => Consistent.register_of_ne_none, fun entry accepted => ?_,
    fun ids => (h.withDisabled ids).2, fun ids => (h.addAll_filter _).2.2, after_registry history,
    h.ownerOf?_eq, h.register_eq⟩
  · exact List.pairwise_map.2 (h.apart.imp fun apart => apart.1)
  · rw [Ne, h.register_eq_none_iff]
    constructor
    · intro clash
      simp only [Classical.not_forall] at clash
      obtain ⟨e, he, clash⟩ := clash
      by_cases eq : Coded.id e = Coded.id entry
      · exact .inl (List.mem_map.2 ⟨e, he, eq⟩)
      · refine .inr ?_
        by_contra free
        refine clash ⟨eq, fun code hcode hentry => free ⟨code, hentry, ?_⟩⟩
        exact h.isSome_ownerOf?.2 ⟨e, he, hcode⟩
    · rintro (taken | ⟨code, hcode, owned⟩) apart
      · obtain ⟨e, he, eq⟩ := List.mem_map.1 taken
        exact (apart e he).1 eq
      · obtain ⟨e, he, hcode'⟩ := h.isSome_ownerOf?.1 owned
        exact (apart e he).2 code hcode' hcode
  · rw [Consistent.register_of_eq_none accepted]

end Owned

end JakartaCheck
