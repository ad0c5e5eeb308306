import JakartaCheck.Fixes.Registry
import JakartaCheck.Proofs.EditNormalForm

/-!
# Registering fixes and asking them

A registry is the outcome of a history of attempts to add entries, some of which fail. No code ever
gets a second owner, so a look-up may as well go through a table from codes to positions that grows
along with the entries (`Indexed`): the table stays `Indexed.Consistent`, which says at once that it
points at owners only, at every owner, and that there is one at most. `Indexed.register` then fails
and succeeds just as `Registry.register` does (`Indexed.register_eq`), and the two look-ups agree
(`Indexed.Consistent.entryFor?_eq`).

Whatever a fix answers, the registry hands out the part of it that fits the text
(`FixRegistry.normalize?_eq_some_iff`).
-/

namespace JakartaCheck

namespace Registry

variable {α : Type} [Coded α]

/-- The registry after an attempt to add an entry. -/
def attempt (r : Registry α) (entry : α) : Registry α :=
  match r.register entry with
  | .ok r' => r'
  | .error _ => r

/-- The registry after a history of attempts. -/
def ofHistory (history : List α) : Registry α := history.foldl attempt empty

theorem entryFor?_eq_none_iff {r : Registry α} {code : String} :
    r.entryFor? code = none ↔ ∀ entry ∈ r.entries, code ∉ Coded.codes entry := by
  simp [entryFor?]

theorem mem_of_entryFor? {r : Registry α} {code : String} {entry : α}
    (h : r.entryFor? code = some entry) : entry ∈ r.entries ∧ code ∈ Coded.codes entry :=
  ⟨List.mem_of_find?_eq_some h, by simpa using List.find?_some h⟩

end Registry

/-- Entries beside a table from each code to the position of its owner. -/
structure Indexed (α : Type) where
  entries : List α
  positions : List (String × Nat)

namespace Indexed

variable {α : Type} [Coded α]

def empty : Indexed α := ⟨[], []⟩

/-- Enters codes into a table, one after the other; what is entered last is found first. -/
def enter (position : Nat) (positions : List (String × Nat)) (codes : List String) :
    List (String × Nat) :=
  codes.foldl (fun table code => (code, position) :: table) positions

/-- The entry at the position that the table gives for a code. -/
def entryFor? (s : Indexed α) (code : String) : Option α :=
  (s.positions.lookup code).bind (s.entries[·]?)

/-- Adds an entry at the end and its codes to the table, or says why not. -/
def register (s : Indexed α) (entry : α) : Option RegisterError × Indexed α :=
  if (s.entries.map Coded.id).contains (Coded.id entry) then
    (some (.duplicateId (Coded.id entry)), s)
  else
    match (Coded.codes entry).find? fun code => (s.positions.lookup code).isSome with
    | some code =>
      (some (.duplicateCode code (((s.entryFor? code).map Coded.id).getD "")), s)
    | none =>
      (none, ⟨s.entries ++ [entry], enter s.entries.length s.positions (Coded.codes entry)⟩)

def ofHistory (history : List α) : Indexed α :=
  history.foldl (fun s entry => (s.register entry).2) empty

/-- The registry without the table. -/
def registry (s : Indexed α) : Registry α := ⟨s.entries⟩

/-- The table gives a position exactly to those codes that the entry there lists. -/
def Consistent (s : Indexed α) : Prop :=
  ∀ code i, s.positions.lookup code = some i ↔ ∃ entry, s.entries[i]? = some entry ∧
    code ∈ Coded.codes entry

/-- After codes are entered with one value, each of them is found with it. -/
theorem lookup_foldl_cons {β : Type} (value : β) (table : List (String × β)) (codes : List String)
    (code : String) : (codes.foldl (fun table code => (code, value) :: table) table).lookup code =
      if code ∈ codes then some value else table.lookup code := by
  induction codes generalizing table with
  | nil => simp
  | cons c codes ih =>
    rw [List.foldl_cons, ih]
    by_cases hmem : code ∈ codes
    · simp [hmem]
    · by_cases heq : code = c
      · subst heq; simp
      · have hne : (code == c) = false := beq_eq_false_iff_ne.2 heq
        simp [hmem, heq, List.lookup_cons, hne]

theorem lookup_enter (position : Nat) (positions : List (String × Nat)) (codes : List String)
    (code : String) : (enter position positions codes).lookup code =
      if code ∈ codes then some position else positions.lookup code :=
  lookup_foldl_cons position positions codes code

namespace Consistent

variable {s : Indexed α}

theorem unique (h : s.Consistent) {code : String} {i j : Nat} {entry entry' : α}
    (hi : s.entries[i]? = some entry) (hcode : code ∈ Coded.codes entry)
    (hj : s.entries[j]? = some entry') (hcode' : code ∈ Coded.codes entry') : i = j :=
  Option.some.inj (((h code i).2 ⟨entry, hi, hcode⟩).symm.trans ((h code j).2 ⟨entry', hj, hcode'⟩))

theorem entryFor?_eq (h : s.Consistent) (code : String) :
    s.registry.entryFor? code = s.entryFor? code := by
  cases hlook : s.positions.lookup code with
  | none =>
    rw [entryFor?, hlook, Option.bind_none, Registry.entryFor?_eq_none_iff]
    intro entry hentry hcode
    obtain ⟨i, hi⟩ := List.mem_iff_getElem?.1 hentry
    rw [(h code i).2 ⟨entry, hi, hcode⟩] at hlook
    cases hlook
  | some i =>
    obtain ⟨entry, hi, hcode⟩ := (h code i).1 hlook
    rw [entryFor?, hlook, Option.bind_some, hi]
    cases hfind : s.registry.entryFor? code with
    | none =>
      exact absurd hcode (Registry.entryFor?_eq_none_iff.1 hfind entry (List.mem_of_getElem? hi))
    | some entry' =>
      obtain ⟨hentry', hcode'⟩ := Registry.mem_of_entryFor? hfind
      obtain ⟨j, hj⟩ := List.mem_iff_getElem?.1 hentry'
      -- both list the code, so they stand at one position
      obtain rfl := h.unique hi hcode hj hcode'
      rw [← hj, ← hi]
      rfl

theorem empty : (Indexed.empty : Indexed α).Consistent := by
  intro code i
  simp [Indexed.empty]

/-- Adding an entry none of whose codes is in the table keeps it consistent. -/
theorem enter (h : s.Consistent) {entry : α}
    (hfree : ∀ code ∈ Coded.codes entry, s.positions.lookup code = none) :
    Consistent ⟨s.entries ++ [entry],
      Indexed.enter s.entries.length s.positions (Coded.codes entry)⟩ := by
  intro code i
  rw [lookup_enter]
  constructor
  · intro hlook
    split at hlook
    · rename_i hmem
      obtain rfl := Option.some.inj hlook
      exact ⟨entry, by simp, hmem⟩
    · obtain ⟨old, hold, hcode⟩ := (h code i).1 hlook
      exact ⟨old, List.getElem?_append_left (List.getElem?_eq_some_iff.1 hold).1 ▸ hold, hcode⟩
  · rintro ⟨found, hfound, hcode⟩
    rw [List.getElem?_append] at hfound
    split at hfound
    · have hlook := (h code i).2 ⟨found, hfound, hcode⟩
      have hmem : code ∉ Coded.codes entry := fun hmem => by
        rw [hfree code hmem] at hlook
        cases hlook
      rw [if_neg hmem, hlook]
    · obtain ⟨hpos, rfl⟩ : i - s.entries.length = 0 ∧ entry = found := by
        simpa [List.getElem?_singleton] using hfound
      rw [if_pos hcode, show i = s.entries.length by omega]

end Consistent

/-- The first code with an owner is the first one in the table. -/
theorem Consistent.firstOwned?_eq {s : Indexed α} (h : s.Consistent) (codes : List String) :
    s.registry.firstOwned? codes = (codes.find? fun code => (s.positions.lookup code).isSome).map
      fun code => (code, ((s.entryFor? code).map Coded.id).getD "") := by
  induction codes with
  | nil => rfl
  | cons code codes ih =>
    rw [Registry.firstOwned?, Registry.ownerOf?, h.entryFor?_eq, List.find?_cons]
    cases hlook : s.positions.lookup code with
    | none => simpa [entryFor?, hlook] using ih
    | some i =>
      obtain ⟨entry, hi, -⟩ := (h code i).1 hlook
      simp [entryFor?, hlook, hi]

/-- With and without the table the same entries are taken, and the same errors come up. -/
theorem Consistent.register_eq {s : Indexed α} (h : s.Consistent) (entry : α) :
    s.registry.register entry =
      match s.register entry with
      | (some reason, _) => .error reason
      | (none, s') => .ok s'.registry := by
  have hids : s.registry.ids = s.entries.map Coded.id := rfl
  rw [Registry.register, register, hids, h.firstOwned?_eq]
  split
  · rfl
  · cases (Coded.codes entry).find? fun code => (s.positions.lookup code).isSome <;> rfl

/-- An attempt keeps the table consistent, and one that fails changes nothing. -/
theorem Consistent.register {s : Indexed α} (h : s.Consistent) (entry : α) :
    (s.register entry).2.Consistent ∧ ((s.register entry).1 ≠ none → (s.register entry).2 = s) := by
  rw [Indexed.register]
  split
  · exact ⟨h, fun _ => rfl⟩
  · split
    · exact ⟨h, fun _ => rfl⟩
    · rename_i hfind
      refine ⟨h.enter fun code hcode => ?_, fun hne => absurd rfl hne⟩
      exact Option.not_isSome_iff_eq_none.1 (List.find?_eq_none.1 hfind code hcode)

theorem Consistent.attempt_eq {s : Indexed α} (h : s.Consistent) (entry : α) :
    s.registry.attempt entry = (s.register entry).2.registry := by
  have hfail := (h.register entry).2
  rw [Registry.attempt, h.register_eq]
  cases hreg : s.register entry with
  | mk reason s' =>
    cases reason with
    | none => rfl
    | some reason =>
      rw [hreg] at hfail
      rw [show s' = s from hfail (by simp)]

/-- After any history the table is consistent and the entries are those of the registry. -/
theorem ofHistory_consistent (history : List α) :
    (ofHistory history).Consistent ∧ (ofHistory history).registry = .ofHistory history := by
  suffices hall : ∀ (s : Indexed α) (r : Registry α), s.Consistent → s.registry = r →
      (history.foldl (fun s entry => (s.register entry).2) s).Consistent ∧
        (history.foldl (fun s entry => (s.register entry).2) s).registry =
          history.foldl Registry.attempt r from hall _ _ .empty rfl
  induction history with
  | nil => exact fun s r hs hr => ⟨hs, hr⟩
  | cons entry history ih =>
    intro s r hs hr
    subst hr
    exact ih _ _ (hs.register entry).1 (hs.attempt_eq entry).symm

end Indexed

/-! ### What is handed out -/

namespace FixRegistry

/-- `q` is `p` with edits that fit the text in normal form and do what the edits of `p` do. -/
structure Fitted (text : String) (p q : Proposal) : Prop where
  label : q.label = p.label
  nonempty : q.edits ≠ []
  fits : ∀ edit ∈ q.edits, edit.range.Fits text
  separated : q.edits.Pairwise fun a b => a.le b ∧ a.range.stop < b.range.start
  same : ∃ out, Edit.applyAll text q.edits = .ok out ∧ Edit.applyAll text p.edits = .ok out

theorem normalize?_eq_some_iff {text : String} {p q : Proposal} :
    normalize? text p = some q ↔
      p.edits ≠ [] ∧ q.label = p.label ∧ Edit.normalize text p.edits = .ok q.edits := by
  unfold normalize?
  by_cases hempty : p.edits = []
  · simp [hempty]
  · cases hn : Edit.normalize text p.edits with
    | error e => simp [hempty]
    | ok edits =>
      obtain ⟨label, edits'⟩ := q
      simp only [List.isEmpty_iff, hempty, ↓reduceIte, Option.some.injEq, Proposal.mk.injEq,
        Except.ok.injEq, ne_eq, not_false_eq_true, true_and]
      exact and_congr_left' eq_comm

theorem isSome_normalize?_iff {text : String} {p : Proposal} :
    (normalize? text p).isSome ↔ p.edits ≠ [] ∧ Edit.Applicable text p.edits := by
  rw [Option.isSome_iff_exists]
  constructor
  · rintro ⟨q, hq⟩
    obtain ⟨hne, -, hn⟩ := normalize?_eq_some_iff.1 hq
    exact ⟨hne, (Edit.normalize_eq_ok_iff.1 hn).1⟩
  · rintro ⟨hne, happ⟩
    exact ⟨⟨p.label, Edit.joinTouching (p.edits.mergeSort Edit.le)⟩, normalize?_eq_some_iff.2
      ⟨hne, rfl, Edit.normalize_eq_ok_iff.2 ⟨happ, rfl⟩⟩⟩

/-- Joining edits leaves at least one of them. -/
theorem joinTouching_ne_nil {edits : List Edit} (h : edits ≠ []) : Edit.joinTouching edits ≠ [] := by
  fun_induction Edit.joinTouching edits with
  | case1 => exact h
  | case2 => simp
  | case3 a b edits _ ih => exact ih (by simp)
  | case4 => simp

theorem fitted_of_normalize? {text : String} {p q : Proposal} (h : normalize? text p = some q) :
    Fitted text p q := by
  obtain ⟨hne, hlabel, hn⟩ := normalize?_eq_some_iff.1 h
  obtain ⟨happ, hjoin⟩ := Edit.normalize_eq_ok_iff.1 hn
  have hfits := (Edit.laid_of_normalize hn).1.fits [] rfl rfl
  have hsep := Edit.separated_of_normalize hn
  have hself := Edit.normalize_of_separated hsep hfits
  refine ⟨hlabel, ?_, hfits, hsep.sorted.and hsep, ?_⟩
  · rw [← hjoin]
    refine joinTouching_ne_nil fun hnil => hne ?_
    simpa [hnil] using (List.mergeSort_perm p.edits Edit.le).symm
  · refine ⟨_, Edit.applyAll_eq_ok_iff.2 ⟨(Edit.normalize_eq_ok_iff.1 hself).1, rfl⟩, ?_⟩
    rw [← (Edit.laid_of_normalize hself).2, (Edit.laid_of_normalize hn).2]
    exact Edit.applyAll_eq_ok_iff.2 ⟨happ, rfl⟩

/-- A list in which everything that does not fit is dropped and the rest put in normal form. -/
theorem filterMap_normalize? (text : String) (proposals : List Proposal) :
    List.Forall₂ (Fitted text) (proposals.filter fun p => (normalize? text p).isSome)
      (proposals.filterMap (normalize? text)) := by
  induction proposals with
  | nil => exact .nil
  | cons p proposals ih =>
    cases hp : normalize? text p with
    | none => simpa [hp] using ih
    | some q => simpa [hp] using ⟨fitted_of_normalize? hp, ih⟩

/-- After any history of attempts, a code is looked up in the table of codes or among the entries
alike, and at most one fix lists it. This fix alone is asked: if it fails, in whatever way, there are
no proposals, and otherwise those that fit the text are handed out in order, in normal form. -/
theorem proposalsFor_hands_out_fitted (history : List Fix) (d : Diagnostic) (unit : CompilationUnit) :
    (∀ fix reason, (Registry.ofHistory history).register fix = .error reason →
      (Registry.ofHistory history).attempt fix = .ofHistory history ∧
      (Indexed.ofHistory history).register fix = (some reason, .ofHistory history)) ∧
    (∀ code, (Indexed.ofHistory history).entryFor? code =
      (Registry.ofHistory history).entryFor? code) ∧
    ((∀ fix ∈ (Registry.ofHistory history).entries, d.code ∉ fix.codes) →
      proposalsFor (.ofHistory history) d unit = []) ∧
    ∀ i fix, (Registry.ofHistory history).entries[i]? = some fix → d.code ∈ fix.codes →
      (∀ (j : Nat) (other : Fix), (Registry.ofHistory history).entries[j]? = some other →
        d.code ∈ other.codes → j = i) ∧
      (∀ failure, fix.propose d unit = .error failure →
        proposalsFor (.ofHistory history) d unit = []) ∧
      ∀ proposals, fix.propose d unit = .ok proposals → ∃ kept, kept.Sublist proposals ∧
        (∀ p ∈ proposals, p ∈ kept ↔ p.edits ≠ [] ∧ Edit.Applicable unit.text p.edits) ∧
        List.Forall₂ (Fitted unit.text) kept (proposalsFor (.ofHistory history) d unit) := by
  obtain ⟨hcons, hreg⟩ := Indexed.ofHistory_consistent history
  rw [← hreg]
  refine ⟨fun fix reason hfail => ?_, fun code => (hcons.entryFor?_eq code).symm, fun hnone => ?_, ?_⟩
  · refine ⟨by rw [Registry.attempt, hfail], ?_⟩
    have heq := hcons.register_eq fix
    have hsame := (hcons.register fix).2
    cases hout : (Indexed.ofHistory history).register fix with
    | mk out s' =>
      cases out with
      | none => simp [hout, hfail] at heq
      | some reason' =>
        rw [hout] at hsame
        simp only [hfail, hout, Except.error.injEq] at heq
        rw [heq, show s' = _ from hsame (by simp)]
  · rw [proposalsFor, Registry.entryFor?_eq_none_iff.2 hnone]
  · intro i fix hi hcode
    have hasked : (Indexed.ofHistory history).registry.entryFor? d.code = some fix := by
      rw [hcons.entryFor?_eq, Indexed.entryFor?, (hcons d.code i).2 ⟨fix, hi, hcode⟩]
      exact hi
    refine ⟨fun j other hj hother => hcons.unique hj hother hi hcode, fun failure hf => ?_,
      fun proposals hp => ?_⟩
    · simp [proposalsFor, hasked, hf]
    · refine ⟨proposals.filter fun p => (normalize? unit.text p).isSome, List.filter_sublist,
        fun p hmem => ?_, ?_⟩
      · rw [List.mem_filter, isSome_normalize?_iff]
        exact and_iff_right hmem
      · simpa [proposalsFor, hasked, hp] using filterMap_normalize? unit.text proposals

/-- A fix that lists its code twice, then one of the same id and one of the same code: only the first
is there to be asked, and of its proposals one has no edits and one reaches past the end. -/
theorem proposalsFor_hands_out_fitted_repeated :
    (proposalsFor
      (.ofHistory [⟨"a", ["A", "A"], fun _ _ => .ok [⟨"one", [.insert 1 "x", .delete ⟨1, 2, by decide⟩]⟩,
          ⟨"two", []⟩, ⟨"three", [.insert 9 "y"]⟩]⟩,
        ⟨"a", ["B"], fun _ _ => .ok []⟩, ⟨"b", ["C", "A"], fun _ _ => .ok []⟩])
      (.error "" "A" "" ⟨0, 1⟩) ⟨"", "abc", none, [], [], []⟩).map (·.label) = ["one"] := by
  have hasked := (proposalsFor_hands_out_fitted
    [⟨"a", ["A", "A"], fun _ _ => .ok [⟨"one", [.insert 1 "x", .delete ⟨1, 2, by decide⟩]⟩,
        ⟨"two", []⟩, ⟨"three", [.insert 9 "y"]⟩]⟩,
      ⟨"a", ["B"], fun _ _ => .ok []⟩, ⟨"b", ["C", "A"], fun _ _ => .ok []⟩]
    (.error "" "A" "" ⟨0, 1⟩) ⟨"", "abc", none, [], [], []⟩).2.2.2 0 _ rfl
    (by simp [Diagnostic.error])
  obtain ⟨kept, hsub, hmem, hall⟩ := hasked.2.2 _ rfl
  have hone : (⟨"one", [.insert 1 "x", .delete ⟨1, 2, by decide⟩]⟩ : Proposal) ∈ kept :=
    (hmem _ (by simp)).2 ⟨by simp, by decide, by decide⟩
  have htwo : (⟨"two", []⟩ : Proposal) ∉ kept := fun h => ((hmem _ (by simp)).1 h).1 rfl
  have hthree : (⟨"three", [.insert 9 "y"]⟩ : Proposal) ∉ kept := fun h =>
    absurd (((hmem _ (by simp)).1 h).2.fits (.insert 9 "y") (by simp)) (by decide)
  rcases List.sublist_cons_iff.1 hsub with hrest | ⟨rest, rfl, hrest⟩
  · exact absurd (hrest.subset hone) (by decide)
  · obtain rfl : rest = [] := by
      refine List.eq_nil_iff_forall_not_mem.2 fun p hp => ?_
      rcases List.mem_cons.1 (hrest.subset hp) with rfl | hp'
      · exact htwo (List.mem_cons_of_mem _ hp)
      · exact hthree (List.mem_cons_of_mem _ (List.mem_singleton.1 hp' ▸ hp))
    generalize proposalsFor _ _ _ = handed at hall ⊢
    cases hall with
    | cons hfit hnil => cases hnil; simp [hfit.label]

end FixRegistry

end JakartaCheck
