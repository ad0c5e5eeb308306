import JakartaCheck.Proofs.RuleFindings
import JakartaCheck.Proofs.RuleInterleaving

/-!
# Analyses without some rules

The codes of the built-in rules differ, and what a rule reports has one of its own codes. So leaving
out rules takes out of an analysis the diagnostics whose codes they own, and nothing else.
-/

namespace JakartaCheck.RuleRegistry

variable {unit : CompilationUnit} {maxPerRule : Nat}

theorem ownerOf?_builtin : ∀ rule ∈ builtinRules, ∀ code ∈ rule.codes,
    builtin.ownerOf? code = some rule.id := by
  have owned : builtinRules.all (fun rule =>
      rule.codes.all fun code => builtin.ownerOf? code == some rule.id) = true := by
    decide +kernel
  intro rule hrule code hcode
  simpa using List.all_eq_true.1 (List.all_eq_true.1 owned rule hrule) code hcode

theorem owner_of_kept {rule : Rule} (hrule : rule ∈ builtinRules) {d : Diagnostic}
    (hd : d ∈ rule.kept maxPerRule unit) :
    d.code ∈ rule.codes ∧ builtin.ownerOf? d.code = some rule.id := by
  unfold Rule.kept at hd
  split at hd
  · split at hd
    · rename_i ds result
      obtain ⟨packages, -, founded⟩ := builtinRules_founded rule hrule
      have code := (founded.reports unit ds result d (List.mem_of_mem_take hd)).1
      exact ⟨code, ownerOf?_builtin rule hrule d.code code⟩
    · cases hd
  · cases hd

theorem not_calledOff {token : CancelToken} {cancelled : List CancelToken} {rules : List Rule}
    (live : token ∉ cancelled) (hrules : ∀ rule ∈ rules, rule ∈ builtinRules) :
    ¬ Engine.CalledOff unit token cancelled rules := by
  rintro (off | ⟨rule, hrule, -, off⟩)
  · exact live off
  · obtain ⟨packages, -, founded⟩ := builtinRules_founded rule (hrules rule hrule)
    rw [founded.calm] at off
    cases off

theorem flatMap_filter {α β : Type} {f : α → List β} {p : α → Bool} {q : β → Bool} {xs : List α}
    (same : ∀ x ∈ xs, ∀ y ∈ f x, q y = p x) : (xs.filter p).flatMap f = (xs.flatMap f).filter q := by
  induction xs with
  | nil => rfl
  | cons x xs ih =>
    obtain ⟨first, others⟩ := List.forall_mem_cons.1 same
    have kept : (f x).filter q = if p x then f x else [] := by
      split
      · rename_i hp
        exact List.filter_eq_self.2 fun y hy => (first y hy).trans hp
      · rename_i hp
        exact List.filter_eq_nil_iff.2 fun y hy => by rwa [first y hy]
    rw [List.flatMap_cons, List.filter_append, ← ih others, kept]
    cases hp : p x with
    | true => rw [List.filter_cons_of_pos hp, List.flatMap_cons, if_pos rfl]
    | false => rw [List.filter_cons_of_neg (by simp [hp]), if_neg (by simp), List.nil_append]

/-- Without the rules of some ids, an analysis gives the diagnostics of the full one whose owners are
not among these. Each diagnostic of the full one has a code of the rule that contributes it. -/
theorem analyze_without (unit : CompilationUnit) (disabled : List String) (maxPerRule : Nat)
    {token : CancelToken} {cancelled : List CancelToken} (live : token ∉ cancelled) :
    ∃ all, (Engine.analyze maxPerRule unit token cancelled builtin.entries).1 = .ok all ∧
      (Engine.analyze maxPerRule unit token cancelled (builtin.without disabled).entries).1 =
        .ok (all.filter fun d => (builtin.ownerOf? d.code).any (!disabled.contains ·)) ∧
      ∀ d ∈ all, ∃ rule ∈ builtin.entries, d ∈ (Engine.runRule maxPerRule rule unit).1 ∧
        d.code ∈ rule.codes ∧ builtin.ownerOf? d.code = some rule.id := by
  have full := (Engine.analyze_fst maxPerRule unit token cancelled builtin.entries).2
    (not_calledOff live fun _ hrule => hrule)
  have rest := (Engine.analyze_fst maxPerRule unit token cancelled
    (builtin.without disabled).entries).2
      (not_calledOff live fun _ hrule => (List.mem_filter.1 hrule).1)
  refine ⟨_, full, ?_, ?_⟩
  · rw [rest]
    refine congrArg _ (flatMap_filter fun rule hrule d hd => ?_)
    rw [(owner_of_kept hrule hd).2]
    rfl
  · intro d hd
    obtain ⟨rule, hrule, hd⟩ := List.mem_flatMap.1 hd
    refine ⟨rule, hrule, ?_, owner_of_kept hrule hd⟩
    rwa [Engine.runRule_fst]

/-- A class with a resource that says neither its name nor its type. -/
def bareResource : CompilationUnit where
  uri := "file:///A.java"
  text := "@jakarta.annotation.Resource class A {}"
  package := none
  imports := []
  types := [⟨.classType, "A", ⟨35, 36⟩, ⟨0, 39⟩, ⟨37, 39⟩, ⟨some ⟨0, 28⟩, [], [⟨
    "jakarta.annotation.Resource", "Resource", some "jakarta.annotation.Resource", ⟨0, 28⟩, ⟨1, 28⟩,
    [], none⟩]⟩, none, none, [], [], []⟩]
  calls := []

/-- The two findings are those of one rule. -/
theorem analyze_without_resources :
    (Engine.analyze 9 bareResource 1 [0] (builtin.without ["resource-attributes"]).entries).1 =
      .ok [] := by
  have live : (1 : CancelToken) ∉ [0] := by decide
  obtain ⟨all, full, rest, -⟩ := analyze_without bareResource ["resource-attributes"] 9 live
  have owners : (Engine.analyze 9 bareResource 1 [0] builtin.entries).1.toOption.map
      (fun ds => ds.map fun d => builtin.ownerOf? d.code) =
        some [some "resource-attributes", some "resource-attributes"] := by
    decide +kernel
  have gone : all.filter (fun d =>
      (builtin.ownerOf? d.code).any (! (["resource-attributes"] : List String).contains ·)) = [] := by
    rw [full] at owners
    have owners := Option.some.inj owners
    dsimp only at owners
    refine List.filter_eq_nil_iff.2 fun d hd => ?_
    have mem := List.mem_map_of_mem (f := fun d : Diagnostic => builtin.ownerOf? d.code) hd
    rw [owners] at mem
    have owner : builtin.ownerOf? d.code = some "resource-attributes" := by simpa using mem
    rw [owner]
    decide
  rw [rest, gone]

end JakartaCheck.RuleRegistry
