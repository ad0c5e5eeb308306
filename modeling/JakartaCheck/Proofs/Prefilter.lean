import JakartaCheck.Proofs.NameBinding
import JakartaCheck.Proofs.RuleFindings
import JakartaCheck.Proofs.TreeWalk

/-!
# What the quick test of a rule can miss

Before a built-in rule runs, the text is searched for the packages of its types. The rule itself goes
by what names denote, and a name need not stand in the text as it is read: there may be blanks in
it, or its beginning may come from an import or from the types around a declaration. So a finding only
shows that the source reaches the package (`CompilationUnit.Reaches`); nothing is missed where the
packages that are reached also stand in the text (`RuleRegistry.prefilter_misses_nothing`).
-/

namespace JakartaCheck

namespace CompilationUnit

/-! ### Packages that a source reaches -/

/-- The names of annotations, and what methods are called on. -/
def writtenNames (unit : CompilationUnit) : List String :=
  unit.annotationUses.map (·.name) ++ unit.calls.filterMap (·.receiver)

/-- A name of the package is written down, or an import or a declared type lends the beginning of such
a name to others. Static imports lend no names of types, and an import of everything in a package
lends none to names that go on in it. -/
inductive Reaches (unit : CompilationUnit) (package : String) : Prop where
  | imported (i : ImportDecl) (mem : i ∈ unit.imports) (types : i.isStatic = false)
      (starts : package.toList <+: i.path.toList)
  | written (name : String) (mem : name ∈ unit.writtenNames)
      (starts : package.toList <+: (TypeText.erase name).toList)
  | outer (i : ImportDecl) (mem : i ∈ unit.imports) (types : i.isStatic = false)
      (single : i.isWildcard = false) (below : Below i.path package)
  | declared (simple qualified : String) (here : unit.declaredAs? simple = some qualified)
      (starts : package.toList <+: qualified.toList ∨ Below qualified package)

variable {unit : CompilationUnit} {package fqn : String}

theorem Below.starts (h : Below package fqn) : package.toList <+: fqn.toList := by
  obtain ⟨rest, rfl⟩ := h
  rw [String.append_assoc, String.toList_append]
  exact List.prefix_append _ _

/-- Of two names that a longer one goes on from, the first starts the second or goes on from it. -/
theorem prefix_or_dotted {a b c d : List Char} (eq : a ++ '.' :: b = c ++ '.' :: d) :
    a <+: c ∨ ∃ m, a = c ++ '.' :: m ∧ d = m ++ '.' :: b := by
  rcases List.append_eq_append_iff.1 eq with ⟨m, rfl, -⟩ | ⟨m, rfl, rest⟩
  · exact .inl (List.prefix_append _ _)
  · cases m with
    | nil =>
      rw [List.append_nil]
      exact .inl (List.prefix_refl _)
    | cons x m =>
      obtain ⟨rfl, rfl⟩ := List.cons.inj rest
      exact .inr ⟨m, rfl, rfl⟩

theorem starts_or_below {bound tail : String} (h : Below package (bound ++ "." ++ tail)) :
    package.toList <+: bound.toList ∨ Below bound package := by
  obtain ⟨rest, eq⟩ := h
  have eq := congrArg String.toList eq
  rw [toList_dotted, toList_dotted] at eq
  refine (prefix_or_dotted eq.symm).imp_right fun ⟨m, goesOn, _⟩ => ⟨String.ofList m, ?_⟩
  refine String.toList_injective ?_
  rw [goesOn, toList_dotted, String.toList_ofList]

theorem Below.packageOf (h : Below package fqn) :
    package.toList <+: (TypeText.packageOf fqn).toList := by
  obtain ⟨rest, rfl⟩ := h
  unfold TypeText.packageOf Text.splitLast
  rw [toList_dotted]
  cases cut : Text.splitOnce '.' (package.toList ++ '.' :: rest.toList).reverse with
  | none => simp [Text.splitOnce_eq_none_iff] at cut
  | some parts =>
    obtain ⟨behind, before⟩ := parts
    obtain ⟨eq, last⟩ := Text.splitOnce_eq_some_iff.1 cut
    have eq := congrArg List.reverse eq
    rw [List.reverse_reverse, List.reverse_append, List.reverse_cons, List.append_assoc,
      List.singleton_append] at eq
    rcases prefix_or_dotted eq with starts | ⟨m, -, later⟩
    · simpa using starts
    · refine absurd ?_ last
      rw [← List.mem_reverse, later]
      simp

theorem not_javaLang {name : String} (jakarta : ∃ rest, package = "jakarta" ++ rest)
    (h : package.toList <+: ("java.lang." ++ name).toList ∨ Below ("java.lang." ++ name) package) :
    False := by
  have ours : "jakarta".toList = ['j', 'a', 'k', 'a', 'r', 't', 'a'] := by decide
  have theirs : "java.lang.".toList = ['j', 'a', 'v', 'a', '.', 'l', 'a', 'n', 'g', '.'] := by decide
  obtain ⟨rest, rfl⟩ := jakarta
  rcases h with ⟨tail, eq⟩ | ⟨tail, eq⟩
  · rw [String.toList_append, String.toList_append, ours, theirs] at eq
    simp at eq
  · have eq := congrArg String.toList eq
    rw [toList_dotted, String.toList_append, String.toList_append, ours, theirs] at eq
    simp at eq

theorem reaches_of_bindHead? {head bound : String} (jakarta : ∃ rest, package = "jakarta" ++ rest)
    (binds : unit.bindHead? head = some bound)
    (h : package.toList <+: bound.toList ∨ Below bound package) : unit.Reaches package := by
  unfold bindHead? at binds
  cases imported : unit.importedAs? head with
  | some path =>
    rw [imported] at binds
    obtain rfl : path = bound := Option.some.inj binds
    obtain ⟨i, found, rfl⟩ := Option.map_eq_some_iff.1 imported
    have mem := List.mem_of_find?_eq_some found
    simp only [List.mem_filter, List.mem_reverse, Bool.and_eq_true, Bool.not_eq_true'] at mem
    obtain ⟨mem, types, single⟩ := mem
    rcases h with starts | below
    · exact .imported i mem types starts
    · exact .outer i mem types single below
  | none =>
    rw [imported] at binds
    cases here : unit.declaredAs? head with
    | some qualified =>
      rw [here] at binds
      obtain rfl : qualified = bound := Option.some.inj binds
      exact .declared head qualified here h
    | none =>
      rw [here] at binds
      replace binds : TypeText.javaLangQualified? head = some bound := binds
      unfold TypeText.javaLangQualified? at binds
      split at binds
      · obtain rfl := Option.some.inj binds
        exact absurd h (not_javaLang jakarta)
      · cases binds

theorem reaches_of_denotes {simple name : String} (jakarta : ∃ rest, package = "jakarta" ++ rest)
    (below : Below package fqn) (mem : name ∈ unit.writtenNames)
    (denotes : unit.denotes simple (unit.resolve? name) fqn) : unit.Reaches package := by
  have literal : TypeText.erase name = fqn → unit.Reaches package := by
    rintro rfl
    exact .written name mem below.starts
  cases resolved : unit.resolve? name with
  | none =>
    rw [resolved] at denotes
    simp only [CompilationUnit.denotes, Bool.and_eq_true, wildcardCovers, List.any_eq_true,
      beq_iff_eq, Bool.not_eq_true'] at denotes
    obtain ⟨-, i, hi, ⟨-, types⟩, path⟩ := denotes
    refine .imported i hi types ?_
    rw [path]
    exact below.packageOf
  | some qualified =>
    rw [resolved] at denotes
    obtain rfl : qualified = fqn := by simpa [CompilationUnit.denotes] using denotes
    unfold resolve? at resolved
    simp only at resolved
    split at resolved
    · cases resolved
    split at resolved
    · exact literal (Option.some.inj resolved)
    split at resolved
    · exact reaches_of_bindHead? jakarta resolved (.inl below.starts)
    · split at resolved
      · rename_i head tail _ _ bound binds
        obtain rfl := Option.some.inj resolved
        exact reaches_of_bindHead? jakarta binds (starts_or_below below)
      · split at resolved
        · exact literal (Option.some.inj resolved)
        · cases resolved

theorem mentions_of_starts {name : String} (stands : unit.mentions name)
    (starts : package.toList <+: name.toList) : unit.mentions package :=
  Text.occursIn_iff.2 (starts.isInfix.trans (Text.occursIn_iff.1 stands))

/-! ### Units read from a tree -/

theorem modifiers_of_member_bind {t : TypeDecl} {member : Member}
    (h : member ∈ (unit.bindTypeDecl t).members) :
    ∃ m, member.modifiers = unit.bindModifiers m := by
  rcases List.mem_append.1 h with h | h
  · obtain ⟨f, hf, rfl⟩ := List.mem_map.1 h
    obtain ⟨f, -, rfl⟩ := List.mem_map.1 hf
    exact ⟨f.modifiers, rfl⟩
  · obtain ⟨m, hm, rfl⟩ := List.mem_map.1 h
    obtain ⟨m, -, rfl⟩ := List.mem_map.1 hm
    exact ⟨m.modifiers, rfl⟩

theorem qualifiedName_bind {a : AnnotationUse} (h : a ∈ unit.bind.annotationUses) :
    a.qualifiedName = unit.bind.resolve? a.name := by
  have bound : ∃ m, a ∈ (unit.bindModifiers m).annotations := by
    obtain ⟨t, ht, ha⟩ := List.mem_flatMap.1 h
    obtain ⟨t, -, rfl⟩ := List.mem_map.1 ht
    rcases List.mem_append.1 ha with ha | ha
    · exact ⟨t.modifiers, ha⟩
    · obtain ⟨member, hm, ha⟩ := List.mem_flatMap.1 ha
      obtain ⟨m, eq⟩ := modifiers_of_member_bind hm
      exact ⟨m, eq ▸ ha⟩
  obtain ⟨m, ha⟩ := bound
  obtain ⟨b, -, rfl⟩ := List.mem_map.1 ha
  exact (resolve?_bind unit b.name).symm

/-- What denotes a type in a source reaches its package. -/
theorem reaches_of_usesTypeOf {parser : Java.Parser} {uri text : String} {packages : List String}
    (lowered : lower? parser uri text = some unit)
    (jakarta : ∀ package ∈ packages, ∃ rest, package = "jakarta" ++ rest)
    (uses : unit.UsesTypeOf packages) : ∃ package ∈ packages, unit.Reaches package := by
  obtain ⟨tree, -, rfl⟩ := lower?_eq_some_iff.1 lowered
  obtain ⟨fqn, ⟨package, mem, below⟩, ⟨a, ha, denotes⟩ | ⟨call, hcall, receiver, hr, denotes⟩⟩ := uses
  · have name : a.qualifiedName = (ofTree uri text tree.root).resolve? a.name := qualifiedName_bind ha
    unfold annotationIs at denotes
    rw [name] at denotes
    exact ⟨package, mem, reaches_of_denotes (jakarta package mem) below
      (List.mem_append_left _ (List.mem_map_of_mem ha)) denotes⟩
  · exact ⟨package, mem, reaches_of_denotes (jakarta package mem) below
      (List.mem_append_right _ (List.mem_filterMap.2 ⟨call, hcall, hr⟩)) denotes⟩

end CompilationUnit

/-- The rule without its quick test. -/
def Rule.unfiltered (rule : Rule) : Rule := { rule with isApplicable := fun _ => true }

namespace Engine

/-- A rule that finds nothing where it does not apply can do without its quick test. -/
theorem runRule_unfiltered {maxPerRule : Nat} {rule : Rule} {unit : CompilationUnit}
    (calm : (rule.collect unit).cancels = [])
    (h : ∀ ds, (rule.collect unit).result = .ok ds → ds ≠ [] → rule.isApplicable unit = true) :
    runRule maxPerRule rule.unfiltered unit = runRule maxPerRule rule unit := by
  unfold runRule Rule.unfiltered
  rw [if_pos rfl]
  cases applies : rule.isApplicable unit with
  | true => rfl
  | false =>
    dsimp only
    rw [if_neg (by simp), calm]
    cases result : (rule.collect unit).result with
    | error failure => rfl
    | ok ds =>
      have nothing : ds = [] := by
        by_contra some
        rw [h ds result some] at applies
        cases applies
      rw [nothing]
      dsimp only
      rw [List.take_nil]

theorem analyze_map {maxPerRule : Nat} {unit : CompilationUnit} {token : CancelToken} {f : Rule → Rule}
    {rules : List Rule} (same : ∀ rule ∈ rules,
      runRule maxPerRule (f rule) unit = runRule maxPerRule rule unit) (cancelled : List CancelToken) :
    analyze maxPerRule unit token cancelled (rules.map f) =
      analyze maxPerRule unit token cancelled rules := by
  induction rules generalizing cancelled with
  | nil => rfl
  | cons rule rules ih =>
    obtain ⟨first, others⟩ := List.forall_mem_cons.1 same
    rw [List.map_cons, analyze, analyze, first]
    simp only [ih others]

end Engine

namespace RuleRegistry

open CompilationUnit

theorem jakarta_of_lookedFor : ∀ package ∈ lookedFor, ∃ rest, package = "jakarta" ++ rest := by
  intro package h
  simp only [lookedFor, Injection.packages, RestResources.packages, Constraints.packages,
    JsonDocuments.bindingPackages, JsonDocuments.processingPackages, Entities.packages,
    Servlets.packages, Endpoints.packages, Lifecycle.packages, List.cons_append, List.nil_append,
    List.mem_cons, List.not_mem_nil, or_false] at h
  rcases h with rfl | rfl | rfl | rfl | rfl | rfl | rfl | rfl | rfl | rfl
  · exact ⟨".enterprise", rfl⟩
  · exact ⟨".inject", rfl⟩
  · exact ⟨".ws.rs", rfl⟩
  · exact ⟨".validation", rfl⟩
  · exact ⟨".json.bind", rfl⟩
  · exact ⟨".json", rfl⟩
  · exact ⟨".persistence", rfl⟩
  · exact ⟨".servlet", rfl⟩
  · exact ⟨".websocket", rfl⟩
  · exact ⟨".annotation", rfl⟩

theorem head?_of_starts {package : String} {cs : List Char}
    (jakarta : ∃ rest, package = "jakarta" ++ rest) (starts : package.toList <+: cs) :
    cs.head? = some 'j' := by
  have ours : "jakarta".toList = ['j', 'a', 'k', 'a', 'r', 't', 'a'] := by decide
  obtain ⟨rest, rfl⟩ := jakarta
  obtain ⟨tail, rfl⟩ := starts
  rw [String.toList_append, ours]
  rfl

/-- If the packages that a source reaches stand in its text, a built-in rule that finds something
applies, and an analysis gives the same with and without the quick tests. This is so for whatever tree
the unit is read from. -/
theorem prefilter_misses_nothing {parser : Java.Parser} {uri text : String} {unit : CompilationUnit}
    (lowered : lower? parser uri text = some unit)
    (spelled : ∀ package ∈ lookedFor, unit.Reaches package → unit.mentions package) :
    (∀ rule ∈ builtinRules, ∀ ds, (rule.collect unit).result = .ok ds → ds ≠ [] →
      rule.isApplicable unit = true) ∧
    ∀ maxPerRule token cancelled,
      Engine.analyze maxPerRule unit token cancelled (builtinRules.map Rule.unfiltered) =
        Engine.analyze maxPerRule unit token cancelled builtinRules := by
  have applies : ∀ rule ∈ builtinRules, ∀ ds, (rule.collect unit).result = .ok ds → ds ≠ [] →
      rule.isApplicable unit = true := by
    intro rule hrule ds result some
    obtain ⟨packages, known, founded⟩ := builtinRules_founded rule hrule
    obtain ⟨d, hd⟩ := List.exists_mem_of_ne_nil ds some
    obtain ⟨-, uses⟩ := founded.reports unit ds result d hd
    obtain ⟨package, mem, reaches⟩ := reaches_of_usesTypeOf lowered
      (fun package mem => jakarta_of_lookedFor package (known mem)) uses
    rw [founded.applies]
    exact List.any_eq_true.2 ⟨package, mem, spelled package (known mem) reaches⟩
  refine ⟨applies, fun maxPerRule token cancelled => Engine.analyze_map (fun rule hrule => ?_) _⟩
  obtain ⟨packages, -, founded⟩ := builtinRules_founded rule hrule
  exact Engine.runRule_unfiltered (founded.calm unit) (applies rule hrule)

/-- An import that is written in one piece. -/
theorem prefilter_misses_nothing_plain_import :
    ∃ unit, ofText? "file:///A.java" "import jakarta.annotation.Resource;\n@Resource class A {}" =
        some unit ∧
      Engine.analyze 9 unit 0 [] (builtinRules.map Rule.unfiltered) =
        Engine.analyze 9 unit 0 [] builtinRules := by
  have facts : (ofText? "file:///A.java"
      "import jakarta.annotation.Resource;\n@Resource class A {}").map (fun unit =>
        (unit.imports.map fun i => (i.path, unit.mentions i.path), unit.writtenNames,
          unit.package, unit.types.map (·.name))) =
      some ([("jakarta.annotation.Resource", true)], ["Resource"], none, ["A"]) := by
    rw [ofText?_eq_map]
    decide +kernel
  obtain ⟨unit, lowered, facts⟩ := Option.map_eq_some_iff.1 facts
  simp only [Prod.mk.injEq] at facts
  obtain ⟨imports, names, package, types⟩ := facts
  have path : ∀ i ∈ unit.imports, i.path = "jakarta.annotation.Resource" ∧ unit.mentions i.path := by
    intro i hi
    have mem := List.mem_map_of_mem (f := fun i => (i.path, unit.mentions i.path)) hi
    rw [imports, List.mem_singleton, Prod.mk.injEq] at mem
    exact mem
  have only : ∀ simple qualified, unit.declaredAs? simple = some qualified → qualified = "A" := by
    intro simple qualified here
    obtain ⟨t, eq, name⟩ := List.map_eq_singleton_iff.1 types
    unfold declaredAs? at here
    rw [eq, declaredFrom?, name] at here
    split at here
    · unfold qualifiedIn at here
      rw [package, name] at here
      exact (Option.some.inj here).symm
    · cases here
  have short : ∀ p ∈ lookedFor, p.toList.length < "jakarta.annotation.Resource".toList.length := by
    decide +kernel
  refine ⟨unit, lowered, (prefilter_misses_nothing lowered ?_).2 9 0 []⟩
  intro p hp reaches
  have jakarta := jakarta_of_lookedFor p hp
  cases reaches with
  | imported i hi _ starts => exact mentions_of_starts (path i hi).2 starts
  | written name mem starts =>
    rw [names, List.mem_singleton] at mem
    rw [mem, Java.erase_eq_self (by decide +kernel)] at starts
    exact absurd (head?_of_starts jakarta starts) (by decide)
  | outer i hi _ _ below =>
    obtain ⟨rest, eq⟩ := below
    have shorter := short p hp
    rw [eq, (path i hi).1, toList_dotted, List.length_append] at shorter
    omega
  | declared simple qualified here starts =>
    rw [only simple qualified here] at starts
    rcases starts with starts | ⟨rest, eq⟩
    · exact absurd (head?_of_starts jakarta starts) (by decide)
    · have head := head?_of_starts jakarta (List.prefix_refl _)
      have point : "A".toList = ['A'] := by decide
      rw [eq, toList_dotted, point] at head
      cases head

/-- With blanks in the import the package does not stand in the text, and a finding is missed. -/
theorem prefilter_misses_spaced_import :
    ∃ unit, ofText? "file:///A.java" "import jakarta . annotation . Resource;\n@Resource class A {}" =
        some unit ∧
      Lifecycle.resourceAttributes.isApplicable unit = false ∧
      ∃ ds, (Lifecycle.resourceAttributes.collect unit).result = .ok ds ∧ ds ≠ [] := by
  have facts : (ofText? "file:///A.java"
      "import jakarta . annotation . Resource;\n@Resource class A {}").map (fun unit =>
        (Lifecycle.resourceAttributes.isApplicable unit,
          (Lifecycle.resourceAttributes.collect unit).result.toOption.map List.length)) =
      some (false, some 2) := by
    decide +kernel
  obtain ⟨unit, lowered, facts⟩ := Option.map_eq_some_iff.1 facts
  obtain ⟨hidden, found⟩ := Prod.mk.inj facts
  refine ⟨unit, lowered, hidden, ?_⟩
  cases result : (Lifecycle.resourceAttributes.collect unit).result with
  | error failure =>
    rw [result] at found
    cases found
  | ok ds =>
    rw [result] at found
    refine ⟨ds, rfl, ?_⟩
    rintro rfl
    cases found

end RuleRegistry

end JakartaCheck
