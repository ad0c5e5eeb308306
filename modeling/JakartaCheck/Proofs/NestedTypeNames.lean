import JakartaCheck.Proofs.TypeNesting
import JakartaCheck.Proofs.TypeReferences

/-!
# Names of nested types

A declared type is known under the names of the types around it and its own. These are found among the
types in front of it, so they are complete and in order as far as enclosing types are listed first and
types lie one in the body of the other or apart (`CompilationUnit.Nested`). In such a unit the first type
of its name is bound under the names of all types around it, from the outermost to the innermost
(`CompilationUnit.resolve?_nested`). Every unit that is read from a concrete syntax tree is one
(`CompilationUnit.nested_of_tree`).
-/

namespace JakartaCheck

open Java

/-- The second type lies in the body of the first. -/
def TypeDecl.Encloses (t u : TypeDecl) : Prop := t.bodySpan.contains u.span

instance (t u : TypeDecl) : Decidable (t.Encloses u) := inferInstanceAs (Decidable (_ = true))

/-- `around` are those of the other types that enclose `t`, from the outermost to the innermost. -/
structure TypeDecl.Surrounded (t : TypeDecl) (others around : List TypeDecl) : Prop where
  all : around.Perm (others.filter (·.Encloses t))
  outward : around.Pairwise fun outer inner => ¬ inner.Encloses outer
  /-- They form a chain, provided that types hold their bodies and `t` is not empty. -/
  chain : t.span.start < t.span.stop → (∀ u ∈ around, u.span.contains u.bodySpan) →
    around.Pairwise TypeDecl.Encloses

namespace CompilationUnit

/-- Enclosing types are listed first, and two types lie one in the body of the other or apart. -/
structure Nested (unit : CompilationUnit) : Prop where
  order : unit.types.Pairwise fun t u => ¬ u.Encloses t
  apart : unit.types.Pairwise fun t u => t.Encloses u ∨ u.Encloses t ∨ t.span.Disjoint u.span

variable {unit : CompilationUnit} {before after : List TypeDecl} {t : TypeDecl}

/-! ### The types around a type -/

theorem Nested.surrounded (h : unit.Nested) (split : unit.types = before ++ t :: after) :
    t.Surrounded (before ++ after) (before.filter (·.Encloses t)) := by
  have order := h.order
  have apart := h.apart
  rw [split] at order apart
  obtain ⟨orderBefore, orderBehind, -⟩ := List.pairwise_append.1 order
  obtain ⟨apartBefore, -, -⟩ := List.pairwise_append.1 apart
  refine ⟨?_, orderBefore.filter _, fun ne bodies => ?_⟩
  · have behind : after.filter (·.Encloses t) = [] := by
      refine List.filter_eq_nil_iff.2 fun u hu encloses => ?_
      exact (List.pairwise_cons.1 orderBehind).1 u hu (of_decide_eq_true encloses)
    rw [List.filter_append, behind, List.append_nil]
  · refine ((orderBefore.and apartBefore).filter _).imp_of_mem fun {a b} ha hb here => ?_
    have holds : ∀ u ∈ before.filter (·.Encloses t), u.span.contains t.span := fun u hu =>
      Span.contains_trans (bodies u hu) (of_decide_eq_true (List.mem_filter.1 hu).2)
    rcases here.2 with encloses | encloses | disjoint
    · exact encloses
    · exact absurd encloses here.1
    · have outside := Span.not_contains_of_disjoint disjoint (holds a ha) ne
      rw [holds b hb] at outside
      cases outside

/-! ### Binding names of words -/

theorem declaredAs?_first (split : unit.types = before ++ t :: after)
    (first : ∀ u ∈ before, u.name ≠ t.name) :
    unit.declaredAs? t.name = some (unit.qualifiedIn before t) := by
  have from? : ∀ front before, (∀ u ∈ before, u.name ≠ t.name) →
      unit.declaredFrom? t.name front (before ++ t :: after) =
        some (unit.qualifiedIn (front ++ before) t) := by
    intro front before
    induction before generalizing front with
    | nil =>
      intro _
      rw [List.nil_append, declaredFrom?, if_pos (beq_self_eq_true _), List.append_nil]
    | cons u before ih =>
      intro first
      obtain ⟨hu, hbefore⟩ := List.forall_mem_cons.1 first
      rw [List.cons_append, declaredFrom?, if_neg (by simpa using hu), ih _ hbefore,
        List.append_assoc]
      rfl
  rw [declaredAs?, split, from? [] before first, List.nil_append]

theorem importedAs?_eq_none {simple : String} (own : ∀ i ∈ unit.imports, i.isStatic = false →
    i.isWildcard = false → TypeText.lastName i.path ≠ simple) : unit.importedAs? simple = none := by
  rw [importedAs?, Option.map_eq_none_iff, List.find?_eq_none]
  intro i hi
  simp only [List.mem_filter, List.mem_reverse, Bool.and_eq_true, Bool.not_eq_true'] at hi
  simpa using own i hi.1 hi.2.1 hi.2.2

/-- What the first of several words is bound to, the words behind it go on from. -/
theorem resolve?_words {name next bound : String} {rest : List String} (word : IsWord name)
    (words : ∀ n ∈ next :: rest, IsWord n) (binds : unit.bindHead? name = some bound) :
    unit.resolve? (name ++ "." ++ dotted (next :: rest)) =
      some (bound ++ "." ++ dotted (next :: rest)) := by
  have whole : dotted (name :: next :: rest) = name ++ "." ++ dotted (next :: rest) :=
    String.intercalate_cons_cons
  have erased := TypeText.erase_dotted word words
  rw [whole] at erased
  rw [resolve?_dotted erased (toList_dotted name _) word.not_point_mem, String.ofList_toList, binds,
    String.ofList_toList]

/-- The first type of its name is bound under the names of all types around it, from the outermost to
the innermost, and its own, behind the package. A dotted name that starts with it goes on from there. -/
theorem resolve?_nested (nested : unit.Nested) (split : unit.types = before ++ t :: after)
    (first : ∀ u ∈ before, u.name ≠ t.name) (word : IsWord t.name)
    (named : t.name ≠ "void" ∧ TypeText.isPrimitive t.name = false)
    (own : ∀ i ∈ unit.imports, i.isStatic = false → i.isWildcard = false →
      TypeText.lastName i.path ≠ t.name) :
    ∃ around bound, t.Surrounded (before ++ after) around ∧
      bound = dotted (unit.package.toList ++ around.map (·.name) ++ [t.name]) ∧
      unit.resolve? t.name = some bound ∧
      ∀ next rest, (∀ n ∈ next :: rest, IsWord n) →
        unit.resolve? (t.name ++ "." ++ dotted (next :: rest)) =
          some (bound ++ "." ++ dotted (next :: rest)) := by
  have binds : unit.bindHead? t.name = some (unit.qualifiedIn before t) := by
    rw [bindHead?, importedAs?_eq_none own, declaredAs?_first split first]
    rfl
  have around : before.filter (·.Encloses t) = before.filter (·.bodySpan.contains t.span) := by
    refine List.filter_congr fun u _ => ?_
    exact Bool.decide_eq_true
  refine ⟨before.filter (·.Encloses t), unit.qualifiedIn before t, nested.surrounded split, ?_, ?_, ?_⟩
  · rw [around, qualifiedIn]
  · rw [resolve?_word word named, binds]
  · exact fun next rest words => resolve?_words word words binds

/-! ### Units that are read -/

theorem nested_of_listing {root : Node} {ps : List (Node × TypeDecl)}
    (h : root.Everywhere (Node.Concrete unit.text))
    (listing : Listing unit.text root.namedChildren unit.types ps) : unit.Nested := by
  have listed : ∀ p ∈ ps, Listed unit.text root p := fun p hp => listing.listed h hp
  refine ⟨?_, ?_⟩
  · rw [← listing.types, List.pairwise_map]
    refine listing.order.imp_of_mem fun {p q} hp hq before encloses => ?_
    have around := Span.contains_trans (listed q hq).body_inside encloses
    rcases (listed p hp).order before (listed q hq) with behind | within
    · have nonempty := (listed p hp).fits.nonempty
      rw [(listed p hp).span, Span.contains_iff] at around
      rw [(listed p hp).span] at behind
      omega
    · obtain ⟨body, -, bodySpan, smaller⟩ := (listed p hp).body
      have whole := Span.contains_trans within around
      rw [bodySpan, (listed p hp).span, smaller] at whole
      cases whole
  · rw [← listing.types, List.pairwise_map]
    refine listing.order.imp_of_mem fun {p q} hp hq before => ?_
    exact ((listed p hp).order before (listed q hq)).elim (fun behind => .inr (.inr (.inl behind)))
      .inl

theorem Nested.bind (h : unit.Nested) : unit.bind.Nested :=
  ⟨List.pairwise_map.2 h.order, List.pairwise_map.2 h.apart⟩

/-- In a unit that is read from a tree, enclosing types are listed first. -/
theorem nested_of_tree (uri : String) {text : String} {root : Node}
    (concrete : root.Everywhere (Node.Concrete text)) : (ofTree uri text root).Nested := by
  obtain ⟨ps, listing⟩ := listing_flatMap root.namedChildren
    (fun n hn => (placed_namedChild concrete hn).self) (concrete.here.ordered.filter Node.isNamed)
  have unbound : (unboundOfTree uri text root).Nested := nested_of_listing concrete listing
  exact unbound.bind

/-- A class in a class in a class, beside a fourth one. -/
theorem resolve?_nested_in_two : ∃ unit before t around,
    ofText? "file:///A.java" "package p; class A { class D {} class B { class C {} } }" = some unit ∧
      unit.types = before ++ [t] ∧ t.name = "C" ∧ t.Surrounded (before ++ []) around ∧
      dotted ("p" :: around.map (·.name) ++ ["C"]) = "p.A.B.C" ∧
      unit.resolve? "C.X" = some "p.A.B.C.X" := by
  have facts : (ofText? "file:///A.java"
      "package p; class A { class D {} class B { class C {} } }").map (fun unit =>
        (unit.package, unit.imports, unit.types.map (·.name), unit.resolve? "C")) =
      some (some "p", [], ["A", "D", "B", "C"], some "p.A.B.C") := by
    decide +kernel
  obtain ⟨unit, lowered, facts⟩ := Option.map_eq_some_iff.1 facts
  simp only [Prod.mk.injEq] at facts
  obtain ⟨package, imports, names, known⟩ := facts
  have split : unit.types.map (·.name) = ["A", "D", "B"] ++ ["C"] := names
  obtain ⟨before, last, types, namesBefore, nameLast⟩ := List.map_eq_append_iff.1 split
  obtain ⟨t, rfl, name⟩ := List.map_eq_singleton_iff.1 nameLast
  have first : ∀ u ∈ before, u.name ≠ t.name := by
    intro u hu same
    have mem : u.name ∈ before.map (·.name) := List.mem_map_of_mem hu
    rw [namesBefore, same, name] at mem
    revert mem
    decide
  have nested : unit.Nested := by
    obtain ⟨tree, parsed, rfl⟩ := lower?_eq_some_iff.1 lowered
    have shaped := shaped_of_parse (grammar_eq_some_iff.1 parsed).1
    exact nested_of_tree _ (shaped.imp fun _ h => h.toConcrete)
  obtain ⟨around, bound, surrounded, eq, binds, goesOn⟩ := resolve?_nested nested
    types first (name ▸ by decide +kernel) (name ▸ by decide) (by simp [imports])
  rw [name, known] at binds
  obtain rfl := Option.some.inj binds
  rw [package, name] at eq
  have further := goesOn "X" [] (by decide +kernel)
  rw [name] at further
  exact ⟨unit, before, t, around, lowered, types, name, surrounded, eq.symm, further⟩

end CompilationUnit

end JakartaCheck
