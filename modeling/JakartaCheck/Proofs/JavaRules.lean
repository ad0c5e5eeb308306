import JakartaCheck.Java.Productions
import JakartaCheck.Proofs.GrammarLocality
import JakartaCheck.Proofs.GrammarMeaning

/-!
# Properties of the grammar of Java

The analyses of phrases, evaluated at the rules of Java. Each is a table over the rules that is
checked rule by rule; of the levels of binary operators only finitely many differ.
-/

namespace JakartaCheck.Java

open Phrase

/-! ### All rules -/

/-- Every rule, with the levels of operators up to the last. -/
def symbols : List Symbol :=
  [.topLevel, .statement, .block, .switchExpression, .expression true, .expression false,
    .ternary true, .ternary false, .unary true, .unary false, .primary, .argumentList,
    .stringLiteral, .arrayInitializer, .type, .unannotatedType, .simpleType, .typeArguments,
    .typeParameters, .dimensions, .dottedName, .annotationUse, .elementValue, .modifiers,
    .formalParameters, .classBody, .classMember, .interfaceMember, .annotationMember,
    .recordPattern] ++
    (List.range operators.length).flatMap fun level => [.binary level true, .binary level false]

theorem mem_symbols (s : Symbol) :
    s ∈ symbols ∨ ∃ level arrows, s = .binary level arrows ∧ operators.length ≤ level := by
  cases s with
  | binary level arrows =>
    rcases Nat.lt_or_ge level operators.length with less | ge
    · refine .inl (List.mem_append_right _ (List.mem_flatMap.2 ⟨level, List.mem_range.2 less, ?_⟩))
      cases arrows <;> simp
    · exact .inr ⟨level, arrows, rfl, ge⟩
  | expression arrows => cases arrows <;> exact .inl (by decide)
  | ternary arrows => cases arrows <;> exact .inl (by decide)
  | unary arrows => cases arrows <;> exact .inl (by decide)
  | _ => exact .inl (by decide)

theorem production_binary {level : Nat} (h : operators.length ≤ level) (arrows : Bool) :
    production (.binary level arrows) = .rule (.unary arrows) := by
  simp only [production, binaryExpression, List.getElem?_eq_none h]

/-- A property of rules is checked at the listed ones and beyond the last level. -/
theorem forall_symbol {P : Symbol → Prop} (listed : ∀ s ∈ symbols, P s)
    (beyond : ∀ level arrows, operators.length ≤ level → P (.binary level arrows)) (s : Symbol) :
    P s := by
  rcases mem_symbols s with mem | ⟨level, arrows, rfl, ge⟩
  · exact listed s mem
  · exact beyond level arrows ge

theorem production_solid (s : Symbol) : (production s).nullable = false := by
  induction s using forall_symbol with
  | listed s mem =>
    revert s
    decide +kernel
  | beyond level arrows ge =>
    rw [production_binary ge]
    rfl

theorem production_even (s : Symbol) :
    (production s).balanced = true ∧ (production s).net = 0 := by
  induction s using forall_symbol with
  | listed s mem =>
    revert s
    decide +kernel
  | beyond level arrows ge =>
    rw [production_binary ge]
    exact ⟨rfl, rfl⟩

theorem production_silent (s : Symbol) : (production s).silent = true := by
  induction s using forall_symbol with
  | listed s mem =>
    revert s
    decide +kernel
  | beyond level arrows ge =>
    rw [production_binary ge]
    rfl

/-! ### Depth of calls -/

/-- How deep a rule calls before it reads a token. -/
def callDepth : Symbol → Nat
  | .topLevel => 77
  | .statement => 75
  | .expression _ => 52
  | .ternary _ => 50
  | .binary level _ => 28 + 2 * (operators.length - level)
  | .unary _ => 27
  | .primary => 20
  | .type => 13
  | .unannotatedType => 11
  | .simpleType => 9
  | .dimensions => 9
  | .modifiers => 17
  | .elementValue => 55
  | .classMember => 27
  | .interfaceMember => 23
  | .annotationMember => 22
  | .recordPattern => 7
  | _ => 4

theorem production_bounded : Bounded production callDepth depthPerToken where
  pos := by decide
  solid := production_solid
  ranked s := by
    induction s using forall_symbol with
    | listed s mem =>
      revert s
      decide +kernel
    | beyond level arrows ge =>
      rw [production_binary ge]
      refine ⟨?_, rfl⟩
      simp only [cost, callDepth]
      omega

/-! ### Ends of phrases -/

/-- The rules that may end in a semicolon or a closing brace. -/
def mayEnd : Symbol → Bool
  | .topLevel | .statement | .block | .switchExpression | .expression _ | .ternary _
  | .binary _ _ | .unary _ | .primary | .arrayInitializer | .elementValue | .classBody
  | .classMember | .interfaceMember | .annotationMember => true
  | _ => false

/-- The rules that always do. -/
def mustEnd : Symbol → Bool
  | .topLevel | .statement | .block | .switchExpression | .classBody => true
  | _ => false

theorem production_mayEnd (s : Symbol) (h : (production s).mayStop mayEnd = true) :
    mayEnd s = true := by
  revert h
  induction s using forall_symbol with
  | listed s mem =>
    revert s
    decide +kernel
  | beyond level arrows ge =>
    intro _
    rfl

theorem production_mustEnd (s : Symbol) (h : mustEnd s = true) :
    (production s).mustStop mustEnd = true := by
  revert h
  induction s using forall_symbol with
  | listed s mem =>
    revert s
    decide +kernel
  | beyond level arrows ge =>
    intro h
    cases h

/-! ### Borders -/

/-- The words and marks that start an import, a package or the declaration of a type. -/
def declarationStarts : List String :=
  ["import", "package", "@", "@interface", "class", "interface", "enum", "record", "public",
    "protected", "private", "abstract", "static", "final", "strictfp", "default", "synchronized",
    "native", "transient", "volatile", "sealed", "non"]

/-- A border in front of a declaration. -/
def declarationBorder : Border Symbol where
  blind pattern := declarationStarts.all fun text =>
    !pattern.accepts (.word text) && !pattern.accepts (.mark text)
  ends := mayEnd
  calm _ := true

theorem declarationBorder_safe (s : Symbol) : declarationBorder.safe 0 (production s) = true := by
  induction s using forall_symbol with
  | listed s mem =>
    revert s
    decide +kernel
  | beyond level arrows ge =>
    rw [production_binary ge]
    rfl

theorem declarationBorder_tame : declarationBorder.Tame production where
  solid := production_solid
  even := production_even
  ends := production_mayEnd
  inside s := declarationBorder.safe_mono (by decide) _ (declarationBorder_safe s)
  outside s _ := declarationBorder_safe s

theorem declarationBorder_blocks {t : Token} (h : t.shape.text ∈ declarationStarts)
    (tail : List Token) : declarationBorder.Blocks (t :: tail) := by
  intro pattern blind u hu
  cases hu
  have := List.all_eq_true.1 blind _ h
  simp only [Bool.and_eq_true, Bool.not_eq_true'] at this
  match shape : t.shape with
  | .word text =>
    rw [shape] at this
    exact this.1
  | .mark text =>
    rw [shape] at this
    exact this.2
  | .literal form =>
    rw [shape] at h
    exact absurd h (by simp only [Shape.text]; decide)

/-- A border about which nothing is known; only names and annotations are read up to it. -/
def openBorder : Border Symbol where
  blind _ := false
  ends := mayEnd
  calm
    | .annotationUse | .dottedName => true
    | _ => false

theorem openBorder_tame : openBorder.Tame production where
  solid := production_solid
  even := production_even
  ends := production_mayEnd
  inside s := by
    induction s using forall_symbol with
    | listed s mem =>
      revert s
      decide +kernel
    | beyond level arrows ge =>
      rw [production_binary ge]
      rfl
  outside s := by
    induction s using forall_symbol with
    | listed s mem =>
      revert s
      decide +kernel
    | beyond level arrows ge =>
      intro h
      cases h

theorem openBorder_blocks (tokens : List Token) : openBorder.Blocks tokens := by
  intro pattern blind
  cases blind

end JakartaCheck.Java
