import JakartaCheck.Check.Member
import JakartaCheck.Diagnostic.Code
import JakartaCheck.Rules.Rule

/-!
# Bean validation

The built-in constraints and the types of elements that they accept.
-/

namespace JakartaCheck.Constraints

def package : String := "jakarta.validation.constraints"

def names : List String :=
  ["AssertFalse", "AssertTrue", "DecimalMax", "DecimalMin", "Digits", "Email", "Future",
    "FutureOrPresent", "Max", "Min", "Negative", "NegativeOrZero", "NotBlank", "NotEmpty",
    "NotNull", "Null", "Past", "PastOrPresent", "Pattern", "Positive", "PositiveOrZero", "Size"]

def booleans : List String := ["boolean", "java.lang.Boolean"]

def strings : List String := ["java.lang.CharSequence", "java.lang.String"]

def integrals : List String :=
  ["java.math.BigDecimal", "java.math.BigInteger", "byte", "short", "int", "long",
    "java.lang.Byte", "java.lang.Short", "java.lang.Integer", "java.lang.Long"]

def floats : List String := ["float", "double", "java.lang.Float", "java.lang.Double"]

def temporals : List String :=
  ["java.util.Calendar", "java.util.Date", "java.time.Instant", "java.time.LocalDate",
    "java.time.LocalDateTime", "java.time.LocalTime", "java.time.MonthDay",
    "java.time.OffsetDateTime", "java.time.OffsetTime", "java.time.Year", "java.time.YearMonth",
    "java.time.ZonedDateTime", "java.time.chrono.HijrahDate", "java.time.chrono.JapaneseDate",
    "java.time.chrono.MinguoDate", "java.time.chrono.ThaiBuddhistDate"]

/-- The constraint that an annotation denotes. -/
def nameOf? (unit : CompilationUnit) (a : AnnotationUse) : Option String :=
  names.find? fun name => unit.annotationIs a (package ++ "." ++ name)

/-- The types of elements that a constraint accepts, and how they are described; none if it accepts
all types. -/
def supported? (constraint : String) : Option (List String × String) :=
  if ["AssertTrue", "AssertFalse"].contains constraint then
    some (booleans, "boolean and Boolean")
  else if ["DecimalMax", "DecimalMin", "Digits"].contains constraint then
    some (integrals ++ strings,
      "BigDecimal, BigInteger, CharSequence, byte, short, int, long (and their respective wrappers)")
  else if ["Email", "NotBlank", "Pattern"].contains constraint then
    some (strings, "String and CharSequence")
  else if ["Future", "FutureOrPresent", "Past", "PastOrPresent"].contains constraint then
    some (temporals, "Date, Calendar, Instant, LocalDate and other java.time")
  else if ["Min", "Max"].contains constraint then
    some (integrals,
      "BigDecimal, BigInteger, byte, short, int, long (and their respective wrappers)")
  else if ["Negative", "NegativeOrZero", "Positive", "PositiveOrZero"].contains constraint then
    some (integrals ++ floats,
      "BigDecimal, BigInteger, byte, short, int, long, float, double (and their respective wrappers)")
  else none

def applies (unit : CompilationUnit) : Bool := unit.mentions "jakarta.validation"

/-- What one annotation on a member of type `element` gives rise to. -/
def targetFinding? (unit : CompilationUnit) (member : Member) (element : TypeRef)
    (a : AnnotationUse) : Option Diagnostic := do
  let constraint ← nameOf? unit a
  let (allowed, described) ← supported? constraint
  if Check.typeIn element allowed then none
  else
    let kind := match member with
      | .field _ => "fields"
      | .method _ => "methods"
    some ((Diagnostic.error Source.beanValidation Code.fixTypeOfElement
      s!"The @{constraint} annotation can only be used on {described} type {kind}."
      a.nameSpan).withNames [a.simpleName])

/-- A constraint is put on elements of types that it accepts. -/
def constraintTargetType : Rule :=
  .ofFindings "constraint-target-type" [Code.fixTypeOfElement] applies fun unit =>
    unit.types.flatMap fun t =>
      t.members.flatMap fun member =>
        match member.elementType? with
        | some element => member.modifiers.annotations.filterMap (targetFinding? unit member element)
        | none => []

/-- A static member has no constraints. -/
def constraintStatic : Rule :=
  .ofFindings "constraint-static" [Code.makeNotStatic] applies fun unit =>
    unit.types.flatMap fun t =>
      t.members.flatMap fun member =>
        let found := member.modifiers.annotations.filter fun a => (nameOf? unit a).isSome
        if member.modifiers.isStatic && !found.isEmpty then
          let message := match member with
            | .field _ => "Constraint annotations are not allowed on static fields."
            | .method _ => "Constraint annotations are not allowed on static methods."
          member.nameSpans.map fun span =>
            (Diagnostic.error Source.beanValidation Code.makeNotStatic message span).withNames
              (Check.distinctNames found)
        else []

def rules : List Rule := [constraintTargetType, constraintStatic]

end JakartaCheck.Constraints
