import JakartaCheck.Check.Member
import JakartaCheck.Diagnostic.Code
import JakartaCheck.Rules.Rule

/-!
# Persistence

Keys of persistent maps, and the shape of entity classes.
-/

namespace JakartaCheck.Entities

def entity : String := "jakarta.persistence.Entity"
def mapKey : String := "jakarta.persistence.MapKey"
def mapKeyClass : String := "jakarta.persistence.MapKeyClass"
def mapKeyJoinColumn : String := "jakarta.persistence.MapKeyJoinColumn"

def applies (unit : CompilationUnit) : Bool := unit.mentions "jakarta.persistence"

/-- A map has either a key or a class of keys. -/
def mapKeyConflict : Rule :=
  .ofFindings "mapkey-conflict" [Code.removeMapKeyOrMapKeyClass] applies fun unit =>
    unit.types.flatMap fun t =>
      t.members.flatMap fun member =>
        Check.exclusionDiagnostics
          (Check.conflictingAnnotations member.modifiers (unit.annotationIs · mapKey)
            (unit.annotationIs · mapKeyClass))
          Source.persistence Code.removeMapKeyOrMapKeyClass
          "@MapKeyClass and @MapKey annotations cannot be used on the same field or property."

/-- Of several join columns each names both columns. -/
def joinColumnAttributes : Rule :=
  .ofFindings "mapkey-join-column-attributes" [Code.missingAttributes] applies fun unit =>
    unit.types.flatMap fun t =>
      t.members.flatMap fun member =>
        let columns := member.modifiers.annotations.filter (unit.annotationIs · mapKeyJoinColumn)
        (Check.exceeding columns 1).filterMap fun column =>
          let missing := ["name", "referencedColumnName"].filter (!column.hasArg ·)
          if missing.isEmpty then none
          else some ((Diagnostic.error Source.persistence Code.missingAttributes
            "A field with multiple @MapKeyJoinColumn annotations must specify both the name and referencedColumnName attributes in the corresponding @MapKeyJoinColumn annotations."
            column.nameSpan).withNames missing)

def finalFinding (message : String) (span : Span) : Diagnostic :=
  .error Source.persistence Code.removeFinalMods message span

/-- A field that is stored with its entity and is final. -/
def isFinalState (f : FieldDecl) : Bool :=
  f.modifiers.isFinal && !f.modifiers.isStatic && !f.modifiers.hasKeyword "transient"

/-- An entity has a constructor without parameters that is public or protected, and neither the
class nor its methods nor its stored fields are final. -/
def entityStructure : Rule :=
  .ofFindings "entity-structure" [Code.missingEmptyConstructor, Code.removeFinalMods] applies
    fun unit =>
      ((unit.types.filter (·.isClass)).filter fun t =>
        unit.hasAnnotationOf t.modifiers entity).flatMap fun t =>
          let missing :=
            if Check.hasNoArgConstructor t fun m => m.isPublic || m.hasKeyword "protected" then []
            else [Diagnostic.error Source.persistence Code.missingEmptyConstructor
              "Classes annotated with @Entity must have a public or protected no-arg constructor."
              t.nameSpan]
          let onType :=
            if t.modifiers.isFinal then
              [finalFinding "A class annotated with @Entity must not be final." t.nameSpan]
            else []
          let onMethods := (t.ordinaryMethods.filter (·.modifiers.isFinal)).map fun m =>
            finalFinding "Methods of a class annotated with @Entity must not be final." m.nameSpan
          let onFields := ((t.fields.filter isFinalState).flatMap (·.declarators)).map fun d =>
            finalFinding
              "Persistent instance variables of a class annotated with @Entity must not be final."
              d.nameSpan
          missing ++ onType ++ onMethods ++ onFields

def rules : List Rule := [mapKeyConflict, joinColumnAttributes, entityStructure]

end JakartaCheck.Entities
