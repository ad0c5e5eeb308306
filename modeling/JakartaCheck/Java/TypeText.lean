import JakartaCheck.Text.Blank
import JakartaCheck.Text.Bytes

/-!
# Types as text

The rules compare types by name. `clean` drops white space from a type as it is written, `erase`
also its type arguments and array marks, and `simplify` leaves only the last name.
-/

namespace JakartaCheck.TypeText

def primitives : List String :=
  ["boolean", "byte", "char", "short", "int", "long", "float", "double"]

def isPrimitive (name : String) : Bool := primitives.contains name

/-- Types of `java.lang` that need no import. -/
def javaLang : List String :=
  ["AutoCloseable", "Boolean", "Byte", "CharSequence", "Character", "Class", "Comparable",
    "Deprecated", "Double", "Enum", "Error", "Exception", "Float", "FunctionalInterface",
    "Integer", "Iterable", "Long", "Math", "Number", "Object", "Override", "Record", "Runnable",
    "RuntimeException", "SafeVarargs", "Short", "String", "StringBuilder", "SuppressWarnings",
    "System", "Thread", "Throwable", "Void"]

def javaLangQualified? (simple : String) : Option String :=
  if javaLang.contains simple then some ("java.lang." ++ simple) else none

/-- The primitive type that a class of `java.lang` wraps. -/
def unboxed? (simple : String) : Option String :=
  match simple with
  | "Boolean" => some "boolean"
  | "Byte" => some "byte"
  | "Character" => some "char"
  | "Short" => some "short"
  | "Integer" => some "int"
  | "Long" => some "long"
  | "Float" => some "float"
  | "Double" => some "double"
  | _ => none

/-- The text without white space. -/
def clean (raw : String) : String := String.ofList (Text.dropBlanks raw.toList)

/-- What stands outside all angle brackets, `depth` of which are open. A `>` too many closes
nothing. Each open bracket is a byte of the text, so the depth stays below the length of the text; where
offsets are numbers of 32 bits, the depth is one too. -/
def outsideBrackets (depth : Nat) : List Char → List Char
  | [] => []
  | '<' :: cs => outsideBrackets (depth + 1) cs
  | '>' :: cs => outsideBrackets (depth - 1) cs
  | c :: cs => if depth = 0 then c :: outsideBrackets depth cs else outsideBrackets depth cs

/-- `cs` after dropping `piece` from its front as often as it stands there. -/
def stripFrontAll (piece : List Char) (cs : List Char) : List Char :=
  if piece.isEmpty then cs
  else if _h : piece.isPrefixOf cs ∧ cs ≠ [] then stripFrontAll piece (cs.drop piece.length)
  else cs
termination_by cs.length
decreasing_by
  have hp : piece ≠ [] := by rintro rfl; simp_all
  have := List.length_pos_iff.2 _h.2
  have := List.length_pos_iff.2 hp
  simp only [List.length_drop]
  omega

/-- `cs` after dropping `piece` from its end as often as it stands there. -/
def stripBackAll (piece : List Char) (cs : List Char) : List Char :=
  (stripFrontAll piece.reverse cs.reverse).reverse

/-- The name of a type, without type arguments and array marks. -/
def erase (raw : String) : String :=
  let compact := Text.dropBlanks raw.toList
  let bare := outsideBrackets 0 compact
  String.ofList (stripBackAll ['[', ']'] (stripBackAll ['.', '.', '.'] bare))

/-- What follows the last point of a name. -/
def lastName (name : String) : String := String.ofList (Text.afterLast '.' name.toList)

/-- What stands before the last point of a name. -/
def packageOf (name : String) : String :=
  match Text.splitLast '.' name.toList with
  | some (before, _) => String.ofList before
  | none => ""

/-- The name of a type without its package. -/
def simplify (raw : String) : String := lastName (erase raw)

end JakartaCheck.TypeText
