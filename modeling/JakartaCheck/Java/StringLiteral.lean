import JakartaCheck.Text.Bytes
import JakartaCheck.Text.Hex

/-!
# String literals

`StringLiteral.value?` gives the string that a Java literal denotes. Escapes that the language does
not know stay as they are written.
-/

namespace JakartaCheck.StringLiteral

/-- The number that hexadecimal digits denote, with a plus sign in front or not; at least one digit
is needed. -/
def hexNumber? (cs : List Char) : Option Nat :=
  let digits := match cs with
    | '+' :: rest => rest
    | _ => cs
  if digits.isEmpty then none else Text.digitsFrom? 16 0 digits

/-- The character after a backslash stands for one character. -/
def simpleEscape? : Char → Option Char
  | 'n' => some '\n'
  | 't' => some '\t'
  | 'r' => some '\r'
  | 'b' => some '\x08'
  | 'f' => some '\x0c'
  | 's' => some ' '
  | '0' => some '\x00'
  | '"' => some '"'
  | '\'' => some '\''
  | '\\' => some '\\'
  | _ => none

/-- The string that the text between the quotes denotes. -/
def decode : List Char → List Char
  | [] => []
  | '\\' :: 'u' :: cs =>
    let rest := cs.dropWhile (· == 'u')
    let digits := rest.take 4
    match (hexNumber? digits).bind Text.scalar? with
    | some c => c :: decode (rest.drop 4)
    | none => '\\' :: 'u' :: digits ++ decode (rest.drop 4)
  | '\\' :: c :: cs =>
    match simpleEscape? c with
    | some d => d :: decode cs
    | none => '\\' :: c :: decode cs
  | c :: cs => c :: decode cs
termination_by cs => cs.length
decreasing_by
  all_goals simp only [List.length_cons, List.length_drop]
  case _ | _ =>
    have := (List.dropWhile_sublist (l := cs) (· == 'u')).length_le
    omega
  all_goals omega

def quotes : List Char := ['"', '"', '"']

/-- The text between the quotes. A text block starts after the blanks and line breaks that follow
its quotes. -/
def body? (raw : List Char) : Option (List Char) :=
  match Text.stripFront quotes raw with
  | some rest => (Text.stripBack quotes rest).map fun body =>
      (body.dropWhile fun c => c == ' ' || c == '\t').dropWhile fun c => c == '\r' || c == '\n'
  | none => do Text.stripBack ['"'] (← Text.stripFront ['"'] raw)

/-- The string that a literal denotes; none if the text is no string literal. -/
def value? (raw : String) : Option String :=
  (body? raw.toList).map fun body => String.ofList (decode body)

end JakartaCheck.StringLiteral
