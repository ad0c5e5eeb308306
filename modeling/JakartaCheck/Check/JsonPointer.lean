/-!
# JSON pointers

A pointer is a sequence of tokens, each with `/` in front; inside a token `~` is written `~0` and
`/` is written `~1`.
-/

namespace JakartaCheck.JsonPointer

/-- Does every `~` stand before `0` or `1`? -/
def tildesEscaped : List Char → Bool
  | [] => true
  | '~' :: '0' :: cs => tildesEscaped cs
  | '~' :: '1' :: cs => tildesEscaped cs
  | '~' :: _ => false
  | _ :: cs => tildesEscaped cs

/-- Is the string a pointer? The empty one points to the whole document. -/
def isValid (value : String) : Bool :=
  match value.toList with
  | [] => true
  | c :: cs => c == '/' && tildesEscaped cs

end JakartaCheck.JsonPointer
