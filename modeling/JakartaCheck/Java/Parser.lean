import JakartaCheck.Java.Node

/-!
# Parsers

What reads a Java source into a concrete syntax tree is a parameter: a `Parser` may be any function
from texts to trees. Parsers go on behind a syntax error. The tree of such a text holds what was
recognised, with nodes of the form `error` around what was not, and says so (`Tree.hasError`).
-/

namespace JakartaCheck.Java

/-- The concrete syntax tree of a source. -/
structure Tree where
  root : Node
  /-- Are there syntax errors in the source? -/
  hasError : Bool
deriving Repr

/-- Reads a source into its tree, if it gives one. -/
abbrev Parser := String → Option Tree

namespace Parser

/-- Does the parser read the text without syntax errors? -/
def accepts (parser : Parser) (text : String) : Bool := (parser text).any (!·.hasError)

variable {parser : Parser} {text : String}

theorem accepts_iff : parser.accepts text ↔ ∃ root, parser text = some ⟨root, false⟩ := by
  rw [accepts, Option.any_eq_true]
  constructor
  · rintro ⟨⟨root, _ | _⟩, parsed, sound⟩
    · exact ⟨root, parsed⟩
    · cases sound
  · rintro ⟨root, parsed⟩
    exact ⟨_, parsed, rfl⟩

end Parser

end JakartaCheck.Java
