/-!
# Regular expressions

A `Regex` is a regular expression over characters. It is matched by derivatives: `after c` is what
has to follow a `c`, and `longest` walks over the characters and remembers where a match
could last end.
-/

namespace JakartaCheck.Java

/-- A regular expression over characters. -/
inductive Regex where
  /-- Matches nothing, not even the empty text. -/
  | fails
  /-- Matches the empty text. -/
  | done
  /-- One character of a class. -/
  | one (accepts : Char → Bool)
  | seq (first second : Regex)
  | either (first second : Regex)
  /-- Any number of times, none included. -/
  | star (body : Regex)

namespace Regex

/-! ### Building expressions -/

def oneOf (chars : List Char) : Regex := .one chars.contains

def optional (body : Regex) : Regex := .either body .done

/-- One or more times. -/
def many (body : Regex) : Regex := .seq body (.star body)

/-- One or more of `item` with a `separator` between each two. -/
def joined (item separator : Regex) : Regex := .seq item (.star (.seq separator item))

/-- The parts one after another. -/
def chain (parts : List Regex) : Regex := parts.foldr .seq .done

/-! ### Matching -/

/-- Does the expression match the empty text? -/
def nullable : Regex → Bool
  | .fails | .one _ => false
  | .done | .star _ => true
  | .seq first second => first.nullable && second.nullable
  | .either first second => first.nullable || second.nullable

/-- `seq`, which fails where the first part does. -/
def andThen : Regex → Regex → Regex
  | .fails, _ => .fails
  | .done, second => second
  | first, second => .seq first second

/-- `either`, without a part that fails. -/
def orElse : Regex → Regex → Regex
  | .fails, second => second
  | first, .fails => first
  | first, second => .either first second

/-- What matches the texts that make a match with `c` in front of them. -/
def after (c : Char) : Regex → Regex
  | .fails | .done => .fails
  | .one accepts => if accepts c then .done else .fails
  | .seq first second =>
    if first.nullable then ((first.after c).andThen second).orElse (second.after c)
    else (first.after c).andThen second
  | .either first second => (first.after c).orElse (second.after c)
  | .star body => (body.after c).andThen (.star body)

/-- Length of the longest beginning of the characters that matches. -/
def longest : Regex → List Char → Option Nat
  | .fails, _ => none
  | regex, [] => if regex.nullable then some 0 else none
  | regex, c :: cs =>
    (((regex.after c).longest cs).map (· + 1)).or (if regex.nullable then some 0 else none)

end Regex

end JakartaCheck.Java
