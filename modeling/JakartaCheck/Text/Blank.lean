/-!
# White space

The characters with the Unicode property `White_Space`, and the operations that drop them.
-/

namespace JakartaCheck.Text

/-- Has `c` the property `White_Space`? -/
def isBlank (c : Char) : Bool :=
  let n := c.toNat
  (9 ≤ n && n ≤ 13) || n == 0x20 || n == 0x85 || n == 0xA0 || n == 0x1680 ||
    (0x2000 ≤ n && n ≤ 0x200A) || n == 0x2028 || n == 0x2029 || n == 0x202F || n == 0x205F ||
    n == 0x3000

/-- All characters but white space. -/
def dropBlanks (cs : List Char) : List Char := cs.filter (!isBlank ·)

/-- `cs` without white space in front. -/
def trimFront (cs : List Char) : List Char := cs.dropWhile isBlank

/-- `cs` without white space at its end. -/
def trimBack (cs : List Char) : List Char := (cs.reverse.dropWhile isBlank).reverse

/-- `cs` without white space at either end. -/
def trim (cs : List Char) : List Char := trimBack (trimFront cs)

end JakartaCheck.Text
