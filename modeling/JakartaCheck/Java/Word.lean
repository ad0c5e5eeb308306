import JakartaCheck.Text.Letter
import JakartaCheck.Text.Mark

/-!
# Words

Which characters make up the identifiers and keywords of a Java source. Identifiers may be written
in any script: they start with `XID_Start` and go on with `XID_Continue` of the Unicode standard,
which differ from letters, digits and marks in a few characters.
-/

namespace JakartaCheck.Java

/-- Letters that do not start a word: letters in circles, and those that a compatibility form takes
apart. -/
def unfitLetterRuns : List (Nat × Nat) :=
  [(0x37A, 0x37A), (0xE33, 0xE33), (0xEB3, 0xEB3), (0x24B6, 0x24E9), (0x2E2F, 0x2E2F),
    (0xFC5E, 0xFC63), (0xFDFA, 0xFDFB), (0xFE70, 0xFE70), (0xFE72, 0xFE72), (0xFE74, 0xFE74),
    (0xFE76, 0xFE76), (0xFE78, 0xFE78), (0xFE7A, 0xFE7A), (0xFE7C, 0xFE7C), (0xFE7E, 0xFE7E),
    (0xFF9E, 0xFF9F), (0x1F130, 0x1F149), (0x1F150, 0x1F169), (0x1F170, 0x1F189)]

/-- Characters that start a word although they are no letters. -/
def furtherStartRuns : List (Nat × Nat) := [(0x1885, 0x1886), (0x2118, 0x2118), (0x212E, 0x212E)]

/-- Is the character outside ASCII? No run of the tables starts before. -/
def isForeign (c : Char) : Bool := 128 ≤ c.toNat

/-- May a word start with `c`? -/
def startsWord (c : Char) : Bool :=
  c.isAlpha || c == '_' || c == '$' || (isForeign c &&
    ((Text.isLetter c && !Text.inRuns unfitLetterRuns c) || Text.inRuns furtherStartRuns c))

/-- The decimal digits outside ASCII. -/
def digitRuns : List (Nat × Nat) :=
  [(0x660, 0x669), (0x6F0, 0x6F9), (0x7C0, 0x7C9), (0x966, 0x96F), (0x9E6, 0x9EF),
    (0xA66, 0xA6F), (0xAE6, 0xAEF), (0xB66, 0xB6F), (0xBE6, 0xBEF), (0xC66, 0xC6F),
    (0xCE6, 0xCEF), (0xD66, 0xD6F), (0xDE6, 0xDEF), (0xE50, 0xE59), (0xED0, 0xED9),
    (0xF20, 0xF29), (0x1040, 0x1049), (0x1090, 0x1099), (0x1369, 0x1371), (0x17E0, 0x17E9),
    (0x1810, 0x1819), (0x1946, 0x194F), (0x19D0, 0x19DA), (0x1A80, 0x1A89), (0x1A90, 0x1A99),
    (0x1B50, 0x1B59), (0x1BB0, 0x1BB9), (0x1C40, 0x1C49), (0x1C50, 0x1C59), (0xA620, 0xA629),
    (0xA8D0, 0xA8D9), (0xA900, 0xA909), (0xA9D0, 0xA9D9), (0xA9F0, 0xA9F9), (0xAA50, 0xAA59),
    (0xABF0, 0xABF9), (0xFF10, 0xFF19), (0x104A0, 0x104A9), (0x10D30, 0x10D39),
    (0x11066, 0x1106F), (0x110F0, 0x110F9), (0x11136, 0x1113F), (0x111D0, 0x111D9),
    (0x112F0, 0x112F9), (0x11450, 0x11459), (0x114D0, 0x114D9), (0x11650, 0x11659),
    (0x116C0, 0x116C9), (0x11730, 0x11739), (0x118E0, 0x118E9), (0x11950, 0x11959),
    (0x11C50, 0x11C59), (0x11D50, 0x11D59), (0x11DA0, 0x11DA9), (0x11F50, 0x11F59),
    (0x16A60, 0x16A69), (0x16AC0, 0x16AC9), (0x16B50, 0x16B59), (0x1D7CE, 0x1D7FF),
    (0x1E140, 0x1E149), (0x1E2F0, 0x1E2F9), (0x1E4F0, 0x1E4F9), (0x1E950, 0x1E959),
    (0x1FBF0, 0x1FBF9)]

/-- Marks around a character, and formatting marks, which stand in no word. -/
def unfitMarkRuns : List (Nat × Nat) :=
  [(0x488, 0x489), (0x1ABE, 0x1ABE), (0x200C, 0x200C), (0x20DD, 0x20E0), (0x20E2, 0x20E4),
    (0xA670, 0xA672), (0xE0020, 0xE007F)]

/-- The joining lines, such as `‿`, the cent sign, and others that stand in words but do not start
them. -/
def joinerRuns : List (Nat × Nat) :=
  [(0xA2, 0xA2), (0xB7, 0xB7), (0x387, 0x387), (0xE33, 0xE33), (0xEB3, 0xEB3), (0x203F, 0x2040),
    (0x2054, 0x2054), (0xFE33, 0xFE34), (0xFE4D, 0xFE4F), (0xFF3F, 0xFF3F), (0xFF9E, 0xFF9F)]

/-- May `c` stand in a word? -/
def continuesWord (c : Char) : Bool :=
  startsWord c || c.isDigit || (isForeign c &&
    (Text.inRuns digitRuns c || (Text.isMark c && !Text.inRuns unfitMarkRuns c) ||
      Text.inRuns joinerRuns c))

end JakartaCheck.Java
