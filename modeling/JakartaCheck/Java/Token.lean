import JakartaCheck.Java.Node
import JakartaCheck.Java.Regex
import JakartaCheck.Java.Word
import JakartaCheck.Text.Bytes

/-!
# Tokens

`tokenize` reads a Java source into its tokens. Each token knows the comments in front of it, and
white space is dropped. A `>` is always a token of its own, since two of them may close two lists
of type arguments; operators made of several are put together by the grammar. Apart from that the
tokens do not depend on what the grammar expects, so that `@interface` is one mark wherever it
stands, also in front of the rest of a word.

String literals are read piece by piece: the quotes are tokens, and between them stand fragments,
escapes and, after `\` and a brace, embedded expressions.
-/

namespace JakartaCheck.Java

/-- What a token is. -/
inductive Shape where
  /-- An identifier or keyword. -/
  | word (text : String)
  /-- An operator, a bracket or another mark. -/
  | mark (text : String)
  /-- A literal, or a piece of a string literal. -/
  | literal (form : Form)
deriving DecidableEq, Repr

structure Token where
  /-- The comments between the token before and this one. -/
  comments : List Node
  shape : Shape
  span : Span
deriving Repr

/-! ### Numbers -/

def isHexDigit (c : Char) : Bool :=
  c.isDigit || ('a' ≤ c && c ≤ 'f') || ('A' ≤ c && c ≤ 'F')

def isOctalDigit (c : Char) : Bool := '0' ≤ c && c ≤ '7'

def isBinaryDigit (c : Char) : Bool := c == '0' || c == '1'

section Numbers

open Regex

/-- Digits in groups with one `_` between each two. -/
def grouped (isDigit : Char → Bool) : Regex := joined (many (one isDigit)) (oneOf ['_'])

def decimalDigits : Regex := grouped Char.isDigit

/-- A decimal number without a zero in front; more than one `_` may stand between its groups. -/
def wholeNumber : Regex :=
  either (oneOf ['0']) <| .seq (one fun c => c.isDigit && c != '0') <| optional <|
    .seq (optional (oneOf ['_'])) (joined (many (one Char.isDigit)) (many (oneOf ['_'])))

/-- A zero and one of the marks of a radix. -/
def radix (marks : List Char) : Regex := .seq (oneOf ['0']) (oneOf marks)

/-- One of `marks`, a sign or none, and digits. -/
def exponent (marks : List Char) (digits : Regex) : Regex :=
  chain [oneOf marks, optional (oneOf ['+', '-']), digits]

def longSuffix : Regex := optional (oneOf ['l', 'L'])

def floatSuffix : Regex := oneOf ['f', 'F', 'd', 'D']

def decimalFloat : Regex :=
  let tail := .seq (optional (exponent ['e', 'E'] decimalDigits)) (optional floatSuffix)
  either (chain [decimalDigits, oneOf ['.'], optional decimalDigits, tail]) <|
  either (chain [oneOf ['.'], decimalDigits, tail]) <|
  either
    (chain [wholeNumber, exponent ['e', 'E', 'p', 'P'] decimalDigits, optional floatSuffix])
    (chain [wholeNumber, optional (exponent ['e', 'E'] decimalDigits), floatSuffix])

def hexFloat : Regex :=
  let digits := grouped isHexDigit
  chain [radix ['x', 'X'],
    either (.seq digits (optional (oneOf ['.'])))
      (chain [optional digits, oneOf ['.'], digits]),
    optional (.seq (exponent ['e', 'E', 'p', 'P'] wholeNumber) (optional floatSuffix))]

/-- The forms of numbers. -/
def numberForms : List (Form × Regex) :=
  [(.decimalIntegerLiteral, .seq wholeNumber longSuffix),
    (.hexIntegerLiteral, chain [radix ['x', 'X'], grouped isHexDigit, longSuffix]),
    (.octalIntegerLiteral,
      chain [oneOf ['0'], optional (oneOf ['o', 'O']), grouped isOctalDigit, longSuffix]),
    (.binaryIntegerLiteral, chain [radix ['b', 'B'], grouped isBinaryDigit, longSuffix]),
    (.decimalFloatingPointLiteral, decimalFloat),
    (.hexFloatingPointLiteral, hexFloat)]

end Numbers

/-- The number that starts the characters, and its length: the longest, and the first form among
those of one length. -/
def scanNumber (cs : List Char) : Option (Form × Nat) :=
  numberForms.foldl (fun best (form, regex) =>
    match regex.longest cs, best with
    | some length, some (_, most) => if most < length then some (form, length) else best
    | some length, none => some (form, length)
    | none, _ => best) none

/-! ### Marks, comments and characters -/

/-- The marks of more than one character; a longer one comes before its beginnings. -/
def longMarks : List String :=
  ["\"\"\"", "@interface", "...", "<<=", "->", "::", "++", "--", "&&", "||", "==", "!=", "<=",
    "<<", "+=", "-=", "*=", "/=", "&=", "|=", "^=", "%="]

/-- The marks of one character. -/
def shortMarks : List Char :=
  ['(', ')', '\x7b', '\x7d', '[', ']', ';', ',', '.', '@', '=', '<', '>', '!', '~', '?', ':',
    '+', '-', '*', '/', '&', '|', '^', '%', '"']

/-- Length of a block comment after its first two characters, if it is closed. -/
def blockCommentLength : List Char → Option Nat
  | '*' :: '/' :: _ => some 2
  | _ :: cs => (blockCommentLength cs).map (· + 1)
  | [] => none

/-- Length of the rest of a character literal, if it is closed on the line. -/
def characterLength : List Char → Option Nat
  | '\'' :: _ => some 1
  | '\n' :: _ => none
  | '\\' :: _ :: cs => (characterLength cs).map (· + 2)
  | _ :: cs => (characterLength cs).map (· + 1)
  | [] => none

/-- Length of a character literal after its first quote; it is not empty. -/
def scanCharacter (cs : List Char) : Option Nat :=
  if cs.head? == some '\'' then none else characterLength cs

/-- A token or a comment. -/
inductive Lexeme where
  | token (shape : Shape)
  | comment (form : Form)
deriving DecidableEq, Repr

/-- What starts with `c`, outside string literals: the lexeme, and how many of `cs` belong to
it. -/
def scanCode (c : Char) (cs : List Char) : Option (Lexeme × Nat) :=
  if startsWord c then
    let rest := cs.takeWhile continuesWord
    some (.token (.word (String.ofList (c :: rest))), rest.length)
  else if c.isDigit || (c == '.' && (cs.head?.getD ' ').isDigit) then
    (scanNumber (c :: cs)).map fun (form, length) => (.token (.literal form), length - 1)
  else if c == '\'' then
    (scanCharacter cs).map fun length => (.token (.literal .characterLiteral), length)
  else if c == '/' && cs.head? == some '/' then
    some (.comment .lineComment, (cs.takeWhile (· != '\n')).length)
  else if c == '/' && cs.head? == some '*' then
    (blockCommentLength (cs.drop 1)).map fun length => (.comment .blockComment, 1 + length)
  else
    match longMarks.find? fun mark => mark.toList.isPrefixOf (c :: cs) with
    | some mark => some (.token (.mark mark), mark.length - 1)
    | none =>
      if shortMarks.contains c then some (.token (.mark (String.singleton c)), 0) else none

/-! ### String literals -/

/-- Where the scanner is: in code, with so many braces open, or between the quotes of a string
literal or text block. -/
inductive Mode where
  | code (depth : Nat)
  | text (block : Bool)
deriving DecidableEq, Repr

/-- The mark that opens an embedded expression. -/
def holeMark : String := "\\\x7b"

/-- Length of an escape after its backslash. -/
def escapeLength : List Char → Nat
  | 'u' :: cs => 1 + (cs.takeWhile isHexDigit).length
  | 'x' :: cs => 1 + min 2 (cs.takeWhile isHexDigit).length
  | c :: cs =>
    if isOctalDigit c then 1 + min 2 (cs.takeWhile isOctalDigit).length else 1
  | [] => 0

/-- What starts with `c` between quotes, and how many of `cs` belong to it. -/
def scanText (block : Bool) (c : Char) (cs : List Char) : Shape × Nat :=
  if c == '"' && !block then (.mark "\"", 0)
  else if c == '"' && cs.take 2 == ['"', '"'] then (.mark "\"\"\"", 2)
  else if c == '\\' then
    if cs.head? == some '\x7b' then (.mark holeMark, 1)
    else (.literal .escapeSequence, escapeLength cs)
  else (.literal .stringFragment, (cs.takeWhile fun d => d != '"' && d != '\\').length)

/-- The modes after a token, the innermost first. -/
def modesAfter (modes : List Mode) (shape : Shape) : List Mode :=
  match modes, shape with
  | .code depth :: outer, .mark "\x7b" => .code (depth + 1) :: outer
  | .code 0 :: .text block :: outer, .mark "\x7d" => .text block :: outer
  | .code depth :: outer, .mark "\x7d" => .code (depth - 1) :: outer
  | .code depth :: outer, .mark "\"" => .text false :: .code depth :: outer
  | .code depth :: outer, .mark "\"\"\"" => .text true :: .code depth :: outer
  | .text block :: outer, .mark mark =>
    if mark = holeMark then .code 0 :: .text block :: outer else outer
  | modes, _ => modes

/-! ### The whole text -/

/-- White space between tokens. -/
def isGap (c : Char) : Bool :=
  c == ' ' || c == '\t' || c == '\n' || c == '\r' || c == '\x0b' || c == '\x0c'

/-- The tokens of the characters from offset `pos` on, and the comments after the last one;
`pending` holds the comments since the last token, the latest first. -/
def tokensFrom (pos : Nat) (modes : List Mode) (pending : List Node) :
    List Char → Option (List Token × List Node)
  | [] => some ([], pending.reverse)
  | c :: cs =>
    match modes with
    | .text block :: _ =>
      let (shape, length) := scanText block c cs
      let stop := pos + Text.byteLen (c :: cs.take length)
      (tokensFrom stop (modesAfter modes shape) [] (cs.drop length)).map fun (tokens, last) =>
        (⟨pending.reverse, shape, ⟨pos, stop⟩⟩ :: tokens, last)
    | _ =>
      if isGap c then tokensFrom (pos + c.utf8Size) modes pending cs
      else
        match scanCode c cs with
        | none => none
        | some (lexeme, length) =>
          let stop := pos + Text.byteLen (c :: cs.take length)
          match lexeme with
          | .comment form =>
            tokensFrom stop modes (.mk (.form form) none ⟨pos, stop⟩ [] :: pending)
              (cs.drop length)
          | .token shape =>
            (tokensFrom stop (modesAfter modes shape) [] (cs.drop length)).map
              fun (tokens, last) => (⟨pending.reverse, shape, ⟨pos, stop⟩⟩ :: tokens, last)
termination_by cs => cs.length
decreasing_by
  all_goals
    simp only [List.length_drop, List.length_cons]
    omega

/-- The tokens of a source, and the comments after the last one. A byte order mark in front is
skipped. -/
def tokenize (text : String) : Option (List Token × List Node) :=
  match text.toList with
  | '\uFEFF' :: cs => tokensFrom 3 [.code 0] [] cs
  | cs => tokensFrom 0 [.code 0] [] cs

end JakartaCheck.Java
