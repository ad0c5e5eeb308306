import JakartaCheck.Java.Token

/-!
# Grammars

A `Phrase` describes a piece of a source: tokens, sequences, ordered choices, repetition, and the
nodes and field names of the tree to build. `Phrase.run` matches a phrase against tokens and builds
the nodes; the first alternative that fits is taken. Binary operators, dotted names and the like
nest to the left, so `chain` lets a phrase grow: what was read so far becomes the first child of
the next node.

A run carries fuel, a bound on the depth of its calls; `parse` supplies a multiple of the number of
tokens.
-/

namespace JakartaCheck.Java

/-- Which tokens a phrase accepts. -/
inductive Pattern where
  /-- The word or mark with that text. -/
  | text (s : String)
  /-- Any word but the listed ones. -/
  | word (except : List String)
  | literal (form : Form)
deriving Repr

def Pattern.accepts : Pattern → Shape → Bool
  | .text s, .word t => s == t
  | .text s, .mark t => s == t
  | .word except, .word t => !except.contains t
  | .literal f, .literal g => f == g
  | _, _ => false

/-- A piece of a source; `σ` are the names of the rules it may refer to. -/
inductive Phrase (σ : Type) where
  | empty
  /-- A token that becomes a leaf of that kind. -/
  | token (kind : Kind) (pattern : Pattern)
  /-- Several tokens with nothing between them, which together make one bare token. -/
  | glued (parts : List String)
  | seq (first second : Phrase σ)
  /-- The second only if the first does not fit. -/
  | alt (first second : Phrase σ)
  /-- As often as it fits. -/
  | many (item : Phrase σ)
  /-- Reads nothing; fits where `item` does not. -/
  | absent (item : Phrase σ)
  | field (label : Field) (item : Phrase σ)
  | node (form : Form) (item : Phrase σ)
  | rule (target : σ)
  /-- `base`, then the first step that fits; both end up in the node of the step. -/
  | fork (base : Phrase σ) (steps : List (Form × Option Field × Phrase σ))
  /-- `base`, then steps as long as one fits; each node takes in what was read before. -/
  | chain (base : Phrase σ) (steps : List (Form × Option Field × Phrase σ))

namespace Phrase

variable {σ : Type}

instance : Coe String (Phrase σ) := ⟨fun s => .token (.token s) (.text s)⟩

/-- All of the phrases, one after the other. -/
def all : List (Phrase σ) → Phrase σ
  | [] => .empty
  | [p] => p
  | p :: ps => .seq p (all ps)

/-- The first of the phrases that fits. -/
def any : List (Phrase σ) → Phrase σ
  | [] => .absent .empty
  | [p] => p
  | p :: ps => .alt p (any ps)

def opt (p : Phrase σ) : Phrase σ := .alt p .empty

def many1 (p : Phrase σ) : Phrase σ := .seq p (.many p)

/-- One or more, with commas between them. -/
def commaSep1 (p : Phrase σ) : Phrase σ := .seq p (.many (.seq "," p))

def commaSep (p : Phrase σ) : Phrase σ := opt (commaSep1 p)

/-- A named leaf for a word or mark with a fixed text. -/
def leaf (form : Form) (text : String) : Phrase σ := .token (.form form) (.text text)

/-- The tokens of `parts`, without comments or gaps between them; `stop` is where the next one has
to start. -/
def takeGlued (stop : Nat) : List String → List Token → Option (Nat × List Token)
  | [], tokens => some (stop, tokens)
  | part :: parts, t :: tokens =>
    if (Pattern.text part).accepts t.shape && t.comments.isEmpty && t.span.start == stop then
      takeGlued t.span.stop parts tokens
    else none
  | _ :: _, [] => none

/-- The bare token that `parts` make together. -/
def runGlued (parts : List String) (tokens : List Token) : Option (List Node × List Token) :=
  match parts, tokens with
  | part :: parts, t :: tokens =>
    if (Pattern.text part).accepts t.shape then
      (takeGlued t.span.stop parts tokens).map fun (stop, rest) =>
        (t.comments ++
          [.mk (.token (String.join (part :: parts))) none ⟨t.span.start, stop⟩ []], rest)
    else none
  | _, _ => none

/-- Gives the items the field name, if there is one. -/
def named (label : Option Field) (items : List Node) : List Node :=
  match label with
  | some f => Node.setField f items
  | none => items

mutual

/-- Matches a phrase against the tokens in front. The result are the items read, comments
included, and the tokens that remain. -/
def run (rules : σ → Phrase σ) : Nat → Phrase σ → List Token → Option (List Node × List Token)
  | 0, _, _ => none
  | fuel + 1, p, tokens =>
    match p with
    | .empty => some ([], tokens)
    | .token kind pattern =>
      match tokens with
      | t :: rest =>
        if pattern.accepts t.shape then some (t.comments ++ [.mk kind none t.span []], rest)
        else none
      | [] => none
    | .glued parts => runGlued parts tokens
    | .seq first second =>
      match run rules fuel first tokens with
      | none => none
      | some (items, rest) =>
        match run rules fuel second rest with
        | none => none
        | some (more, rest) => some (items ++ more, rest)
    | .alt first second =>
      match run rules fuel first tokens with
      | some result => some result
      | none => run rules fuel second tokens
    | .many item =>
      match run rules fuel item tokens with
      | none => some ([], tokens)
      | some (items, rest) =>
        match run rules fuel (.many item) rest with
        | none => none
        | some (more, rest) => some (items ++ more, rest)
    | .absent item =>
      match run rules fuel item tokens with
      | none => some ([], tokens)
      | some _ => none
    | .field label item =>
      match run rules fuel item tokens with
      | none => none
      | some (items, rest) => some (Node.setField label items, rest)
    | .node form item =>
      match run rules fuel item tokens with
      | none => none
      | some (items, rest) => some (Node.enclose form items, rest)
    | .rule target => run rules fuel (rules target) tokens
    | .fork base steps =>
      match run rules fuel base tokens with
      | none => none
      | some (items, rest) => runStep rules fuel steps items rest
    | .chain base steps =>
      match run rules fuel base tokens with
      | none => none
      | some (items, rest) => grow rules fuel steps items rest

/-- Adds the first step that fits to the items read so far. -/
def runStep (rules : σ → Phrase σ) :
    Nat → List (Form × Option Field × Phrase σ) → List Node → List Token →
      Option (List Node × List Token)
  | 0, _, _, _ => none
  | _, [], _, _ => none
  | fuel + 1, (form, label, step) :: steps, items, tokens =>
    match run rules fuel step tokens with
    | some (more, rest) => some (Node.enclose form (named label items ++ more), rest)
    | none => runStep rules fuel steps items tokens

/-- Adds steps to the items read so far, as long as one fits. -/
def grow (rules : σ → Phrase σ) :
    Nat → List (Form × Option Field × Phrase σ) → List Node → List Token →
      Option (List Node × List Token)
  | 0, _, _, _ => none
  | fuel + 1, steps, items, tokens =>
    match runStep rules fuel steps items tokens with
    | none => some (items, tokens)
    | some (items, rest) => grow rules fuel steps items rest

end

/-- Calls that a run nests for each token it reads. -/
def depthPerToken : Nat := 400

/-- The tree of a text that is a sequence of `item`. -/
def parse (rules : σ → Phrase σ) (item : σ) (text : String) : Option Node :=
  match tokenize text with
  | none => none
  | some (tokens, last) =>
    match run rules (depthPerToken * (tokens.length + 2)) (.many (.rule item)) tokens with
    | some (items, []) =>
      some (.mk (.form .program) none ⟨0, Text.length text⟩ (items ++ last))
    | _ => none

end Phrase

end JakartaCheck.Java
