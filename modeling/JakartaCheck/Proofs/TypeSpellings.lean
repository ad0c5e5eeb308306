import JakartaCheck.Proofs.DottedNames
import Mathlib.Data.List.Basic

/-!
# Spellings of types

A type is written as names with points between them, type arguments behind any of the names, and array
marks behind the last (`TypeText.Spelling`). White space can stand between all of these parts
(`TypeText.Spaced`). However the type is spelled, erasing it leaves the names with points between them
and simplifying it the last name, so that it denotes what the bare dotted name denotes
(`TypeText.erase_spelled`).
-/

namespace JakartaCheck

namespace CompilationUnit

/-! ### The characters of dotted names -/

theorem toList_dotted (a b : String) : (a ++ "." ++ b).toList = a.toList ++ '.' :: b.toList := by
  have point : ".".toList = ['.'] := by decide
  rw [String.toList_append, String.toList_append, point, List.append_assoc, List.singleton_append]

theorem toList_dotted_cons (first : String) (rest : List String) : (dotted (first :: rest)).toList =
    first.toList ++ rest.flatMap fun name => '.' :: name.toList := by
  induction rest generalizing first with
  | nil => simp [dotted]
  | cons name rest ih =>
    have whole : dotted (first :: name :: rest) = first ++ "." ++ dotted (name :: rest) :=
      String.intercalate_cons_cons
    rw [whole, toList_dotted, ih, List.flatMap_cons, List.cons_append]

end CompilationUnit

namespace TypeText

open Text Java

/-! ### Balanced brackets -/

/-- Every angle bracket is closed again. -/
inductive Balanced : List Char → Prop
  | nil : Balanced []
  | plain {c : Char} {cs : List Char} (hc : c ≠ '<' ∧ c ≠ '>') (more : Balanced cs) :
      Balanced (c :: cs)
  | nested {inner cs : List Char} (hinner : Balanced inner) (more : Balanced cs) :
      Balanced ('<' :: (inner ++ '>' :: cs))

theorem outsideBrackets_plain {depth : Nat} {c : Char} (hc : c ≠ '<' ∧ c ≠ '>') (cs : List Char) :
    outsideBrackets depth (c :: cs) =
      if depth = 0 then c :: outsideBrackets depth cs else outsideBrackets depth cs :=
  outsideBrackets.eq_4 depth c cs (fun h => hc.1 h) (fun h => hc.2 h)

/-- Inside brackets, balanced text is passed over at the same depth. -/
theorem Balanced.outsideBrackets {inner : List Char} (h : Balanced inner) (depth : Nat)
    (cs : List Char) :
    outsideBrackets (depth + 1) (inner ++ cs) = outsideBrackets (depth + 1) cs := by
  induction h generalizing depth cs with
  | nil => rfl
  | plain hc _ ih => rw [List.cons_append, outsideBrackets_plain hc, if_neg depth.succ_ne_zero, ih]
  | nested _ _ ihInner ih =>
    rw [List.cons_append, List.append_assoc, List.cons_append, TypeText.outsideBrackets, ihInner,
      TypeText.outsideBrackets, Nat.add_sub_cancel, ih]

theorem dropBlanks_nested (inner cs : List Char) : dropBlanks ('<' :: (inner ++ '>' :: cs)) =
    '<' :: (dropBlanks inner ++ '>' :: dropBlanks cs) := by
  have solid : isBlank '<' = false ∧ isBlank '>' = false := by decide
  simp [dropBlanks, solid]

theorem Balanced.dropBlanks {cs : List Char} (h : Balanced cs) : Balanced (dropBlanks cs) := by
  induction h with
  | nil => exact .nil
  | @plain c cs hc _ ih =>
    rw [Text.dropBlanks, List.filter_cons]
    split
    · exact .plain hc ih
    · exact ih
  | nested _ _ ihInner ih =>
    rw [dropBlanks_nested]
    exact .nested ihInner ih

/-- What stands outside of brackets in a text that has none. -/
theorem outsideBrackets_append {front : List Char} (h : ∀ c ∈ front, c ≠ '<' ∧ c ≠ '>')
    (cs : List Char) : outsideBrackets 0 (front ++ cs) = front ++ outsideBrackets 0 cs := by
  induction front with
  | nil => rfl
  | cons c front ih =>
    obtain ⟨hc, hfront⟩ := List.forall_mem_cons.1 h
    rw [List.cons_append, outsideBrackets_plain hc, if_pos rfl, ih hfront, List.cons_append]

/-! ### Marks at the end -/

/-- So many pairs of square brackets. -/
def squares (dims : Nat) : List Char := (List.replicate dims ['[', ']']).flatten

def dots : List Char := ['.', '.', '.']

theorem stripBackAll_append {piece : List Char} (ne : piece ≠ []) (cs : List Char) :
    stripBackAll piece (cs ++ piece) = stripBackAll piece cs := by
  have ends : piece.reverse.isPrefixOf (cs ++ piece).reverse ∧ (cs ++ piece).reverse ≠ [] := by
    simp [ne, List.isPrefixOf_iff_prefix]
  have step : stripFrontAll piece.reverse (cs ++ piece).reverse =
      stripFrontAll piece.reverse cs.reverse := by
    rw [stripFrontAll, if_neg (by simpa using ne), dif_pos ends, List.reverse_append, List.drop_left]
  rw [stripBackAll, step, stripBackAll]

/-- Nothing is dropped from an end that the piece does not end with. -/
theorem stripBackAll_eq_self {piece cs : List Char} (last : Char)
    (hpiece : piece.getLast? = some last) (hcs : cs.getLast? ≠ some last) :
    stripBackAll piece cs = cs := by
  have hno : ¬ (piece.reverse.isPrefixOf cs.reverse ∧ cs.reverse ≠ []) := by
    rintro ⟨hpre, -⟩
    obtain ⟨back, hback⟩ := List.isPrefixOf_iff_prefix.1 hpre
    refine hcs ?_
    rw [← List.head?_reverse, ← hback, List.head?_append, List.head?_reverse, hpiece]
    rfl
  rw [stripBackAll, stripFrontAll, dif_neg hno]
  split <;> exact List.reverse_reverse cs

theorem squares_succ (dims : Nat) : squares (dims + 1) = squares dims ++ ['[', ']'] := by
  rw [squares, List.replicate_succ', List.flatten_concat, squares]

theorem stripBackAll_squares (dims : Nat) (cs : List Char) :
    stripBackAll ['[', ']'] (cs ++ squares dims) = stripBackAll ['[', ']'] cs := by
  induction dims with
  | zero => rw [squares, List.replicate_zero, List.flatten_nil, List.append_nil]
  | succ dims ih => rw [squares_succ, ← List.append_assoc, stripBackAll_append (by decide), ih]

/-! ### Spellings -/

/-- A name of a type as it is written, with what stands between the brackets of its type arguments if
it has any. -/
structure Segment where
  name : String
  word : IsWord name
  arguments : Option (List Char)
  balanced : ∀ inner ∈ arguments, Balanced inner

/-- A type as it is written: its names, how many pairs of square brackets follow, and whether an
ellipsis does. -/
structure Spelling where
  first : Segment
  rest : List Segment
  dims : Nat
  variadic : Bool

def Segment.tokens (s : Segment) : List (List Char) :=
  s.name.toList :: s.arguments.toList.map fun inner => '<' :: (inner ++ ['>'])

namespace Spelling

/-- The parts that white space can stand between. -/
def tokens (s : Spelling) : List (List Char) :=
  s.first.tokens ++ s.rest.flatMap (fun segment => ['.'] :: segment.tokens) ++
    (List.replicate s.dims [['['], [']']]).flatten ++ if s.variadic then [dots] else []

def names (s : Spelling) : List String := s.first.name :: s.rest.map (·.name)

/-- The names with points between them. -/
def dottedName (s : Spelling) : String := CompilationUnit.dotted s.names

def lastName (s : Spelling) : String := s.names.getLast (List.cons_ne_nil _ _)

end Spelling

/-- The text has the tokens with white space around them. -/
inductive Spaced : List (List Char) → List Char → Prop
  | done (gap : List Char) (blank : gap.all isBlank) : Spaced [] gap
  | token {token text : List Char} {tokens : List (List Char)} (gap : List Char)
      (blank : gap.all isBlank) (more : Spaced tokens text) :
      Spaced (token :: tokens) (gap ++ (token ++ text))

theorem dropBlanks_append (a b : List Char) : dropBlanks (a ++ b) = dropBlanks a ++ dropBlanks b :=
  List.filter_append a b

theorem dropBlanks_gap {gap : List Char} (h : gap.all isBlank) : dropBlanks gap = [] := by
  rw [dropBlanks, List.filter_eq_nil_iff]
  exact fun c hc => by simp [List.all_eq_true.1 h c hc]

theorem Spaced.dropBlanks {tokens : List (List Char)} {text : List Char} (h : Spaced tokens text) :
    dropBlanks text = tokens.flatMap dropBlanks := by
  induction h with
  | done _ blank => exact dropBlanks_gap blank
  | token gap blank _ ih =>
    rw [dropBlanks_append, dropBlanks_append, dropBlanks_gap blank, ih, List.nil_append,
      List.flatMap_cons]

theorem Spaced.of_tokens (tokens : List (List Char)) : Spaced tokens tokens.flatten := by
  induction tokens with
  | nil => exact .done [] rfl
  | cons token tokens ih => exact .token [] rfl ih

/-! ### Erasing a spelling -/

/-- Of a name and its type arguments, only the name stands outside of brackets. -/
theorem Segment.outsideBrackets_tokens (s : Segment) (cs : List Char) :
    outsideBrackets 0 (s.tokens.flatMap dropBlanks ++ cs) =
      s.name.toList ++ outsideBrackets 0 cs := by
  have openMark : '<' ∉ s.name.toList := s.word.not_mem (by decide) (by decide)
  have closeMark : '>' ∉ s.name.toList := s.word.not_mem (by decide) (by decide)
  have plain : ∀ c ∈ s.name.toList, c ≠ '<' ∧ c ≠ '>' := fun c hc =>
    ⟨fun h => openMark (h ▸ hc), fun h => closeMark (h ▸ hc)⟩
  rw [tokens, List.flatMap_cons, List.append_assoc, s.word.dropBlanks_eq,
    outsideBrackets_append plain]
  cases arguments : s.arguments with
  | none => rfl
  | some inner =>
    have balanced := (s.balanced inner arguments).dropBlanks
    rw [Option.toList_some, List.map_singleton, List.flatMap_singleton, dropBlanks_nested,
      List.cons_append, List.append_assoc, List.cons_append, outsideBrackets,
      balanced.outsideBrackets, outsideBrackets]
    rfl

namespace Spelling

variable (s : Spelling)

/-- The characters of the dotted name. -/
def nameChars : List Char :=
  s.first.name.toList ++ s.rest.flatMap fun segment => '.' :: segment.name.toList

theorem toList_dottedName : s.dottedName.toList = s.nameChars := by
  rw [dottedName, names, CompilationUnit.toList_dotted_cons, List.flatMap_map, nameChars]

theorem outsideBrackets_rest (rest : List Segment) (cs : List Char) :
    outsideBrackets 0 ((rest.flatMap fun segment => ['.'] :: segment.tokens).flatMap dropBlanks ++ cs) =
      (rest.flatMap fun segment => '.' :: segment.name.toList) ++ outsideBrackets 0 cs := by
  have point : dropBlanks ['.'] = ['.'] := by decide
  induction rest with
  | nil => rfl
  | cons segment rest ih =>
    rw [List.flatMap_cons, List.flatMap_cons, List.flatMap_append, List.flatMap_cons, point,
      List.append_assoc, List.append_assoc, outsideBrackets_append (by simp),
      segment.outsideBrackets_tokens, ih]
    simp

theorem outsideBrackets_marks (dims : Nat) (variadic : Bool) :
    outsideBrackets 0 (((List.replicate dims [['['], [']']]).flatten ++
        if variadic then [dots] else []).flatMap dropBlanks) =
      squares dims ++ if variadic then dots else [] := by
  have single : dropBlanks ['['] = ['['] ∧ dropBlanks [']'] = [']'] := by decide
  induction dims with
  | zero => cases variadic <;> decide
  | succ dims ih =>
    simp only [List.replicate_succ, List.flatten_cons, List.cons_append, List.nil_append,
      List.flatMap_cons, single]
    rw [outsideBrackets_plain (by decide), if_pos rfl, outsideBrackets_plain (by decide), if_pos rfl,
      ih]
    rfl

theorem outsideBrackets_tokens : outsideBrackets 0 (s.tokens.flatMap dropBlanks) =
    s.nameChars ++ squares s.dims ++ if s.variadic then dots else [] := by
  rw [tokens, List.append_assoc, List.append_assoc, List.flatMap_append, List.flatMap_append,
    s.first.outsideBrackets_tokens, outsideBrackets_rest, outsideBrackets_marks, nameChars,
    List.append_assoc, List.append_assoc]

/-- The dotted name ends in a character of its last name. -/
theorem exists_last : ∃ (front : List Char) (segment : Segment),
    s.nameChars = front ++ segment.name.toList ∧ s.lastName = segment.name ∧
      (front = [] ∨ ∃ before, front = before ++ ['.']) := by
  rcases s.rest.eq_nil_or_concat with none | ⟨init, last, some⟩
  · exact ⟨[], s.first, by simp [nameChars, none], by simp [lastName, names, none], .inl rfl⟩
  · refine ⟨s.first.name.toList ++ (init.flatMap fun segment => '.' :: segment.name.toList) ++ ['.'],
      last, ?_, ?_, .inr ⟨_, rfl⟩⟩
    · simp [nameChars, some]
    · have split : s.names = s.first.name :: init.map (·.name) ++ [last.name] := by
        simp [names, some]
      simp only [lastName, split, List.getLast_concat]

theorem getLast?_nameChars {mark : Char} (ascii : mark.toNat < 128)
    (no : (mark.isAlpha || mark == '_' || mark == '$' || mark.isDigit) = false) :
    s.nameChars.getLast? ≠ some mark := by
  obtain ⟨front, segment, eq, -, -⟩ := s.exists_last
  intro last
  rw [eq, List.getLast?_append, List.getLast?_eq_some_getLast segment.word.1, Option.some_or] at last
  obtain rfl := Option.some.inj last
  exact segment.word.not_mem ascii no (List.getLast_mem segment.word.1)

theorem afterLast_nameChars : Text.afterLast '.' s.nameChars = s.lastName.toList := by
  obtain ⟨front, segment, eq, last, start⟩ := s.exists_last
  have noPoint := segment.word.not_point_mem
  rw [eq, last]
  rcases start with rfl | ⟨before, rfl⟩
  · exact afterLast_of_not_mem noPoint
  · rw [List.append_assoc, List.singleton_append, afterLast_append noPoint]

/-- The marks behind the name are dropped from its end, first the ellipsis and then the brackets. -/
theorem stripBackAll_marks : stripBackAll ['[', ']'] (stripBackAll dots
    (s.nameChars ++ squares s.dims ++ if s.variadic then dots else [])) = s.nameChars := by
  have noPoint : (s.nameChars ++ squares s.dims).getLast? ≠ some '.' := by
    cases s.dims with
    | zero => simpa [squares] using @s.getLast?_nameChars '.' (by decide) (by decide)
    | succ dims =>
      rw [squares_succ, ← List.append_assoc]
      simp
  have dotless : stripBackAll dots (s.nameChars ++ squares s.dims) = s.nameChars ++ squares s.dims :=
    stripBackAll_eq_self '.' rfl noPoint
  have bare : stripBackAll ['[', ']'] (s.nameChars ++ squares s.dims) = s.nameChars := by
    rw [stripBackAll_squares,
      stripBackAll_eq_self ']' rfl (s.getLast?_nameChars (by decide) (by decide))]
  split
  · rw [stripBackAll_append (by decide), dotless, bare]
  · rw [List.append_nil, dotless, bare]

theorem erase_of_spaced {text : String} (h : Spaced s.tokens text.toList) :
    erase text = s.dottedName := by
  refine String.toList_injective ?_
  rw [toList_dottedName, erase, h.dropBlanks, outsideBrackets_tokens, String.toList_ofList]
  exact s.stripBackAll_marks

end Spelling

/-! ### Names alone -/

/-- A name without type arguments. -/
def Segment.plain (name : { name : String // IsWord name }) : Segment := ⟨name.1, name.2, none, nofun⟩

/-- Names with points between them, and nothing else. -/
def Spelling.plain (first : { name : String // IsWord name })
    (rest : List { name : String // IsWord name }) : Spelling :=
  ⟨.plain first, rest.map .plain, 0, false⟩

theorem Spelling.tokens_plain (first : { name : String // IsWord name })
    (rest : List { name : String // IsWord name }) :
    (plain first rest).tokens.flatten = (plain first rest).nameChars := by
  have tail : ((rest.map Segment.plain).flatMap fun segment => ['.'] :: segment.tokens).flatten =
      (rest.map Segment.plain).flatMap fun segment => '.' :: segment.name.toList := by
    induction rest with
    | nil => rfl
    | cons name rest ih =>
      rw [List.map_cons, List.flatMap_cons, List.flatten_append, ih]
      simp [Segment.plain, Segment.tokens]
  simp only [plain, tokens, nameChars, List.flatten_append, tail]
  simp [Segment.plain, Segment.tokens]

/-- Nothing is erased from words with points between them. -/
theorem erase_dotted {name : String} {rest : List String} (word : IsWord name)
    (words : ∀ n ∈ rest, IsWord n) :
    erase (CompilationUnit.dotted (name :: rest)) = CompilationUnit.dotted (name :: rest) := by
  have names : (Spelling.plain ⟨name, word⟩ (rest.attachWith IsWord words)).dottedName =
      CompilationUnit.dotted (name :: rest) := by
    simp [Spelling.dottedName, Spelling.names, Spelling.plain, Segment.plain, Function.comp_def]
  have spaced := Spaced.of_tokens (Spelling.plain ⟨name, word⟩ (rest.attachWith IsWord words)).tokens
  rw [Spelling.tokens_plain, ← Spelling.toList_dottedName] at spaced
  rw [← names, Spelling.erase_of_spaced _ spaced]

theorem clean_dotted {name : String} {rest : List String} (word : IsWord name)
    (words : ∀ n ∈ rest, IsWord n) :
    clean (CompilationUnit.dotted (name :: rest)) = CompilationUnit.dotted (name :: rest) := by
  have tail : dropBlanks (rest.flatMap fun n => '.' :: n.toList) =
      rest.flatMap fun n => '.' :: n.toList := by
    rw [dropBlanks, List.filter_flatMap]
    refine List.flatMap_congr fun n hn => ?_
    rw [List.filter_cons_of_pos (by decide)]
    exact congrArg _ (words n hn).dropBlanks_eq
  refine String.toList_injective ?_
  rw [clean, String.toList_ofList, CompilationUnit.toList_dotted_cons, dropBlanks_append,
    word.dropBlanks_eq, tail]

end TypeText

namespace Java

theorem exists_words {name : String} (h : isDottedName name) : ∃ first rest, IsWord first ∧
    (∀ n ∈ rest, IsWord n) ∧ name = CompilationUnit.dotted (first :: rest) := by
  obtain ⟨first, rest, parts, spelled⟩ := exists_parts h
  refine ⟨String.ofList first, rest.map String.ofList,
    isWord_of_isIdentifier (parts first (by simp)), ?_, String.toList_injective ?_⟩
  · intro n hn
    obtain ⟨part, hpart, rfl⟩ := List.mem_map.1 hn
    exact isWord_of_isIdentifier (parts part (List.mem_cons_of_mem _ hpart))
  · rw [spelled, CompilationUnit.toList_dotted_cons]
    simp [List.flatMap_map]

theorem erase_eq_self {name : String} (h : isDottedName name) : TypeText.erase name = name := by
  obtain ⟨first, rest, word, words, rfl⟩ := exists_words h
  exact TypeText.erase_dotted word words

theorem clean_eq_self {name : String} (h : isDottedName name) : TypeText.clean name = name := by
  obtain ⟨first, rest, word, words, rfl⟩ := exists_words h
  exact TypeText.clean_dotted word words

end Java

namespace TypeText

open Text Java

/-! ### Types as they are spelled -/

theorem resolve?_eq_of_erase_eq (unit : CompilationUnit) {written written' : String}
    (h : erase written = erase written') : unit.resolve? written = unit.resolve? written' := by
  unfold CompilationUnit.resolve?
  rw [h]

/-- However a type is spelled, erasing it leaves its names with points between them and simplifying
it leaves the last of them. It denotes what its names alone denote. -/
theorem erase_spelled {s : Spelling} {text : String} (h : Spaced s.tokens text.toList) :
    erase text = s.dottedName ∧ simplify text = s.lastName ∧
      ∀ unit : CompilationUnit, unit.resolve? text = unit.resolve? s.dottedName := by
  have erased := s.erase_of_spaced h
  have words : ∀ n ∈ s.rest.map (·.name), IsWord n := by
    intro n hn
    obtain ⟨segment, -, rfl⟩ := List.mem_map.1 hn
    exact segment.word
  refine ⟨erased, ?_, fun unit => resolve?_eq_of_erase_eq unit ?_⟩
  · rw [simplify, erased, lastName, s.toList_dottedName, s.afterLast_nameChars, String.ofList_toList]
  · rw [erased]
    exact (erase_dotted s.first.word words).symm

/-- An array of maps, as the type of a parameter that takes several. -/
def manyMaps : Spelling where
  first := ⟨"java", by decide +kernel, none, nofun⟩
  rest := [⟨"Map", by decide +kernel, some "K<V>,V".toList, by
    rintro _ ⟨⟩
    exact .plain (by decide) (@Balanced.nested ['V'] [',', 'V'] (.plain (by decide) .nil)
      (.plain (by decide) (.plain (by decide) .nil)))⟩]
  dims := 1
  variadic := true

/-- With white space at all places where it can stand. -/
theorem erase_spelled_many_maps :
    Spaced manyMaps.tokens " java\t.\nMap <K<V>,V> [ ]...".toList ∧
      erase " java\t.\nMap <K<V>,V> [ ]..." = "java.Map" ∧
      simplify " java\t.\nMap <K<V>,V> [ ]..." = "Map" := by
  have spaced : Spaced manyMaps.tokens " java\t.\nMap <K<V>,V> [ ]...".toList :=
    .token [' '] (by decide) (.token ['\t'] (by decide) (.token ['\n'] (by decide)
      (.token [' '] (by decide) (.token [' '] (by decide) (.token [' '] (by decide)
        (.token [] (by decide) (.done [] (by decide))))))))
  obtain ⟨erased, simple, -⟩ := erase_spelled spaced
  exact ⟨spaced, erased, simple⟩

end TypeText

end JakartaCheck
