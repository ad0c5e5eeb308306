import JakartaCheck.Check.EndpointPath
import JakartaCheck.Check.JsonPointer
import JakartaCheck.Proofs.Cutting
import JakartaCheck.Proofs.TextSearch

/-!
# Pointers and paths

Two kinds of text are made of parts that each stand behind a slash. In a JSON pointer the parts are
escaped tokens, and every list of tokens is allowed (`isValid_iff_along`). In the path of an endpoint
the parts are segments, some of them variables in braces, and which lists of segments are allowed is
said by `IsTemplate` (`flaw?_eq_none_iff_template`).
-/

namespace JakartaCheck

namespace JsonPointer

/-! ### Pointers to tokens -/

/-- A character of a token, as pointers write it. -/
def escapeChar (c : Char) : List Char :=
  if c = '~' then ['~', '0'] else if c = '/' then ['~', '1'] else [c]

def escape (token : String) : List Char := token.toList.flatMap escapeChar

/-- The pointer that leads along the tokens. -/
def along (tokens : List String) : List Char := tokens.flatMap fun token => '/' :: escape token

theorem along_cons (token : String) (tokens : List String) :
    along (token :: tokens) = '/' :: (escape token ++ along tokens) := rfl

theorem escape_ofList_cons (c : Char) (token : String) :
    escape (String.ofList (c :: token.toList)) = escapeChar c ++ escape token := by
  rw [escape, String.toList_ofList, List.flatMap_cons]
  rfl

theorem tildesEscaped_cons {c : Char} (hc : c ≠ '~') (cs : List Char) :
    tildesEscaped (c :: cs) = tildesEscaped cs := by
  conv => lhs; unfold tildesEscaped
  split <;> simp_all

theorem tildesEscaped_escapeChar (c : Char) (cs : List Char) :
    tildesEscaped (escapeChar c ++ cs) = tildesEscaped cs := by
  unfold escapeChar
  by_cases htilde : c = '~'
  · rw [if_pos htilde]
    rfl
  · rw [if_neg htilde]
    by_cases hslash : c = '/'
    · rw [if_pos hslash]
      rfl
    · rw [if_neg hslash]
      exact tildesEscaped_cons htilde cs

theorem tildesEscaped_escape (token : String) (cs : List Char) :
    tildesEscaped (escape token ++ cs) = tildesEscaped cs := by
  unfold escape
  induction token.toList with
  | nil => rfl
  | cons c token ih => rw [List.flatMap_cons, List.append_assoc, tildesEscaped_escapeChar, ih]

theorem tildesEscaped_along (tokens : List String) : tildesEscaped (along tokens) := by
  induction tokens with
  | nil => rfl
  | cons token tokens ih =>
    rw [along_cons, tildesEscaped_cons (by decide), tildesEscaped_escape, ih]

/-- Behind its first slash, a pointer is an escaped token with further tokens behind it. -/
theorem exists_tokens_of_tildesEscaped {cs : List Char} (h : tildesEscaped cs) :
    ∃ token tokens, cs = escape token ++ along tokens := by
  fun_induction tildesEscaped cs with
  | case1 => exact ⟨"", [], rfl⟩
  | case2 cs ih =>
    obtain ⟨token, tokens, rfl⟩ := ih h
    exact ⟨String.ofList ('~' :: token.toList), tokens, by rw [escape_ofList_cons]; rfl⟩
  | case3 cs ih =>
    obtain ⟨token, tokens, rfl⟩ := ih h
    exact ⟨String.ofList ('/' :: token.toList), tokens, by rw [escape_ofList_cons]; rfl⟩
  | case4 => cases h
  | case5 c cs _ _ htilde ih =>
    obtain ⟨token, tokens, rfl⟩ := ih h
    by_cases hslash : c = '/'
    · subst hslash
      exact ⟨"", token :: tokens, rfl⟩
    · have hplain : escapeChar c = [c] := by rw [escapeChar, if_neg htilde, if_neg hslash]
      exact ⟨String.ofList (c :: token.toList), tokens, by rw [escape_ofList_cons, hplain]; rfl⟩

/-- The pointers are the texts that lead along some list of tokens. -/
theorem isValid_iff_along (value : String) :
    isValid value = true ↔ ∃ tokens : List String, value.toList = along tokens := by
  unfold isValid
  constructor
  · intro h
    split at h
    · rename_i hnil
      exact ⟨[], hnil⟩
    · rename_i c cs hcons
      obtain ⟨hc, hcs⟩ := Bool.and_eq_true_iff.1 h
      obtain ⟨token, tokens, rfl⟩ := exists_tokens_of_tildesEscaped hcs
      rw [hcons, beq_iff_eq.1 hc]
      exact ⟨token :: tokens, rfl⟩
  · rintro ⟨tokens, htokens⟩
    cases tokens with
    | nil =>
      rw [htokens]
      rfl
    | cons token tokens =>
      rw [htokens, along_cons]
      show ('/' == '/' && tildesEscaped (escape token ++ along tokens)) = true
      rw [tildesEscaped_escape, tildesEscaped_along]
      rfl

example : along ["a/b", "", "m~n"] = "/a~1b//m~0n".toList := by decide

end JsonPointer

namespace EndpointPath

/-! ### Paths and templates of endpoints -/

def BraceFree (cs : List Char) : Prop := '\x7b' ∉ cs ∧ '\x7d' ∉ cs

/-- The segment is a variable: a name in braces. -/
structure IsVariable (segment name : List Char) : Prop where
  written : segment = '\x7b' :: (name ++ ['\x7d'])
  named : name ≠ []
  plain : BraceFree name

/-- The segments make up a template, in which no variable occurs twice. -/
structure IsTemplate (segments : List (List Char)) : Prop where
  normal : ∀ s ∈ segments, s ≠ ['.'] ∧ s ≠ ['.', '.']
  whole : ∀ s ∈ segments, BraceFree s ∨ ∃ name, IsVariable s name
  distinct : segments.Pairwise fun s t => ∀ a b, IsVariable s a → IsVariable t b → a ≠ b

theorem isTemplate_nil : IsTemplate [] := ⟨nofun, nofun, .nil⟩

theorem isTemplate_cons {s : List Char} {rest : List (List Char)} : IsTemplate (s :: rest) ↔
    (s ≠ ['.'] ∧ s ≠ ['.', '.']) ∧ (BraceFree s ∨ ∃ name, IsVariable s name) ∧
      (∀ t ∈ rest, ∀ a b, IsVariable s a → IsVariable t b → a ≠ b) ∧ IsTemplate rest := by
  constructor
  · rintro ⟨hnormal, hwhole, hdistinct⟩
    obtain ⟨hnormal, hnormals⟩ := List.forall_mem_cons.1 hnormal
    obtain ⟨hwhole, hwholes⟩ := List.forall_mem_cons.1 hwhole
    obtain ⟨hdistinct, hdistincts⟩ := List.pairwise_cons.1 hdistinct
    exact ⟨hnormal, hwhole, hdistinct, hnormals, hwholes, hdistincts⟩
  · rintro ⟨hnormal, hwhole, hdistinct, hrest⟩
    exact ⟨List.forall_mem_cons.2 ⟨hnormal, hrest.normal⟩,
      List.forall_mem_cons.2 ⟨hwhole, hrest.whole⟩, List.pairwise_cons.2 ⟨hdistinct, hrest.distinct⟩⟩

theorem any_isBrace_eq_false_iff {cs : List Char} : cs.any isBrace = false ↔ BraceFree cs := by
  simp only [List.any_eq_false, isBrace, BraceFree]
  constructor
  · intro h
    refine ⟨fun hopen => ?_, fun hclose => ?_⟩
    · exact h _ hopen rfl
    · exact h _ hclose rfl
  · rintro ⟨hopen, hclose⟩ c hc hbrace
    rcases Bool.or_eq_true_iff.1 hbrace with h | h
    · exact hopen (beq_iff_eq.1 h ▸ hc)
    · exact hclose (beq_iff_eq.1 h ▸ hc)

theorem IsVariable.not_braceFree {s name : List Char} (h : IsVariable s name) : ¬ BraceFree s := by
  intro hfree
  exact hfree.1 (h.written ▸ List.mem_cons_self)

theorem IsVariable.unique {s a b : List Char} (ha : IsVariable s a) (hb : IsVariable s b) : a = b := by
  have heq := ha.written.symm.trans hb.written
  exact List.append_cancel_right (List.cons.inj heq).2

theorem templateName?_eq_some_iff {s name : List Char} :
    templateName? s = some name ↔ s = '\x7b' :: (name ++ ['\x7d']) := by
  unfold templateName?
  constructor
  · intro h
    obtain ⟨rest, hfront, hback⟩ := Option.bind_eq_some_iff.1 h
    unfold Text.stripFront at hfront
    unfold Text.stripBack at hback
    split at hfront
    case isFalse => cases hfront
    case isTrue hopen =>
      obtain ⟨tail, rfl⟩ := List.isPrefixOf_iff_prefix.1 hopen
      obtain rfl : tail = rest := Option.some.inj hfront
      split at hback
      case isFalse => cases hback
      case isTrue hclose =>
        obtain ⟨front, rfl⟩ := List.isSuffixOf_iff_suffix.1 hclose
        obtain rfl : front = name := by simpa using hback
        rfl
  · rintro rfl
    simp [Text.stripFront, Text.stripBack]

theorem IsVariable.templateName?_eq {s name : List Char} (h : IsVariable s name) :
    templateName? s = some name := templateName?_eq_some_iff.2 h.written

theorem isVariable_of_templateName? {s name : List Char} (h : templateName? s = some name)
    (hplain : ¬ (name.isEmpty || name.any isBrace) = true) : IsVariable s name := by
  rw [Bool.not_eq_true, Bool.or_eq_false_iff, List.isEmpty_eq_false_iff] at hplain
  exact ⟨templateName?_eq_some_iff.1 h, hplain.1, any_isBrace_eq_false_iff.1 hplain.2⟩

/-- What is asked of one segment when the variables `seen` stand in front of it. -/
theorem segmentsFlaw_cons_eq_none_iff {doubleSlash : Bool} {seen rest : List (List Char)}
    {s : List Char} : segmentsFlaw doubleSlash seen (s :: rest) = none ↔
      (s ≠ ['.'] ∧ s ≠ ['.', '.'] ∧ doubleSlash = false) ∧
        ((BraceFree s ∧ segmentsFlaw doubleSlash seen rest = none) ∨
          ∃ name, IsVariable s name ∧ name ∉ seen ∧
            segmentsFlaw doubleSlash (name :: seen) rest = none) := by
  have hnormal : ¬ (s == ['.'] || s == ['.', '.'] || doubleSlash) = true ↔
      s ≠ ['.'] ∧ s ≠ ['.', '.'] ∧ doubleSlash = false := by
    simp [and_assoc]
  constructor
  · intro h
    rw [segmentsFlaw] at h
    split at h
    · cases h
    rename_i hdots
    refine ⟨hnormal.1 hdots, ?_⟩
    split at h
    · rename_i hfree
      exact .inl ⟨any_isBrace_eq_false_iff.1 (by simpa using hfree), h⟩
    split at h
    · cases h
    rename_i name hname
    split at h
    · cases h
    rename_i hplain
    split at h
    · cases h
    rename_i hnew
    refine .inr ⟨name, isVariable_of_templateName? hname hplain, ?_, h⟩
    rwa [List.contains_iff_mem] at hnew
  · rintro ⟨hdots, ⟨hfree, h⟩ | ⟨name, hvar, hnew, h⟩⟩
    · rw [segmentsFlaw, if_neg (hnormal.2 hdots), any_isBrace_eq_false_iff.2 hfree]
      exact h
    · have hbrace : s.any isBrace = true := by
        rw [← Bool.not_eq_false]
        exact mt any_isBrace_eq_false_iff.1 hvar.not_braceFree
      have hplain : (name.isEmpty || name.any isBrace) = false := by
        rw [any_isBrace_eq_false_iff.2 hvar.plain, List.isEmpty_eq_false_iff.2 hvar.named]
        rfl
      rw [segmentsFlaw, if_neg (hnormal.2 hdots), hbrace, hvar.templateName?_eq]
      show (if (name.isEmpty || name.any isBrace) = true then some Flaw.partialVariable
        else if seen.contains name = true then some .repeatedVariable
        else segmentsFlaw doubleSlash (name :: seen) rest) = none
      rw [hplain, if_neg Bool.false_ne_true, if_neg (mt List.contains_iff_mem.1 hnew), h]

/-- Segments have no flaw exactly if they make up a template without the variables `seen`. -/
theorem segmentsFlaw_eq_none_iff {seen segments : List (List Char)} :
    segmentsFlaw false seen segments = none ↔
      IsTemplate segments ∧ ∀ s ∈ segments, ∀ name ∈ seen, ¬ IsVariable s name := by
  induction segments generalizing seen with
  | nil => exact iff_of_true rfl ⟨isTemplate_nil, nofun⟩
  | cons s rest ih =>
    rw [segmentsFlaw_cons_eq_none_iff, isTemplate_cons, List.forall_mem_cons]
    constructor
    · rintro ⟨⟨hdot, hdots, -⟩, ⟨hfree, h⟩ | ⟨name, hvar, hnew, h⟩⟩
      · obtain ⟨hrest, hunseen⟩ := ih.1 h
        have hnone : ∀ a, ¬ IsVariable s a := fun a ha => ha.not_braceFree hfree
        refine ⟨⟨⟨hdot, hdots⟩, .inl hfree, ?_, hrest⟩, fun a _ => hnone a, hunseen⟩
        intro t _ a b ha
        exact absurd ha (hnone a)
      · obtain ⟨hrest, hunseen⟩ := ih.1 h
        refine ⟨⟨⟨hdot, hdots⟩, .inr ⟨name, hvar⟩, ?_, hrest⟩, ?_, ?_⟩
        · rintro t ht a b ha hb rfl
          rw [ha.unique hvar] at hb
          exact hunseen t ht name List.mem_cons_self hb
        · intro a hseen ha
          exact hnew (hvar.unique ha ▸ hseen)
        · intro t ht a hseen
          exact hunseen t ht a (List.mem_cons_of_mem _ hseen)
    · rintro ⟨⟨⟨hdot, hdots⟩, hwhole, hdistinct, hrest⟩, hnew, hunseen⟩
      refine ⟨⟨hdot, hdots, rfl⟩, ?_⟩
      rcases hwhole with hfree | ⟨name, hvar⟩
      · exact .inl ⟨hfree, ih.2 ⟨hrest, hunseen⟩⟩
      · refine .inr ⟨name, hvar, fun hseen => hnew name hseen hvar, ih.2 ⟨hrest, ?_⟩⟩
        intro t ht a hmem ha
        rcases List.mem_cons.1 hmem with rfl | hmem
        · exact hdistinct t ht a a hvar ha rfl
        · exact hunseen t ht a hmem ha

theorem flaw?_eq_none_iff_of_absolute {path : String} {rest : List Char}
    (hpath : path.toList = '/' :: rest) : flaw? path = none ↔
      ¬ ['/', '/'] <:+: path.toList ∧ IsTemplate (Text.splitOn '/' rest) := by
  obtain ⟨first, more, hsplit, -⟩ := Text.exists_splitOn_eq '/' rest
  have hflaw : flaw? path =
      segmentsFlaw (Text.occursIn ['/', '/'] path.toList) [] (Text.splitOn '/' rest) := by
    rw [flaw?, hpath]
    rfl
  rw [hflaw, ← Text.occursIn_iff, Bool.not_eq_true]
  cases Text.occursIn ['/', '/'] path.toList with
  | true =>
    refine iff_of_false ?_ (fun h => Bool.false_ne_true h.1.symm)
    rw [hsplit, segmentsFlaw_cons_eq_none_iff]
    rintro ⟨⟨-, -, h⟩, -⟩
    cases h
  | false =>
    rw [segmentsFlaw_eq_none_iff, and_iff_right rfl]
    exact and_iff_left fun _ _ _ => nofun

/-- A path has no flaw exactly if it is a template whose segments stand behind slashes, with no two
slashes side by side. What stands behind its first slash can be cut out. -/
theorem flaw?_eq_none_iff_template (path : String) :
    (∀ rest, path.toList = '/' :: rest →
      Text.slice path 1 (Text.length path) = .ok (String.ofList rest)) ∧
    (flaw? path = none ↔ ∃ segments, segments ≠ [] ∧ (∀ s ∈ segments, '/' ∉ s) ∧
      path.toList = segments.flatMap ('/' :: ·) ∧ ¬ ['/', '/'] <:+: path.toList ∧
      IsTemplate segments) := by
  constructor
  · intro rest hpath
    refine Text.slice_eq_ok (a := ['/']) (b := []) (by simpa using hpath) rfl ?_
    rw [Text.length_eq, hpath]
    rfl
  · constructor
    · intro h
      obtain ⟨rest, hpath⟩ : ∃ rest, path.toList = '/' :: rest := by
        unfold flaw? at h
        split at h
        · rename_i rest hpath
          exact ⟨rest, hpath⟩
        · cases h
      obtain ⟨hdouble, htemplate⟩ := (flaw?_eq_none_iff_of_absolute hpath).1 h
      obtain ⟨hne, hslash, hjoin⟩ := Text.splitOn_eq_iff.1 (rfl : Text.splitOn '/' rest = _)
      exact ⟨_, hne, hslash, hpath.trans hjoin, hdouble, htemplate⟩
    · rintro ⟨segments, hne, hslash, hjoin, hdouble, htemplate⟩
      obtain ⟨first, more, rfl⟩ := List.exists_cons_of_ne_nil hne
      have hpath : path.toList = '/' :: (first ++ more.flatMap ('/' :: ·)) := hjoin
      have hsplit := Text.splitOn_eq_iff.2 ⟨hne, hslash, hpath.symm.trans hjoin⟩
      exact (flaw?_eq_none_iff_of_absolute hpath).2 ⟨hdouble, hsplit ▸ htemplate⟩

example : flaw? "/a/\x7bb\x7d/c/\x7bb\x7d" = some .repeatedVariable := by decide

end EndpointPath

end JakartaCheck
