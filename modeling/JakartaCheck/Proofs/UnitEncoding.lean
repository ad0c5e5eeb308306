import JakartaCheck.Java.Encoding
import Mathlib.Data.List.Basic

/-!
# Units come back from their JSON form

A reader of records does not look at all of an object: a member that is `null` may as well be
missing, and members that are no fields are passed over. `Json.Loosens` says that a value was
loosened in this way, at any depth. What a unit is written as, loosened or not, is read back as the
unit, provided its offsets have 64 bits.
-/

namespace JakartaCheck

namespace Json

/-! ### Loosened values -/

mutual

/-- `Loosens j j'`: the objects in `j` have lost members that are `null` or gained members of new
names, and `j'` is the result. -/
inductive Loosens : Json → Json → Prop
  | same (j : Json) : Loosens j j
  | array {items items' : List Json} (h : LoosensItems items items') :
      Loosens (.array items) (.array items')
  | object {ms ms' : List (String × Json)} (h : LoosensMembers (ms.map (·.1)) ms ms') :
      Loosens (.object ms) (.object ms')

inductive LoosensItems : List Json → List Json → Prop
  | nil : LoosensItems [] []
  | cons {j j' : Json} {js js' : List Json} (first : Loosens j j') (rest : LoosensItems js js') :
      LoosensItems (j :: js) (j' :: js')

/-- Members that are `null` may be missing, and there may be others whose names are not `known`. -/
inductive LoosensMembers : List String → List (String × Json) → List (String × Json) → Prop
  | nil {known : List String} : LoosensMembers known [] []
  | kept {known : List String} {name : String} {v v' : Json} {ms ms' : List (String × Json)}
      (value : Loosens v v') (rest : LoosensMembers known ms ms') :
      LoosensMembers known ((name, v) :: ms) ((name, v') :: ms')
  | omitted {known : List String} {name : String} {ms ms' : List (String × Json)}
      (rest : LoosensMembers known ms ms') : LoosensMembers known ((name, .null) :: ms) ms'
  | added {known : List String} {name : String} {v : Json} {ms ms' : List (String × Json)}
      (new : name ∉ known) (rest : LoosensMembers known ms ms') :
      LoosensMembers known ms ((name, v) :: ms')

end

/-- What stands for a value in a loosened object: the loosened value, or nothing for `null`. -/
def Stands (v : Json) : Option Json → Prop
  | some v' => Loosens v v'
  | none => v = .null

theorem member?_cons (name : String) (v : Json) (ms : List (String × Json)) (key : String) :
    (Json.object ((name, v) :: ms)).member? key =
      if name == key then some v else (Json.object ms).member? key := by
  unfold member?
  by_cases h : name = key <;> simp [h]

/-- A loosened object holds at each name what stands for the member there, and nothing at the other
known names. -/
theorem LoosensMembers.member? {known : List String} : ∀ {ms ms' : List (String × Json)},
    LoosensMembers known ms ms' → (∀ m ∈ ms, m.1 ∈ known) → (ms.map (·.1)).Nodup →
    (∀ m ∈ ms, Stands m.2 ((Json.object ms').member? m.1)) ∧
      ∀ key ∈ known, key ∉ ms.map (·.1) → (Json.object ms').member? key = none
  | _, _, .nil, _, _ => ⟨nofun, fun _ _ _ => rfl⟩
  | _, _, @LoosensMembers.kept _ name _ _ _ _ value rest, names, distinct => by
    obtain ⟨fresh, distinct⟩ := List.nodup_cons.1 distinct
    obtain ⟨stands, missing⟩ :=
      rest.member? (fun m hm => names m (List.mem_cons_of_mem _ hm)) distinct
    refine ⟨fun m hm => ?_, fun key hkey other => ?_⟩
    · rw [member?_cons]
      rcases List.mem_cons.1 hm with rfl | later
      · rw [if_pos (beq_self_eq_true _)]
        exact value
      · have differ : name ≠ m.1 := by
          rintro rfl
          exact fresh (List.mem_map.2 ⟨m, later, rfl⟩)
        rw [if_neg (by simpa using differ)]
        exact stands m later
    · have differ : name ≠ key := by
        rintro rfl
        exact other List.mem_cons_self
      rw [member?_cons, if_neg (by simpa using differ)]
      exact missing key hkey fun mem => other (List.mem_cons_of_mem _ mem)
  | _, _, .omitted rest, names, distinct => by
    obtain ⟨fresh, distinct⟩ := List.nodup_cons.1 distinct
    obtain ⟨stands, missing⟩ :=
      rest.member? (fun m hm => names m (List.mem_cons_of_mem _ hm)) distinct
    refine ⟨fun m hm => ?_, fun key hkey other => ?_⟩
    · rcases List.mem_cons.1 hm with rfl | hm
      · rw [missing _ (names _ List.mem_cons_self) fresh]
        rfl
      · exact stands m hm
    · exact missing key hkey fun mem => other (List.mem_cons_of_mem _ mem)
  | _, _, @LoosensMembers.added _ name v _ ms' new rest, names, distinct => by
    obtain ⟨stands, missing⟩ := rest.member? names distinct
    have skip : ∀ key ∈ known, (Json.object ((name, v) :: ms')).member? key =
        (Json.object ms').member? key := by
      intro key hkey
      have differ : name ≠ key := by
        rintro rfl
        exact new hkey
      rw [member?_cons, if_neg (by simpa using differ)]
    refine ⟨fun m hm => ?_, fun key hkey other => ?_⟩
    · rw [skip _ (names m hm)]
      exact stands m hm
    · rw [skip key hkey]
      exact missing key hkey other

theorem LoosensItems.refl (items : List Json) : LoosensItems items items := by
  induction items with
  | nil => exact .nil
  | cons j items ih => exact .cons (.same j) ih

theorem LoosensMembers.refl (known : List String) (ms : List (String × Json)) :
    LoosensMembers known ms ms := by
  induction ms with
  | nil => exact .nil
  | cons m ms ih => exact .kept (.same _) ih

theorem Loosens.eq_null {j : Json} (h : Loosens j .null) : j = .null := by
  cases h
  rfl

theorem Loosens.members {ms : List (String × Json)} {j : Json} (h : Loosens (.object ms) j)
    (distinct : (ms.map (·.1)).Nodup) :
    ∃ ms', j = .object ms' ∧ ∀ m ∈ ms, Stands m.2 ((Json.object ms').member? m.1) := by
  have found : ∀ ms', LoosensMembers (ms.map (·.1)) ms ms' →
      ∀ m ∈ ms, Stands m.2 ((Json.object ms').member? m.1) := fun ms' h =>
    (h.member? (fun m hm => List.mem_map_of_mem hm) distinct).1
  cases h with
  | same => exact ⟨ms, rfl, found ms (.refl _ ms)⟩
  | @object _ ms' h => exact ⟨ms', rfl, found ms' h⟩

/-! ### Values that come back -/

/-- However loosened, what `encode` writes for `a` is decoded to `a`; and it is not `null`. -/
structure ComesBack {α : Type} (encode : α → Json) (decode : Json → Option α) (a : α) : Prop where
  solid : encode a ≠ .null
  back : ∀ j, Loosens (encode a) j → decode j = some a

section ComesBack

variable {α : Type} {encode : α → Json} {decode : Json → Option α}

theorem comesBack_string (s : String) : ComesBack .string asString? s :=
  ⟨nofun, fun _ h => by cases h; rfl⟩

theorem comesBack_bool (b : Bool) : ComesBack .bool asBool? b :=
  ⟨nofun, fun _ h => by cases h; rfl⟩

theorem comesBack_word {n : Nat} (h : n < 0x10000000000000000) : ComesBack nat word64? n :=
  ⟨nofun, fun _ hj => by cases hj; exact if_pos h⟩

theorem comesBack_list {as : List α} (h : ∀ a ∈ as, ComesBack encode decode a) :
    ComesBack (list encode) (items? decode) as := by
  have each : ∀ items, LoosensItems (as.map encode) items → items.mapM decode = some as := by
    induction as with
    | nil =>
      intro items hitems
      cases hitems
      rfl
    | cons a as ih =>
      intro items hitems
      obtain ⟨ha, has⟩ := List.forall_mem_cons.1 h
      cases hitems with
      | cons first rest => simp [List.mapM_cons, ha.back _ first, ih has _ rest]
  refine ⟨nofun, fun j hj => ?_⟩
  cases hj with
  | same => exact each _ (.refl _)
  | array hitems => exact each _ hitems

/-- Of an object the decoder sees only what stands at the names of its members. -/
theorem ComesBack.object {a : α} {ms : List (String × Json)} (encoded : encode a = .object ms)
    (distinct : (ms.map (·.1)).Nodup)
    (back : ∀ ms', (∀ m ∈ ms, Stands m.2 ((Json.object ms').member? m.1)) →
      decode (.object ms') = some a) : ComesBack encode decode a := by
  refine ⟨by rw [encoded]; nofun, fun j hj => ?_⟩
  rw [encoded] at hj
  obtain ⟨ms', rfl, stands⟩ := hj.members distinct
  exact back ms' stands

theorem Stands.required {a : α} {field : Option Json} (h : Stands (encode a) field)
    (comes : ComesBack encode decode a) : required decode field = some a := by
  cases field with
  | none => exact absurd h comes.solid
  | some j => exact comes.back j h

theorem Stands.optional {a : Option α} {field : Option Json} (h : Stands (option encode a) field)
    (comes : ∀ x ∈ a, ComesBack encode decode x) : optional decode field = some a := by
  cases a with
  | none =>
    cases field with
    | none => rfl
    | some j =>
      cases h
      rfl
  | some x =>
    have comes := comes x rfl
    cases field with
    | none => exact absurd h comes.solid
    | some j =>
      have back := comes.back j h
      cases j with
      | null => exact absurd h.eq_null comes.solid
      | _ => simp only [Json.optional, back, Option.map_some]

/-- Once a field is read, a decoder goes on with the other ones. -/
theorem Stands.bind_required {β : Type} {a : α} {b : β} {field : Option Json} {rest : α → Option β}
    (h : Stands (encode a) field) (comes : ComesBack encode decode a) (read : rest a = some b) :
    Json.required decode field >>= rest = some b :=
  Option.bind_eq_some_iff.2 ⟨a, h.required comes, read⟩

theorem Stands.bind_optional {β : Type} {a : Option α} {b : β} {field : Option Json}
    {rest : Option α → Option β} (h : Stands (option encode a) field)
    (comes : ∀ x ∈ a, ComesBack encode decode x) (read : rest a = some b) :
    Json.optional decode field >>= rest = some b :=
  Option.bind_eq_some_iff.2 ⟨a, h.optional comes, read⟩

end ComesBack

end Json

open Json

/-! ### Records -/

/-- Both offsets have 64 bits. -/
def Span.IsWord (s : Span) : Prop := s.start < 0x10000000000000000 ∧ s.stop < 0x10000000000000000

instance (s : Span) : Decidable s.IsWord := inferInstanceAs (Decidable (_ ∧ _))

theorem Span.comesBack {s : Span} (h : s.IsWord) : ComesBack toJson ofJson? s := by
  refine .object rfl (by simp) fun ms' stands => ?_
  simp only [List.forall_mem_cons] at stands
  obtain ⟨start, stop, -⟩ := stands
  simp only [ofJson?, fields?, List.map_cons, List.map_nil, Option.bind_eq_bind, Option.bind_some,
    start.required (comesBack_word h.1), stop.required (comesBack_word h.2)]

namespace TypeRef

def spans (t : TypeRef) : List Span := [t.span]

theorem comesBack {t : TypeRef} (h : ∀ s ∈ t.spans, s.IsWord) : ComesBack toJson ofJson? t := by
  refine .object rfl (by simp) fun ms' stands => ?_
  simp only [List.forall_mem_cons] at stands
  obtain ⟨text, simpleName, qualifiedName, span, isArray, isPrimitive, -⟩ := stands
  simp only [ofJson?, fields?, List.map_cons, List.map_nil, Option.bind_eq_bind, Option.bind_some,
    text.required (comesBack_string _),
    simpleName.required (comesBack_string _),
    qualifiedName.optional fun x _ => comesBack_string x,
    span.required (Span.comesBack (h _ (by simp [spans]))),
    isArray.required (comesBack_bool _), isPrimitive.required (comesBack_bool _)]

end TypeRef

namespace Argument

def spans (a : Argument) : List Span := [a.span, a.valueSpan]

theorem comesBack {a : Argument} (h : ∀ s ∈ a.spans, s.IsWord) : ComesBack toJson ofJson? a := by
  refine .object rfl (by simp) fun ms' stands => ?_
  simp only [List.forall_mem_cons] at stands
  obtain ⟨name, span, valueSpan, valueText, stringValue, -⟩ := stands
  simp only [ofJson?, fields?, List.map_cons, List.map_nil, Option.bind_eq_bind, Option.bind_some,
    name.required (comesBack_string _),
    span.required (Span.comesBack (h _ (by simp [spans]))),
    valueSpan.required (Span.comesBack (h _ (by simp [spans]))),
    valueText.required (comesBack_string _),
    stringValue.optional fun x _ => comesBack_string x]

end Argument

namespace AnnotationUse

def spans (a : AnnotationUse) : List Span :=
  a.span :: a.nameSpan :: (a.args.flatMap Argument.spans ++ a.argsSpan.toList)

theorem comesBack {a : AnnotationUse} (h : ∀ s ∈ a.spans, s.IsWord) :
    ComesBack toJson ofJson? a := by
  simp only [spans, List.forall_mem_cons, List.forall_mem_append, List.forall_mem_flatMap] at h
  obtain ⟨hspan, hname, hargs, hargsSpan⟩ := h
  refine .object rfl (by simp) fun ms' stands => ?_
  simp only [List.forall_mem_cons] at stands
  obtain ⟨name, simpleName, qualifiedName, span, nameSpan, args, argsSpan, -⟩ := stands
  simp only [ofJson?, fields?, List.map_cons, List.map_nil, Option.bind_eq_bind, Option.bind_some,
    name.required (comesBack_string _),
    simpleName.required (comesBack_string _),
    qualifiedName.optional fun x _ => comesBack_string x,
    span.required (Span.comesBack hspan), nameSpan.required (Span.comesBack hname),
    args.required (comesBack_list fun arg harg => Argument.comesBack (hargs arg harg)),
    argsSpan.optional fun s hs => Span.comesBack (hargsSpan s (by simpa using hs))]

end AnnotationUse

namespace Keyword

def spans (k : Keyword) : List Span := [k.span]

theorem comesBack {k : Keyword} (h : ∀ s ∈ k.spans, s.IsWord) : ComesBack toJson ofJson? k := by
  refine .object rfl (by simp) fun ms' stands => ?_
  simp only [List.forall_mem_cons] at stands
  obtain ⟨text, span, -⟩ := stands
  simp only [ofJson?, fields?, List.map_cons, List.map_nil, Option.bind_eq_bind, Option.bind_some,
    text.required (comesBack_string _),
    span.required (Span.comesBack (h _ (by simp [spans])))]

end Keyword

namespace Modifiers

def spans (m : Modifiers) : List Span :=
  m.span.toList ++ m.keywords.flatMap Keyword.spans ++ m.annotations.flatMap AnnotationUse.spans

theorem comesBack {m : Modifiers} (h : ∀ s ∈ m.spans, s.IsWord) : ComesBack toJson ofJson? m := by
  simp only [spans, List.forall_mem_append, List.forall_mem_flatMap] at h
  obtain ⟨⟨hspan, hkeywords⟩, hannotations⟩ := h
  refine .object rfl (by simp) fun ms' stands => ?_
  simp only [List.forall_mem_cons] at stands
  obtain ⟨span, keywords, annotations, -⟩ := stands
  simp only [ofJson?, fields?, List.map_cons, List.map_nil, Option.bind_eq_bind, Option.bind_some,
    span.optional fun s hs => Span.comesBack (hspan s (by simpa using hs)),
    keywords.required (comesBack_list fun k hk => Keyword.comesBack (hkeywords k hk)),
    annotations.required (comesBack_list fun a ha => AnnotationUse.comesBack (hannotations a ha))]

end Modifiers

namespace Parameter

def spans (p : Parameter) : List Span :=
  p.span :: p.nameSpan :: (p.modifiers.spans ++ p.type.spans)

theorem comesBack {p : Parameter} (h : ∀ s ∈ p.spans, s.IsWord) : ComesBack toJson ofJson? p := by
  simp only [spans, List.forall_mem_cons, List.forall_mem_append] at h
  obtain ⟨hspan, hname, hmodifiers, htype⟩ := h
  refine .object rfl (by simp) fun ms' stands => ?_
  simp only [List.forall_mem_cons] at stands
  obtain ⟨span, name, nameSpan, modifiers, type, -⟩ := stands
  simp only [ofJson?, fields?, List.map_cons, List.map_nil, Option.bind_eq_bind, Option.bind_some,
    span.required (Span.comesBack hspan),
    name.required (comesBack_string _), nameSpan.required (Span.comesBack hname),
    modifiers.required (Modifiers.comesBack hmodifiers), type.required (TypeRef.comesBack htype)]

end Parameter

namespace Declarator

def spans (d : Declarator) : List Span := [d.nameSpan]

theorem comesBack {d : Declarator} (h : ∀ s ∈ d.spans, s.IsWord) : ComesBack toJson ofJson? d := by
  refine .object rfl (by simp) fun ms' stands => ?_
  simp only [List.forall_mem_cons] at stands
  obtain ⟨name, nameSpan, -⟩ := stands
  simp only [ofJson?, fields?, List.map_cons, List.map_nil, Option.bind_eq_bind, Option.bind_some,
    name.required (comesBack_string _),
    nameSpan.required (Span.comesBack (h _ (by simp [spans])))]

end Declarator

namespace FieldDecl

def spans (f : FieldDecl) : List Span :=
  f.span :: (f.modifiers.spans ++ f.type.spans ++ f.declarators.flatMap Declarator.spans)

theorem comesBack {f : FieldDecl} (h : ∀ s ∈ f.spans, s.IsWord) : ComesBack toJson ofJson? f := by
  simp only [spans, List.forall_mem_cons, List.forall_mem_append, List.forall_mem_flatMap] at h
  obtain ⟨hspan, ⟨hmodifiers, htype⟩, hdeclarators⟩ := h
  refine .object rfl (by simp) fun ms' stands => ?_
  simp only [List.forall_mem_cons] at stands
  obtain ⟨span, modifiers, type, declarators, -⟩ := stands
  simp only [ofJson?, fields?, List.map_cons, List.map_nil, Option.bind_eq_bind, Option.bind_some,
    span.required (Span.comesBack hspan),
    modifiers.required (Modifiers.comesBack hmodifiers), type.required (TypeRef.comesBack htype),
    declarators.required (comesBack_list fun d hd => Declarator.comesBack (hdeclarators d hd))]

end FieldDecl

namespace MethodDecl

def spans (m : MethodDecl) : List Span :=
  m.span :: m.nameSpan :: m.paramsSpan ::
    (m.modifiers.spans ++ m.typeParamsSpan.toList ++ m.returnType.toList.flatMap TypeRef.spans ++
      m.params.flatMap Parameter.spans ++ m.throws.flatMap TypeRef.spans)

theorem comesBack {m : MethodDecl} (h : ∀ s ∈ m.spans, s.IsWord) : ComesBack toJson ofJson? m := by
  simp only [spans, List.forall_mem_cons, List.forall_mem_append, List.forall_mem_flatMap] at h
  obtain ⟨hspan, hname, hparamsSpan, ⟨⟨⟨hmodifiers, htypeParams⟩, hreturn⟩, hparams⟩, hthrows⟩ := h
  refine .object rfl (by simp) fun ms' stands => ?_
  simp only [List.forall_mem_cons] at stands
  obtain ⟨span, name, nameSpan, isConstructor, modifiers, typeParamsSpan, returnType, params,
    paramsSpan, throws, hasBody, -⟩ := stands
  -- the fields one after the other, since a simplification of the whole record is slow
  refine span.bind_required (Span.comesBack hspan) ?_
  refine name.bind_required (comesBack_string _) ?_
  refine nameSpan.bind_required (Span.comesBack hname) ?_
  refine isConstructor.bind_required (comesBack_bool _) ?_
  refine modifiers.bind_required (Modifiers.comesBack hmodifiers) ?_
  refine typeParamsSpan.bind_optional (fun s hs => Span.comesBack (htypeParams s (by simpa using hs))) ?_
  refine returnType.bind_optional (fun t ht => TypeRef.comesBack (hreturn t (by simpa using ht))) ?_
  refine params.bind_required (comesBack_list fun p hp => Parameter.comesBack (hparams p hp)) ?_
  refine paramsSpan.bind_required (Span.comesBack hparamsSpan) ?_
  refine throws.bind_required (comesBack_list fun t ht => TypeRef.comesBack (hthrows t ht)) ?_
  exact hasBody.bind_required (comesBack_bool _) rfl

end MethodDecl

theorem TypeKind.comesBack (kind : TypeKind) :
    ComesBack (fun kind => .string kind.label) ofJson? kind :=
  ⟨nofun, fun _ h => by cases h; cases kind <;> rfl⟩

namespace TypeDecl

def spans (t : TypeDecl) : List Span :=
  t.nameSpan :: t.span :: t.bodySpan ::
    (t.modifiers.spans ++ t.typeParamsSpan.toList ++ t.superclass.toList.flatMap TypeRef.spans ++
      t.interfaces.flatMap TypeRef.spans ++ t.fields.flatMap FieldDecl.spans ++
      t.methods.flatMap MethodDecl.spans)

theorem comesBack {t : TypeDecl} (h : ∀ s ∈ t.spans, s.IsWord) : ComesBack toJson ofJson? t := by
  simp only [spans, List.forall_mem_cons, List.forall_mem_append, List.forall_mem_flatMap] at h
  obtain ⟨hname, hspan, hbody,
    ⟨⟨⟨⟨hmodifiers, htypeParams⟩, hsuperclass⟩, hinterfaces⟩, hfields⟩, hmethods⟩ := h
  refine .object rfl (by simp) fun ms' stands => ?_
  simp only [List.forall_mem_cons] at stands
  obtain ⟨kind, name, nameSpan, span, bodySpan, modifiers, typeParamsSpan, superclass, interfaces,
    fields, methods, -⟩ := stands
  refine Stands.bind_required (a := t.kind) kind (TypeKind.comesBack t.kind) ?_
  refine name.bind_required (comesBack_string _) ?_
  refine nameSpan.bind_required (Span.comesBack hname) ?_
  refine span.bind_required (Span.comesBack hspan) ?_
  refine bodySpan.bind_required (Span.comesBack hbody) ?_
  refine modifiers.bind_required (Modifiers.comesBack hmodifiers) ?_
  refine typeParamsSpan.bind_optional (fun s hs => Span.comesBack (htypeParams s (by simpa using hs))) ?_
  refine superclass.bind_optional (fun r hr => TypeRef.comesBack (hsuperclass r (by simpa using hr))) ?_
  refine interfaces.bind_required (comesBack_list fun r hr => TypeRef.comesBack (hinterfaces r hr)) ?_
  refine fields.bind_required (comesBack_list fun f hf => FieldDecl.comesBack (hfields f hf)) ?_
  exact methods.bind_required (comesBack_list fun m hm => MethodDecl.comesBack (hmethods m hm)) rfl

end TypeDecl

namespace ImportDecl

def spans (i : ImportDecl) : List Span := [i.span]

theorem comesBack {i : ImportDecl} (h : ∀ s ∈ i.spans, s.IsWord) : ComesBack toJson ofJson? i := by
  refine .object rfl (by simp) fun ms' stands => ?_
  simp only [List.forall_mem_cons] at stands
  obtain ⟨path, isStatic, isWildcard, span, -⟩ := stands
  simp only [ofJson?, fields?, List.map_cons, List.map_nil, Option.bind_eq_bind, Option.bind_some,
    path.required (comesBack_string _),
    isStatic.required (comesBack_bool _), isWildcard.required (comesBack_bool _),
    span.required (Span.comesBack (h _ (by simp [spans])))]

end ImportDecl

namespace CallArgument

def spans (a : CallArgument) : List Span := [a.span]

theorem comesBack {a : CallArgument} (h : ∀ s ∈ a.spans, s.IsWord) :
    ComesBack toJson ofJson? a := by
  refine .object rfl (by simp) fun ms' stands => ?_
  simp only [List.forall_mem_cons] at stands
  obtain ⟨span, stringLiteral, -⟩ := stands
  simp only [ofJson?, fields?, List.map_cons, List.map_nil, Option.bind_eq_bind, Option.bind_some,
    span.required (Span.comesBack (h _ (by simp [spans]))),
    stringLiteral.optional fun x _ => comesBack_string x]

end CallArgument

namespace MethodCall

def spans (c : MethodCall) : List Span :=
  c.span :: c.nameSpan :: c.args.flatMap CallArgument.spans

theorem comesBack {c : MethodCall} (h : ∀ s ∈ c.spans, s.IsWord) : ComesBack toJson ofJson? c := by
  simp only [spans, List.forall_mem_cons, List.forall_mem_flatMap] at h
  obtain ⟨hspan, hname, hargs⟩ := h
  refine .object rfl (by simp) fun ms' stands => ?_
  simp only [List.forall_mem_cons] at stands
  obtain ⟨span, receiver, name, nameSpan, args, -⟩ := stands
  simp only [ofJson?, fields?, List.map_cons, List.map_nil, Option.bind_eq_bind, Option.bind_some,
    span.required (Span.comesBack hspan),
    receiver.optional fun x _ => comesBack_string x, name.required (comesBack_string _),
    nameSpan.required (Span.comesBack hname),
    args.required (comesBack_list fun a ha => CallArgument.comesBack (hargs a ha))]

end MethodCall

namespace CompilationUnit

/-- Every span in the unit. -/
def spans (unit : CompilationUnit) : List Span :=
  unit.imports.flatMap ImportDecl.spans ++ unit.types.flatMap TypeDecl.spans ++
    unit.calls.flatMap MethodCall.spans

/-- A unit is read back from what it is written as, also if members that are `null` are left out and
others are added anywhere in it. -/
theorem ofJson?_loosened {unit : CompilationUnit} (words : ∀ s ∈ unit.spans, s.IsWord) :
    ofJson? unit.toJson = some unit ∧ ∀ j, Loosens unit.toJson j → ofJson? j = some unit := by
  simp only [spans, List.forall_mem_append, List.forall_mem_flatMap] at words
  obtain ⟨⟨himports, htypes⟩, hcalls⟩ := words
  have loosened : ∀ j, Loosens unit.toJson j → ofJson? j = some unit := by
    intro j hj
    obtain ⟨ms', rfl, stands⟩ := Loosens.members hj (by simp [declarationsJson])
    simp only [declarationsJson, List.cons_append, List.nil_append, List.forall_mem_cons] at stands
    obtain ⟨uri, text, package, imports, types, calls, -⟩ := stands
    simp [ofJson?, fields?, uri.required (comesBack_string _), text.required (comesBack_string _),
      package.optional fun x _ => comesBack_string x,
      imports.required (comesBack_list fun i hi => ImportDecl.comesBack (himports i hi)),
      types.required (comesBack_list fun t ht => TypeDecl.comesBack (htypes t ht)),
      calls.required (comesBack_list fun c hc => MethodCall.comesBack (hcalls c hc))]
  exact ⟨loosened _ (.same _), loosened⟩

/-- A call without a receiver, with offsets out of order and up to the last one of 64 bits: the
package and the receiver are left out, and the call and its argument have members that nobody
knows. -/
theorem ofJson?_loosened_call :
    let unit : CompilationUnit :=
      ⟨"file:///A.java", "f(1)", none, [], [],
        [⟨⟨5, 3⟩, none, "f", ⟨0, 18446744073709551615⟩, [⟨⟨2, 3⟩, none⟩]⟩]⟩
    (∀ s ∈ unit.spans, s.IsWord) ∧
      ofJson? (.object [("uri", .string "file:///A.java"), ("text", .string "f(1)"),
        ("imports", .array []), ("types", .array []),
        ("invocations", .array [.object [("span", Span.toJson ⟨5, 3⟩), ("depth", .nat 1),
          ("name", .string "f"), ("name_span", Span.toJson ⟨0, 18446744073709551615⟩),
          ("args", .array [.object [("types", .null), ("span", Span.toJson ⟨2, 3⟩)]])]])]) =
        some unit := by
  intro unit
  have words : ∀ s ∈ unit.spans, s.IsWord := by decide
  refine ⟨words, (ofJson?_loosened words).2 _ (.object ?_)⟩
  refine .kept (.same _) (.kept (.same _) (.omitted (.kept (.same _) (.kept (.same _)
    (.kept (.array (.cons (.object ?_) .nil)) .nil)))))
  refine .kept (.same _) (.added (by decide) (.omitted (.kept (.same _) (.kept (.same _)
    (.kept (.array (.cons (.object ?_) .nil)) .nil)))))
  exact .added (by decide) (.kept (.same _) (.omitted .nil))

end CompilationUnit

end JakartaCheck
