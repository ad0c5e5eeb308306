import JakartaCheck.Java.Reading
import JakartaCheck.Rules.Endpoints

/-!
# Parameters of callbacks

A callback of an endpoint takes the session and a type of its own (`Takes`) and, annotated as parts
of the path, strings, primitive types and the classes that wrap these (`IsPathValue`). Each of its
parameters is flagged at its name, once, unless its type is one of these
(`callbackParameters_flag_others`).

The session and the callback's own type are compared by their names alone, which arrays share, so an
array of sessions is taken for a session. A class is taken for a wrapper by its simple name, if it
has no binding or one that begins as those of `java.lang` do. These types are `Misread`.
-/

namespace JakartaCheck.Endpoints

variable {unit : CompilationUnit} {extra : String} {type : TypeRef} {p : Parameter}

/-! ### What callbacks take -/

/-- The name of the type denotes the session or the callback's own type. -/
def Takes (unit : CompilationUnit) (extra : String) (type : TypeRef) : Prop :=
  unit.typeIs type session ∨ unit.typeIs type extra

/-- The type is the class of `java.lang` that wraps a primitive type. -/
def IsWrapper (type : TypeRef) : Prop :=
  (TypeText.unboxed? type.simpleName).isSome ∧
    type.qualifiedName = some ("java.lang." ++ type.simpleName)

/-- Values that a part of the path can be read as. -/
def IsPathValue (unit : CompilationUnit) (type : TypeRef) : Prop :=
  ¬ type.isArray ∧
    (type.isPrimitive ∨ unit.typeIs type "java.lang.String" ∨ IsWrapper type)

/-- The type has the simple name of a wrapper, and no binding to what is not below `java.lang`. -/
def LooksLikeWrapper (type : TypeRef) : Prop :=
  (TypeText.unboxed? type.simpleName).isSome ∧
    ∀ q ∈ type.qualifiedName, Text.startsWith "java.lang.".toList q.toList

/-- Types that are taken for what they are not. -/
inductive Misread (unit : CompilationUnit) (extra : String) (type : TypeRef) : Prop
  | array (array : type.isArray) (element : Takes unit extra type)
  | wrapper (single : ¬ type.isArray) (looks : LooksLikeWrapper type) (other : ¬ IsWrapper type)

instance : Decidable (Takes unit extra type) := inferInstanceAs (Decidable (_ ∨ _))

theorem IsWrapper.looksLikeWrapper (h : IsWrapper type) : LooksLikeWrapper type := by
  refine ⟨h.1, fun q bound => ?_⟩
  obtain rfl := Option.some.inj (h.2.symm.trans bound)
  rw [Text.startsWith, List.isPrefixOf_iff_prefix, String.toList_append]
  exact List.prefix_append _ _

theorem isSimpleValueType_iff : Check.isSimpleValueType unit type ↔
    ¬ type.isArray ∧
      (type.isPrimitive ∨ unit.typeIs type "java.lang.String" ∨ LooksLikeWrapper type) := by
  unfold Check.isSimpleValueType LooksLikeWrapper
  generalize Text.startsWith "java.lang.".toList = below
  cases type.qualifiedName <;> simp

/-- Nothing but what looks like a wrapper is taken for a value by mistake. -/
theorem isSimpleValueType_iff_isPathValue (read : ¬ Misread unit extra type) :
    Check.isSimpleValueType unit type ↔ IsPathValue unit type := by
  rw [isSimpleValueType_iff, IsPathValue]
  refine and_congr_right fun single => or_congr_right (or_congr_right ?_)
  exact ⟨fun looks => Classical.not_not.1 fun other => read (.wrapper single looks other),
    IsWrapper.looksLikeWrapper⟩

/-! ### One parameter -/

/-- The parameter has a type that no callback takes. -/
def invalidType (p : Parameter) : Diagnostic :=
  Diagnostic.error Source.websocket Code.changeInvalidParamType
    "Invalid parameter type. When using a lifecycle annotation, parameters must be a Session, the callback's own type, or a String, Java primitive or boxed primitive annotated with @PathParam."
    p.nameSpan

/-- The parameter may be a part of the path, and is not annotated as one. -/
def unannotated (p : Parameter) : Diagnostic :=
  Diagnostic.error Source.websocket Code.addPathParams
    "Parameters of type String, any Java primitive type, or boxed version thereof must be annotated with @PathParams."
    p.nameSpan

theorem parameterFinding?_eq (unit : CompilationUnit) (extra : String) (p : Parameter) :
    parameterFinding? unit extra p =
      if Takes unit extra p.type then none
      else if Check.isSimpleValueType unit p.type then
        if unit.hasAnnotationOf p.modifiers pathParam then none else some (unannotated p)
      else some (invalidType p) := by
  have takes : (unit.typeIs p.type session || unit.typeIs p.type extra) = true ↔
      Takes unit extra p.type := Bool.or_eq_true _ _ ▸ Iff.rfl
  unfold parameterFinding?
  simp only [takes, Bool.not_eq_true', ← Bool.not_eq_true, ite_not]
  rfl

theorem parameterFinding?_of_takes (takes : Takes unit extra p.type) :
    parameterFinding? unit extra p = none := by
  rw [parameterFinding?_eq, if_pos takes]

theorem parameterFinding?_of_array (array : p.type.isArray) :
    parameterFinding? unit extra p =
      if Takes unit extra p.type then none else some (invalidType p) := by
  have other : ¬ Check.isSimpleValueType unit p.type := fun value =>
    (isSimpleValueType_iff.1 value).1 array
  rw [parameterFinding?_eq, if_neg other]

theorem parameterFinding?_of_looksLikeWrapper (single : ¬ p.type.isArray)
    (looks : LooksLikeWrapper p.type) :
    parameterFinding? unit extra p = none ↔
      Takes unit extra p.type ∨ unit.hasAnnotationOf p.modifiers pathParam := by
  have value : Check.isSimpleValueType unit p.type :=
    isSimpleValueType_iff.2 ⟨single, .inr (.inr looks)⟩
  rw [parameterFinding?_eq, if_pos value]
  by_cases takes : Takes unit extra p.type <;> simp [takes]

theorem mem_parameterFinding? {d : Diagnostic} (h : parameterFinding? unit extra p = some d) :
    d = invalidType p ∨ d = unannotated p := by
  rw [parameterFinding?_eq] at h
  split at h
  · cases h
  split at h
  · split at h
    · cases h
    · exact .inr (Option.some.inj h).symm
  · exact .inl (Option.some.inj h).symm

/-- A parameter is let through exactly if the callback takes it or it is an annotated value. -/
theorem parameterFinding?_eq_none_iff (read : ¬ Misread unit extra p.type) :
    parameterFinding? unit extra p = none ↔
      (¬ p.type.isArray ∧ Takes unit extra p.type) ∨
        (unit.hasAnnotationOf p.modifiers pathParam ∧ IsPathValue unit p.type) := by
  by_cases takes : Takes unit extra p.type
  case pos =>
    have single : ¬ p.type.isArray := fun array => read (.array array takes)
    exact iff_of_true (parameterFinding?_of_takes takes) (.inl ⟨single, takes⟩)
  case neg =>
    rw [parameterFinding?_eq, if_neg takes, ← isSimpleValueType_iff_isPathValue read]
    by_cases value : Check.isSimpleValueType unit p.type <;> simp [takes, value]

/-! ### All parameters -/

/-- The method has one annotation of a callback, which takes `extra` besides the session. -/
structure IsCallback (unit : CompilationUnit) (m : MethodDecl) (marker extra : String) :
    Prop where
  listed : (marker, extra) ∈ callbacks
  annotated : unit.hasAnnotationOf m.modifiers marker
  only : ∀ c ∈ callbacks, unit.hasAnnotationOf m.modifiers c.1 → c = (marker, extra)

instance {m : MethodDecl} {marker : String} :
    Decidable (IsCallback unit m marker extra) :=
  decidable_of_iff ((marker, extra) ∈ callbacks ∧ unit.hasAnnotationOf m.modifiers marker ∧
      ∀ c ∈ callbacks, unit.hasAnnotationOf m.modifiers c.1 → c = (marker, extra))
    ⟨fun ⟨listed, annotated, only⟩ => ⟨listed, annotated, only⟩,
      fun ⟨listed, annotated, only⟩ => ⟨listed, annotated, only⟩⟩

/-- The parameters of a method that are looked at, each with what the callback takes. -/
def checkedOf (unit : CompilationUnit) (m : MethodDecl) : List (String × Parameter) :=
  match callbacks.find? fun (fqn, _) => unit.hasAnnotationOf m.modifiers fqn with
  | some (_, extra) => m.params.map (extra, ·)
  | none => []

/-- The parameters of all callbacks of the endpoints of a unit. -/
def checkedParameters (unit : CompilationUnit) : List (String × Parameter) :=
  (unit.types.filter fun t => unit.hasAnnotationOf t.modifiers serverEndpoint).flatMap
    fun t => t.ordinaryMethods.flatMap (checkedOf unit)

theorem IsCallback.checkedOf {m : MethodDecl} {marker : String}
    (callback : IsCallback unit m marker extra) :
    checkedOf unit m = m.params.map (extra, ·) := by
  have found : callbacks.find? (fun (fqn, _) => unit.hasAnnotationOf m.modifiers fqn) =
      some (marker, extra) := by
    cases found : callbacks.find? fun (fqn, _) => unit.hasAnnotationOf m.modifiers fqn with
    | none => exact absurd callback.annotated (List.find?_eq_none.1 found _ callback.listed)
    | some c => rw [callback.only c (List.mem_of_find?_eq_some found) (List.find?_some found :)]
  unfold Endpoints.checkedOf
  rw [found]

theorem collect_callbackParameters (unit : CompilationUnit) :
    (callbackParameters.collect unit).result =
      .ok ((checkedParameters unit).filterMap fun x => parameterFinding? unit x.1 x.2) := by
  refine congrArg Except.ok ?_
  simp only [checkedParameters, List.filterMap_flatMap]
  refine congrArg (List.flatMap · _) (funext fun t => ?_)
  refine congrArg (List.flatMap · _) (funext fun m => ?_)
  unfold checkedOf
  cases callbacks.find? fun (fqn, _) => unit.hasAnnotationOf m.modifiers fqn with
  | none => rfl
  | some c =>
    obtain ⟨marker, extra⟩ := c
    simp only [List.filterMap_map, Function.comp_def]

/-- Among the parameters that are looked at, those of a callback stand side by side. -/
theorem IsCallback.checkedParameters {t : TypeDecl} {m : MethodDecl} {marker : String}
    (callback : IsCallback unit m marker extra) (ht : t ∈ unit.types)
    (endpoint : unit.hasAnnotationOf t.modifiers serverEndpoint) (hm : m ∈ t.ordinaryMethods) :
    ∃ before after, checkedParameters unit = before ++ m.params.map (extra, ·) ++ after := by
  have mem : t ∈ unit.types.filter fun t => unit.hasAnnotationOf t.modifiers serverEndpoint :=
    List.mem_filter.2 ⟨ht, endpoint⟩
  obtain ⟨front, back, types⟩ := List.append_of_mem mem
  obtain ⟨methods, methods', split⟩ := List.append_of_mem hm
  refine ⟨front.flatMap (fun t => t.ordinaryMethods.flatMap (Endpoints.checkedOf unit)) ++
      methods.flatMap (Endpoints.checkedOf unit),
    methods'.flatMap (Endpoints.checkedOf unit) ++
      back.flatMap fun t => t.ordinaryMethods.flatMap (Endpoints.checkedOf unit), ?_⟩
  simp only [Endpoints.checkedParameters, types, List.flatMap_append, List.flatMap_cons, split,
    callback.checkedOf, List.append_assoc]

/-- The rule answers each parameter of a callback by itself, and lets exactly those through that the
callback takes and the annotated values, as far as their types are not misread. An array is flagged
unless what it is an array of is what the callback takes. -/
theorem callbackParameters_flag_others {t : TypeDecl} {m : MethodDecl} {marker : String}
    (ht : t ∈ unit.types) (endpoint : unit.hasAnnotationOf t.modifiers serverEndpoint)
    (hm : m ∈ t.ordinaryMethods) (callback : IsCallback unit m marker extra) :
    (callbackParameters.collect unit).result =
        .ok ((checkedParameters unit).filterMap fun x => parameterFinding? unit x.1 x.2) ∧
      (∃ before after, checkedParameters unit = before ++ m.params.map (extra, ·) ++ after) ∧
      ∀ p ∈ m.params,
        (∀ d, parameterFinding? unit extra p = some d → d = invalidType p ∨ d = unannotated p) ∧
        (¬ Misread unit extra p.type → (parameterFinding? unit extra p = none ↔
          (¬ p.type.isArray ∧ Takes unit extra p.type) ∨
            (unit.hasAnnotationOf p.modifiers pathParam ∧ IsPathValue unit p.type))) ∧
        (p.type.isArray → parameterFinding? unit extra p =
          if Takes unit extra p.type then none else some (invalidType p)) ∧
        (¬ p.type.isArray → LooksLikeWrapper p.type → (parameterFinding? unit extra p = none ↔
          Takes unit extra p.type ∨ unit.hasAnnotationOf p.modifiers pathParam)) :=
  ⟨collect_callbackParameters unit, callback.checkedParameters ht endpoint hm,
    fun _ _ => ⟨fun _ => mem_parameterFinding?, parameterFinding?_eq_none_iff,
      parameterFinding?_of_array, parameterFinding?_of_looksLikeWrapper⟩⟩

/-- A callback that takes numbers is flagged. -/
theorem callbackParameters_flag_others_numbers : ∃ unit t m p,
    CompilationUnit.ofText? "file:///A.java"
      ("import jakarta.websocket.*; @jakarta.websocket.server.ServerEndpoint class A \x7b " ++
        "@OnOpen void f(int... n); \x7d") = some unit ∧
      t ∈ unit.types ∧ unit.hasAnnotationOf t.modifiers serverEndpoint ∧ m ∈ t.ordinaryMethods ∧
      IsCallback unit m "jakarta.websocket.OnOpen" "jakarta.websocket.EndpointConfig" ∧
      p ∈ m.params ∧ ¬ Misread unit "jakarta.websocket.EndpointConfig" p.type ∧
      parameterFinding? unit "jakarta.websocket.EndpointConfig" p = some (invalidType p) := by
  have facts : (CompilationUnit.ofText? "file:///A.java"
      ("import jakarta.websocket.*; @jakarta.websocket.server.ServerEndpoint class A \x7b " ++
        "@OnOpen void f(int... n); \x7d")).any fun unit =>
        unit.types.any fun t => unit.hasAnnotationOf t.modifiers serverEndpoint &&
          t.ordinaryMethods.any fun m => decide (IsCallback unit m
              "jakarta.websocket.OnOpen" "jakarta.websocket.EndpointConfig") &&
            m.params.any fun p => p.type.isArray &&
              !decide (Takes unit "jakarta.websocket.EndpointConfig" p.type) := by
    decide +kernel
  simp only [Option.any_eq_true, List.any_eq_true, Bool.and_eq_true, decide_eq_true_eq,
    Bool.not_eq_true', decide_eq_false_iff_not] at facts
  obtain ⟨unit, lowered, t, ht, endpoint, m, hm, callback, p, hp, array, other⟩ := facts
  have read : ¬ Misread unit "jakarta.websocket.EndpointConfig" p.type
    | .array _ takes => other takes
    | .wrapper single _ _ => single array
  have flagged := ((callbackParameters_flag_others ht endpoint hm callback).2.2 p hp).2.2.1 array
  rw [if_neg other] at flagged
  exact ⟨unit, t, m, p, lowered, ht, endpoint, hm, callback, hp, read, flagged⟩

/-- A callback that takes sessions is let through. -/
theorem callbackParameters_pass_sessions : ∃ unit t m p,
    CompilationUnit.ofText? "file:///A.java"
      ("import jakarta.websocket.*; @jakarta.websocket.server.ServerEndpoint class A \x7b " ++
        "@OnOpen void f(Session[] s); \x7d") = some unit ∧
      t ∈ unit.types ∧ unit.hasAnnotationOf t.modifiers serverEndpoint ∧ m ∈ t.ordinaryMethods ∧
      IsCallback unit m "jakarta.websocket.OnOpen" "jakarta.websocket.EndpointConfig" ∧
      p ∈ m.params ∧ p.type.isArray ∧ (callbackParameters.collect unit).result = .ok [] := by
  have facts : (CompilationUnit.ofText? "file:///A.java"
      ("import jakarta.websocket.*; @jakarta.websocket.server.ServerEndpoint class A \x7b " ++
        "@OnOpen void f(Session[] s); \x7d")).any fun unit =>
        unit.types.any (fun t => unit.hasAnnotationOf t.modifiers serverEndpoint &&
          t.ordinaryMethods.any fun m => decide (IsCallback unit m
              "jakarta.websocket.OnOpen" "jakarta.websocket.EndpointConfig") &&
            m.params.any fun p => p.type.isArray) &&
        (checkedParameters unit).all fun x => decide (Takes unit x.1 x.2.type) := by
    decide +kernel
  simp only [Option.any_eq_true, List.any_eq_true, List.all_eq_true, Bool.and_eq_true,
    decide_eq_true_eq] at facts
  obtain ⟨unit, lowered, ⟨t, ht, endpoint, m, hm, callback, p, hp, array⟩, taken⟩ := facts
  have collected := collect_callbackParameters unit
  rw [List.filterMap_eq_nil_iff.2 fun x hx => parameterFinding?_of_takes (taken x hx)] at collected
  exact ⟨unit, t, m, p, lowered, ht, endpoint, hm, callback, hp, array, collected⟩

end JakartaCheck.Endpoints
