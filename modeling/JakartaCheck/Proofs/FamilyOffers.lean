import JakartaCheck.Proofs.AnnotationLayout
import JakartaCheck.Proofs.DraftedEdits
import JakartaCheck.Proofs.FamilyAlternatives

/-!
# What the families of fixes offer

`Family.Mends` says when a family has something to change at the declaration that a diagnostic
points at. In a well-formed unit nothing else can go wrong: the family then answers with proposals,
and the edits of each of them can be applied (`Family.propose_offers`).
-/

namespace JakartaCheck

theorem eq_ok_of_toOption {ε α : Type} {x : Except ε α} {a : α} (h : x.toOption = some a) :
    x = .ok a := by
  cases x with
  | ok b => exact congrArg Except.ok (Option.some.inj h)
  | error e => cases h

namespace Located

/-- The declaration is one of the unit. -/
def Of (unit : CompilationUnit) : Located → Prop
  | .type t => t ∈ unit.types
  | .field t f => t ∈ unit.types ∧ f ∈ t.fields
  | .method t m => t ∈ unit.types ∧ m ∈ t.methods
  | .parameter t m p => t ∈ unit.types ∧ m ∈ t.methods ∧ p ∈ m.params

variable {unit : CompilationUnit} {found : Located}

theorem Of.owner_mem (h : found.Of unit) : found.owner ∈ unit.types := by
  cases found with
  | type t => exact h
  | field t f => exact h.1
  | method t m => exact h.1
  | parameter t m p => exact h.1

theorem Of.span_fits (hwf : unit.WellFormed) (h : found.Of unit) : found.span.Fits unit.text := by
  have howner := hwf.types _ h.owner_mem
  cases found with
  | type t => exact howner.span_fits
  | field t f => exact (howner.fields f h.2).span_fits
  | method t m => exact (howner.methods m h.2).span_fits
  | parameter t m p => exact ((howner.methods m h.2.1).params p h.2.2).1.span_fits

theorem Of.modifiers (hwf : unit.WellFormed) (h : found.Of unit) :
    ∃ place, found.modifiers.WellFormed unit.text place := by
  have howner := hwf.types _ h.owner_mem
  cases found with
  | type t => exact ⟨_, howner.modifiers⟩
  | field t f => exact ⟨_, (howner.fields f h.2).modifiers⟩
  | method t m => exact ⟨_, (howner.methods m h.2).modifiers⟩
  | parameter t m p => exact ⟨_, ((howner.methods m h.2.1).params p h.2.2).1.modifiers⟩

end Located

namespace Modifiers.WellFormed

variable {text : String} {place : Span → Bool} {m : Modifiers}

/-- Where an annotation is put: in front of the modifiers, or of the whole declaration. -/
theorem start_cut (h : m.WellFormed text place) {start : Nat} (hstart : Text.isBoundary text start) :
    Text.isBoundary text ((m.span.map (·.start)).getD start) := by
  cases hspan : m.span with
  | none => exact hstart
  | some s => exact (h.span_fits s (by simp [hspan])).start_cut

end Modifiers.WellFormed

namespace Family

/-- The family has something to change at the declaration. -/
def Mends (unit : CompilationUnit) (d : Diagnostic) (found : Located) : Family → Prop
  | .annotate fqn _ .declaration => unit.hasAnnotationOf found.modifiers fqn = false
  | .annotate fqn _ .singleConstructor => ∃ c, found.owner.constructors = [c] ∧
      unit.hasAnnotationOf c.modifiers fqn = false
  | .removeAnnotations => ∃ a ∈ removable found, a.simpleName ∈ d.names
  | .replaceScope _ scopes =>
    ∃ a ∈ found.owner.modifiers.annotations, unit.annotationIsAny scopes a
  | .addAttributes defaults => ∃ a ∈ found.modifiers.annotations, a.nameSpan = d.span ∧
      ∃ default ∈ defaults, default.1 ∈ d.names ∧ a.hasArg default.1 = false
  | .addModifier keyword => found.modifiers.hasKeyword keyword = false ∧
      ((∃ t m, found = .method t m) ∨ ∃ t f, found = .field t f)
  | .removeModifier keyword => found.modifiers.hasKeyword keyword
  | .addSupertype _ .superclass => found.owner.isClass ∧ found.owner.superclass = none
  | .addSupertype fqn .interface => found.owner.isClass ∧
      found.owner.interfaces.any (unit.typeIs · fqn) = false
  | .addNoArgConstructor visibility => found.owner.isClass ∧
      ∀ c ∈ found.owner.constructors, c.params.isEmpty → c.modifiers.hasKeyword visibility = false
  | .removeParameters => ∃ t m, found = .method t m ∧ m.params ≠ []
  | .changeReturnType type =>
    ∃ t m r, found = .method t m ∧ m.returnType = some r ∧ r.text ≠ type
  | .foreign _ => False
  | .alternatives _ => False

/-- The answer has proposals, and all of them can be applied. -/
def Offers (text : String) (answer : FixResult (List Proposal)) : Prop :=
  ∃ proposals, answer = .ok proposals ∧ proposals ≠ [] ∧
    ∀ p ∈ proposals, p.edits ≠ [] ∧ Edit.Applicable text p.edits

variable {unit : CompilationUnit} {d : Diagnostic} {found : Located} {text : String}

theorem offers_single {label : String} {edits : List Edit}
    (h : edits ≠ [] ∧ Edit.Applicable text edits) : Offers text (.ok [⟨label, edits⟩]) :=
  ⟨_, rfl, List.cons_ne_nil _ _, fun _ hp => List.mem_singleton.1 hp ▸ h⟩

theorem locate_eq (hfound : unit.declarationAt? d.span = some found) :
    locate d unit = .ok found := by
  rw [locate, hfound]

theorem applicable_replace (hwf : unit.WellFormed) {s : Span} (hs : s.Fits unit.text) (new : String) :
    ∃ edits, Draft.replace [] s new = .ok edits ∧ edits ≠ [] ∧ Edit.Applicable unit.text edits := by
  obtain ⟨r, hr, -, hfits⟩ := hs.toRange hwf.small
  refine ⟨[⟨r, new⟩], ?_, List.cons_ne_nil _ _, Edit.applicable_single hfits⟩
  rw [Draft.replace, hr]
  rfl

theorem applicable_insert (hwf : unit.WellFormed) {offset : Nat}
    (hcut : Text.isBoundary unit.text offset) (new : String) :
    Draft.insert [] offset new ≠ [] ∧ Edit.Applicable unit.text (Draft.insert [] offset new) := by
  have hplaces : Imports.Places unit none := fun _ h => by cases h
  exact Imports.insert_applicable hplaces hcut hwf new

/-! ### Annotations -/

theorem proposeAnnotate_offers (hwf : unit.WellFormed) {fqn : String} {value : AnnotationValue}
    {target : AnnotationTarget} {m : Modifiers} {start : Nat} {name : String}
    {place : Span → Bool} (hfound : unit.declarationAt? d.span = some found)
    (hplace : annotationPlace target d found = .ok (m, start, name))
    (hm : m.WellFormed unit.text place) (hstart : Text.isBoundary unit.text start)
    (hno : unit.hasAnnotationOf m fqn = false) :
    Offers unit.text (proposeAnnotate fqn value target d unit) := by
  have hcut := hm.start_cut hstart
  have hplaces := Imports.typeReference_places hwf fqn
  simp only [proposeAnnotate, locate_eq hfound, hplace, hno, bind, Except.bind, Bool.false_eq_true,
    if_false]
  exact offers_single (Imports.insert_applicable hplaces hcut hwf _)

theorem mem_removable {a : AnnotationUse} (ha : a ∈ found.modifiers.annotations) :
    a ∈ removable found := by
  cases found with
  | method t m => exact List.mem_append_left _ ha
  | type t => exact ha
  | field t f => exact ha
  | parameter t m p => exact ha

/-- What a fix may remove are annotations of the owner, in their order. -/
theorem removable_sublist_owner (hof : found.Of unit) :
    (removable found).Sublist found.owner.annotations := by
  have hmembers : ∀ t : TypeDecl, t.memberAnnotations.Sublist t.annotations :=
    fun t => List.sublist_append_right _ _
  have hmethod : ∀ t : TypeDecl, ∀ m ∈ t.methods, m.annotations.Sublist t.annotations :=
    fun t m hm => ((sublist_flatMap hm _).trans (List.sublist_append_right _ _)).trans (hmembers t)
  cases found with
  | type t => exact List.sublist_append_left _ _
  | field t f =>
    have hfield : f.modifiers.annotations.Sublist t.memberAnnotations :=
      (sublist_flatMap hof.2 (·.modifiers.annotations)).trans (List.sublist_append_left _ _)
    exact hfield.trans (hmembers t)
  | method t m => exact hmethod t m hof.2
  | parameter t m p =>
    have hparam : p.modifiers.annotations.Sublist m.annotations :=
      (sublist_flatMap hof.2.2 (·.modifiers.annotations)).trans (List.sublist_append_right _ _)
    exact hparam.trans (hmethod t m hof.2.1)

theorem removable_sublist (hof : found.Of unit) : (removable found).Sublist unit.annotations :=
  (removable_sublist_owner hof).trans (sublist_flatMap hof.owner_mem _)

theorem removable_solid (h : unit.AnnotationsApart) (hof : found.Of unit) :
    ∀ a ∈ removable found, a.span.Solid unit.text :=
  fun a ha => h.solid a ((removable_sublist hof).subset ha)

theorem removable_disjoint (h : unit.AnnotationsApart) (hof : found.Of unit) :
    (removable found).Pairwise fun a b => a.span.Disjoint b.span :=
  h.disjoint.sublist (removable_sublist hof)

/-- The answer to a name: the proposal that deletes the annotations of the name, if there are any. -/
def Answers (text : String) (candidates : List AnnotationUse) (name : String)
    (answer : Option Proposal) : Prop :=
  ∃ deletions, List.Forall₂ (Deletes text) (candidates.filter (·.simpleName == name)) deletions ∧
    answer = if deletions.isEmpty then none else some ⟨s!"Remove @{name}", deletions⟩

theorem removeNamed?_eq (hsmall : Text.length text < ByteRange.modulus)
    {candidates : List AnnotationUse} (hfits : ∀ a ∈ candidates, a.span.Fits text)
    (name : String) :
    ∃ answer, removeNamed? text candidates name = .ok answer ∧ Answers text candidates name answer := by
  obtain ⟨deletions, heq, hall⟩ :=
    deleteAll_eq hsmall (fun a ha => hfits a (List.mem_filter.1 ha).1) []
  refine ⟨_, ?_, deletions, hall, rfl⟩
  rw [removeNamed?, heq]
  rfl

section

variable {candidates : List AnnotationUse} {name : String} {answer : Option Proposal} {p : Proposal}

theorem Answers.deletes (h : Answers text candidates name (some p)) :
    p.label = s!"Remove @{name}" ∧ p.edits ≠ [] ∧
      List.Forall₂ (Deletes text) (candidates.filter (·.simpleName == name)) p.edits := by
  obtain ⟨deletions, hall, hanswer⟩ := h
  split at hanswer
  · cases hanswer
  · rename_i hne
    obtain rfl := Option.some.inj hanswer
    exact ⟨rfl, fun he => hne (List.isEmpty_iff.2 he), hall⟩

/-- There is a proposal exactly if there is something to remove. -/
theorem Answers.isSome_iff (h : Answers text candidates name answer) :
    answer.isSome ↔ candidates.filter (·.simpleName == name) ≠ [] := by
  obtain ⟨deletions, hall, rfl⟩ := h
  have hempty : deletions = [] ↔ candidates.filter (·.simpleName == name) = [] := by
    rw [← List.length_eq_zero_iff, ← hall.length_eq, List.length_eq_zero_iff]
  by_cases hnone : deletions = []
  · simpa [hnone] using hempty.1 hnone
  · simpa [hnone] using mt hempty.2 hnone

theorem Answers.applicable (h : Answers text candidates name (some p))
    (hsolid : ∀ a ∈ candidates, a.span.Solid text)
    (hdisjoint : candidates.Pairwise fun a b => a.span.Disjoint b.span) :
    Edit.Applicable text p.edits :=
  applicable_of_deletes h.deletes.2.2 (fun a ha => hsolid a (List.mem_filter.1 ha).1)
    (hdisjoint.filter _)

end

theorem exists_mapM_eq_ok {α β : Type} {f : α → Outcome β} {P : α → β → Prop} {xs : List α}
    (h : ∀ x ∈ xs, ∃ y, f x = .ok y ∧ P x y) : ∃ ys, xs.mapM f = .ok ys ∧ List.Forall₂ P xs ys := by
  induction xs with
  | nil => exact ⟨[], rfl, .nil⟩
  | cons x xs ih =>
    obtain ⟨⟨y, hy, hP⟩, hrest⟩ := List.forall_mem_cons.1 h
    obtain ⟨ys, hys, hall⟩ := ih hrest
    refine ⟨y :: ys, ?_, .cons hP hall⟩
    rw [List.mapM_cons, hy, hys]
    rfl

theorem exists_of_mapM_eq_ok {α β : Type} {f : α → Outcome β} {xs : List α} {ys : List β}
    (h : xs.mapM f = .ok ys) {y : β} (hy : y ∈ ys) : ∃ x ∈ xs, f x = .ok y := by
  induction xs generalizing ys with
  | nil =>
    cases h
    cases hy
  | cons x xs ih =>
    rw [List.mapM_cons] at h
    cases hx : f x with
    | error fault => rw [hx] at h; cases h
    | ok z =>
      cases hrest : xs.mapM f with
      | error fault => rw [hx, hrest] at h; cases h
      | ok zs =>
        rw [hx, hrest] at h
        obtain rfl : z :: zs = ys := Except.ok.inj h
        rcases List.mem_cons.1 hy with rfl | hy
        · exact ⟨x, List.mem_cons_self, hx⟩
        · obtain ⟨w, hw, hfw⟩ := ih hrest hy
          exact ⟨w, List.mem_cons_of_mem _ hw, hfw⟩

/-- Each name is answered on its own. The proposals among the answers are offered, unless there are
none. -/
theorem proposeRemoveAnnotations_eq_of_fits (hsmall : Text.length unit.text < ByteRange.modulus)
    (hfits : ∀ a ∈ removable found, a.span.Fits unit.text) (hnames : d.names ≠ [])
    (hfound : unit.declarationAt? d.span = some found) :
    ∃ answers, List.Forall₂ (Answers unit.text (removable found)) d.names answers ∧
      proposeRemoveAnnotations d unit =
        if answers.filterMap id = [] then decline .nothingToChange else .ok (answers.filterMap id) := by
  obtain ⟨answers, hanswers, hall⟩ := exists_mapM_eq_ok fun name (_ : name ∈ d.names) =>
    removeNamed?_eq hsmall hfits name
  refine ⟨answers, hall, ?_⟩
  have hsome : d.names.isEmpty = false := by simpa using hnames
  simp only [proposeRemoveAnnotations, hsome, locate_eq hfound, hanswers, Outcome.toFix,
    Except.mapError, bind, Except.bind, Bool.false_eq_true, if_false, List.isEmpty_iff]
  split <;> rfl

theorem proposeRemoveAnnotations_eq (h : unit.AnnotationsApart) (hnames : d.names ≠ [])
    (hfound : unit.declarationAt? d.span = some found) (hof : found.Of unit) :
    ∃ answers, List.Forall₂ (Answers unit.text (removable found)) d.names answers ∧
      proposeRemoveAnnotations d unit =
        if answers.filterMap id = [] then decline .nothingToChange else .ok (answers.filterMap id) :=
  proposeRemoveAnnotations_eq_of_fits h.small (fun a ha => (removable_solid h hof a ha).toFits) hnames
    hfound

theorem proposeRemoveAnnotations_offers (hwf : unit.WellFormed)
    (hfound : unit.declarationAt? d.span = some found) (hof : found.Of unit)
    (hmends : Mends unit d found .removeAnnotations) :
    Offers unit.text (proposeRemoveAnnotations d unit) := by
  obtain ⟨a, ha, hname⟩ := hmends
  have hapart := hwf.annotationsApart
  obtain ⟨answers, hall, heq⟩ :=
    proposeRemoveAnnotations_eq hapart (List.ne_nil_of_mem hname) hfound hof
  have hsome : answers.filterMap id ≠ [] := by
    obtain ⟨answer, hanswer, hanswers⟩ := exists_of_mem_left hall hname
    have hcarried : a ∈ (removable found).filter (·.simpleName == a.simpleName) :=
      List.mem_filter.2 ⟨ha, beq_self_eq_true _⟩
    obtain ⟨p, rfl⟩ :=
      Option.isSome_iff_exists.1 (hanswers.isSome_iff.2 (List.ne_nil_of_mem hcarried))
    have hmem : p ∈ answers.filterMap id := by simpa using hanswer
    exact List.ne_nil_of_mem hmem
  refine ⟨answers.filterMap id, by rw [heq, if_neg hsome], hsome, fun p hp => ?_⟩
  have hmem : some p ∈ answers := by simpa using hp
  obtain ⟨name, -, hanswers⟩ := exists_of_mem_right hall hmem
  exact ⟨hanswers.deletes.2.1,
    hanswers.applicable (removable_solid hapart hof) (removable_disjoint hapart hof)⟩

theorem imports_disjoint (hwf : unit.WellFormed) {t : TypeDecl} (ht : t ∈ unit.types) {s : Span}
    (hs : t.span.contains s) {i : ImportDecl} (hi : i ∈ unit.imports) : s.Disjoint i.span :=
  ((hwf.imports i hi).2 t ht).symm.mono hs (Span.contains_self _)

/-- The first scope is replaced and the others are removed: they come after it, so that an import in
front of the type stays clear of them. -/
theorem proposeReplaceScope_offers (hwf : unit.WellFormed) {scope : String} {scopes : List String}
    (hfound : unit.declarationAt? d.span = some found) (hof : found.Of unit)
    (hmends : Mends unit d found (.replaceScope scope scopes)) :
    Offers unit.text (proposeReplaceScope scope scopes d unit) := by
  have ht := hof.owner_mem
  have hm := (hwf.types _ ht).modifiers
  obtain ⟨a, ha, hscope⟩ := hmends
  have hmem : a ∈ found.owner.modifiers.annotations.filter (unit.annotationIsAny scopes) :=
    List.mem_filter.2 ⟨ha, hscope⟩
  obtain ⟨first, rest, hsplit⟩ := List.exists_cons_of_ne_nil (List.ne_nil_of_mem hmem)
  have hsub : ∀ b ∈ first :: rest, b ∈ found.owner.modifiers.annotations :=
    fun b hb => (List.mem_filter.1 (hsplit ▸ hb)).1
  have hordered : (first :: rest).Pairwise fun a b => a.span.stop ≤ b.span.start :=
    hsplit ▸ hm.ordered.filter _
  have hsolid : ∀ b ∈ first :: rest, b.span.Solid unit.text := fun b hb => hm.solid (hsub b hb)
  have hinside : ∀ b ∈ first :: rest, found.owner.span.contains b.span := fun b hb =>
    (TypeDecl.isHeader_iff.1 (hm.annotations b (hsub b hb)).2).1
  obtain ⟨hfirst, hrest⟩ := List.forall_mem_cons.1 hsolid
  obtain ⟨hbefore, hothers⟩ := List.pairwise_cons.1 hordered
  obtain ⟨range, hrange, hspan, hfits⟩ := hfirst.toRange hwf.small
  have hne : range.start < range.stop := by
    have := hfirst.nonempty
    rw [← hspan] at this
    exact this
  generalize hreference : Imports.typeReference unit scope = reference
  obtain ⟨written, imported⟩ := reference
  have hplaces : Imports.Places unit imported := by
    have := Imports.typeReference_places hwf scope
    rwa [hreference] at this
  obtain ⟨deletions, hdeletions, hall⟩ :=
    deleteAll_eq hwf.small (fun a ha => (hrest a ha).toFits)
      (Draft.start imported ++ [⟨range, s!"@{written}"⟩])
  have happ : Edit.Applicable unit.text
      (Draft.start imported ++ [⟨range, s!"@{written}"⟩] ++ deletions) := by
    have hstart : found.owner.span.start ≤ range.start := by
      have := Span.contains_iff.1 (hinside first List.mem_cons_self)
      rw [← hspan] at this
      exact this.1
    have hdeletes : ∀ y ∈ deletions, range.stop ≤ y.range.start ∧ y.range.start < y.range.stop ∧
        ∀ i ∈ unit.imports, y.range.toSpan.Disjoint i.span := by
      intro y hy
      obtain ⟨b, hb, hdel⟩ := exists_of_mem_right hall hy
      have hle := hbefore b hb
      have hb' := (hrest b hb).nonempty
      have hclear := hdel.removal.disjoint hfirst (.inr hle)
      have := hdel.removal.start_le
      have := hdel.removal.le_stop
      refine ⟨?_, ?_, fun i hi => ?_⟩
      · rw [← hspan] at hclear hle
        unfold Span.Disjoint at hclear
        simp only [ByteRange.toSpan] at *
        omega
      · simp only [ByteRange.toSpan] at *
        omega
      · exact hdel.removal.disjoint (hwf.imports i hi).1
          (imports_disjoint hwf ht (hinside b (List.mem_cons_of_mem _ hb)) hi)
    refine Edit.applicable_append (Edit.applicable_append ?_ (Edit.applicable_single hfits) ?_)
      (applicable_of_deletes hall hrest (hothers.imp .inl)) ?_
    · cases imported with
      | none => exact ⟨by simp [Draft.start], .nil⟩
      | some edit =>
        obtain ⟨offset, new, rfl, hplace⟩ := hplaces edit rfl
        exact Edit.applicable_single (Edit.fits_insert hplace.cut)
    · intro x hx y hy
      obtain rfl := List.mem_singleton.1 hy
      obtain ⟨offset, new, rfl, hplace⟩ := hplaces x (by simpa [Draft.start] using hx)
      refine hplace.apart hwf ht hstart (fun i hi => ?_) hne new
      exact hspan ▸ imports_disjoint hwf ht (hinside first List.mem_cons_self) hi
    · intro x hx y hy
      obtain ⟨hafter, hyne, hyimports⟩ := hdeletes y hy
      rcases List.mem_append.1 hx with hx | hx
      · obtain ⟨offset, new, rfl, hplace⟩ := hplaces x (by simpa [Draft.start] using hx)
        exact hplace.apart hwf ht (by omega) hyimports hyne new
      · obtain rfl := List.mem_singleton.1 hx
        exact ByteRange.apart_of_disjoint (.inl hafter) hne
  have hreplace : Draft.replace (Draft.start imported) first.span s!"@{written}" =
      .ok (Draft.start imported ++ [⟨range, s!"@{written}"⟩]) := by
    rw [Draft.replace, hrange]
    rfl
  simp only [proposeReplaceScope, locate_eq hfound, hsplit, hreference, hreplace, hdeletions,
    Outcome.toFix, Except.mapError, bind, Except.bind]
  exact offers_single ⟨by simp, happ⟩

/-- Adding arguments changes the parentheses of an annotation, or appends them. -/
theorem addArguments_applicable (hwf : unit.WellFormed) {a : AnnotationUse}
    (ha : a.WellFormed unit.text) (rendered : String) : ∃ edits,
      addArguments a rendered = .ok edits ∧ edits ≠ [] ∧ Edit.Applicable unit.text edits := by
  rw [addArguments]
  split
  · exact ⟨_, rfl, applicable_insert hwf ha.solid.stop_cut _⟩
  case _ span hspan hargs =>
    have hopen := ha.args_open span (by simp [hspan])
    obtain ⟨x, y, htext, hx⟩ := Text.charAt?_eq_some_iff.1 hopen
    have hcut : Text.isBoundary unit.text (span.start + 1) := by
      refine Text.isBoundary_iff.2 ⟨x ++ ['('], y, by simpa using htext, ?_⟩
      have hone : ('(' : Char).utf8Size = 1 := by decide
      rw [Text.byteLen_append, Text.byteLen_cons, Text.byteLen_nil]
      omega
    exact ⟨_, rfl, applicable_insert hwf hcut _⟩
  case _ span first rest hspan hargs =>
    split
    · exact applicable_replace hwf (ha.args_fit first (by simp [hargs])) _
    · have hlast : rest.getLast?.getD first ∈ a.args := by
        rw [hargs]
        cases hl : rest.getLast? with
        | none => exact List.mem_cons_self
        | some arg => exact List.mem_cons_of_mem _ (List.mem_of_getLast? hl)
      exact ⟨_, rfl, applicable_insert hwf (ha.args_fit _ hlast).stop_cut _⟩

theorem proposeAddAttributes_offers (hwf : unit.WellFormed) {defaults : List (String × String)}
    (hfound : unit.declarationAt? d.span = some found) (hof : found.Of unit)
    (hmends : Mends unit d found (.addAttributes defaults)) :
    Offers unit.text (proposeAddAttributes defaults d unit) := by
  obtain ⟨place, hm⟩ := hof.modifiers hwf
  obtain ⟨a, ha, hspan, default, hdefault, hname, harg⟩ := hmends
  have hawf := (hm.annotations a ha).1
  have hfind : found.modifiers.annotations.find? (·.span.contains d.span) = some a := by
    refine find?_contains_eq hm.disjoint ha ?_ ?_
    · rw [← hspan]
      exact hawf.name_inside
    · rw [← hspan]
      exact hawf.name_fits.nonempty
  have hmissing : (defaults.filter fun entry =>
      (d.names.isEmpty || d.names.contains entry.1) && !a.hasArg entry.1).isEmpty = false := by
    refine Bool.eq_false_iff.2 fun he => ?_
    have := List.filter_eq_nil_iff.1 (List.isEmpty_iff.1 he) default hdefault
    simp [hname, harg] at this
  simp only [proposeAddAttributes, locate_eq hfound, hfind, bind, Except.bind]
  rw [if_neg (Bool.eq_false_iff.1 hmissing)]
  obtain ⟨edits, hedits, hgood⟩ := addArguments_applicable hwf hawf
    (String.intercalate ", " ((defaults.filter fun entry =>
      (d.names.isEmpty || d.names.contains entry.1) && !a.hasArg entry.1).map
        fun entry => s!"{entry.1} = {entry.2}"))
  simp only [hedits, Outcome.toFix, Except.mapError]
  exact offers_single hgood

/-! ### Modifiers -/

theorem setModifier_applicable (hwf : unit.WellFormed) {m : Modifiers} {place : Span → Bool}
    (hm : m.WellFormed unit.text place) {offset : Nat} (hcut : Text.isBoundary unit.text offset)
    {keyword : String} (hno : m.hasKeyword keyword = false) : ∃ edits,
      setModifier m offset keyword = .ok edits ∧ edits ≠ [] ∧ Edit.Applicable unit.text edits := by
  rw [setModifier, hno]
  simp only [Bool.false_eq_true, if_false]
  split
  case _ k hk =>
    have hmem : k ∈ m.keywords := by
      split at hk
      · exact List.mem_of_find?_eq_some hk
      · cases hk
    obtain ⟨edits, hedits, hgood⟩ := applicable_replace hwf (hm.keywords k hmem).toFits keyword
    exact ⟨edits, by rw [hedits]; rfl, hgood⟩
  case _ =>
    refine ⟨_, rfl, applicable_insert hwf ?_ _⟩
    cases hhead : m.keywords.head? with
    | none => exact hcut
    | some k => exact (hm.keywords k (List.mem_of_mem_head? hhead)).start_cut

theorem proposeAddModifier_offers (hwf : unit.WellFormed) {keyword : String}
    (hfound : unit.declarationAt? d.span = some found) (hof : found.Of unit)
    (hmends : Mends unit d found (.addModifier keyword)) :
    Offers unit.text (proposeAddModifier keyword d unit) := by
  obtain ⟨hno, ⟨t, m, rfl⟩ | ⟨t, f, rfl⟩⟩ := hmends
  · have hmethod := (hwf.types t hof.1).methods m hof.2
    have hcut : Text.isBoundary unit.text
        ((m.typeParamsSpan <|> m.returnType.map (·.span)).getD m.nameSpan).start := by
      cases hparams : m.typeParamsSpan with
      | some s => exact (hmethod.type_params_fit s (by simp [hparams])).start_cut
      | none =>
        cases hreturn : m.returnType with
        | some r => exact (hmethod.return_fits r (by simp [hreturn])).start_cut
        | none => exact hmethod.name_fits.start_cut
    obtain ⟨edits, hedits, hgood⟩ := setModifier_applicable hwf hmethod.modifiers hcut hno
    simp only [proposeAddModifier, locate_eq hfound, Located.modifiers, hedits, bind, Except.bind,
      pure, Except.pure]
    exact offers_single hgood
  · have hfield := (hwf.types t hof.1).fields f hof.2
    obtain ⟨edits, hedits, hgood⟩ :=
      setModifier_applicable hwf hfield.modifiers hfield.type_fits.start_cut hno
    simp only [proposeAddModifier, locate_eq hfound, Located.modifiers, hedits, bind, Except.bind,
      pure, Except.pure]
    exact offers_single hgood

theorem proposeRemoveModifier_offers (hwf : unit.WellFormed) {keyword : String}
    (hfound : unit.declarationAt? d.span = some found) (hof : found.Of unit)
    (hmends : Mends unit d found (.removeModifier keyword)) :
    Offers unit.text (proposeRemoveModifier keyword d unit) := by
  obtain ⟨place, hm⟩ := hof.modifiers hwf
  obtain ⟨k, hk⟩ := Option.isSome_iff_exists.1 (show (found.modifiers.keyword? keyword).isSome from hmends)
  have hsolid := hm.keywords k (List.mem_of_find?_eq_some hk)
  obtain ⟨r, hr, hremoval⟩ := Draft.removalSpan_eq hsolid.toFits
  obtain ⟨range, hrange, -, hfits⟩ := hremoval.toRange (Nat.le_of_lt hsolid.nonempty) hwf.small
  simp only [proposeRemoveModifier, locate_eq hfound, hk, hr, hrange, Draft.delete, Draft.replace,
    Outcome.toFix, Except.mapError, bind, Except.bind, pure, Except.pure]
  exact offers_single ⟨by simp, Edit.applicable_single hfits⟩

/-! ### Members and supertypes -/

theorem locateClass_eq (hfound : unit.declarationAt? d.span = some found)
    (hclass : found.owner.isClass) : locateClass d unit = .ok found.owner := by
  simp only [locateClass, locate_eq hfound, bind, Except.bind, hclass, if_true]
  rfl

theorem headerInsertOffset_cut {t : TypeDecl} (ht : t.WellFormed text) :
    Text.isBoundary text t.headerInsertOffset := by
  rw [TypeDecl.headerInsertOffset]
  split
  case _ s hs => exact (ht.type_params_fit s (by simp [hs])).stop_cut
  case _ => exact ht.name_fits.stop_cut

theorem proposeAddSupertype_offers (hwf : unit.WellFormed) {fqn : String} {kind : SupertypeKind}
    (hfound : unit.declarationAt? d.span = some found) (hof : found.Of unit)
    (hmends : Mends unit d found (.addSupertype fqn kind)) :
    Offers unit.text (proposeAddSupertype fqn kind d unit) := by
  have ht := hwf.types _ hof.owner_mem
  have hplaces := Imports.typeReference_places hwf fqn
  cases kind with
  | superclass =>
    obtain ⟨hclass, hnone⟩ := hmends
    simp only [proposeAddSupertype, locateClass_eq hfound hclass, hnone, bind, Except.bind]
    exact offers_single (Imports.insert_applicable hplaces (headerInsertOffset_cut ht) hwf _)
  | interface =>
    obtain ⟨hclass, hno⟩ := hmends
    simp only [proposeAddSupertype, locateClass_eq hfound hclass, hno, bind, Except.bind,
      Bool.false_eq_true, if_false]
    refine offers_single (Imports.insert_applicable hplaces ?_ hwf _)
    split
    case _ last hlast =>
      have hmem : last ∈ found.owner.supertypes := List.mem_append_right _ (List.mem_of_getLast? hlast)
      exact (ht.supertypes_fit last hmem).stop_cut
    case _ superclass hlast hsuper =>
      have hmem : superclass ∈ found.owner.supertypes := List.mem_append_left _ (by simp [hsuper])
      exact (ht.supertypes_fit superclass hmem).stop_cut
    case _ => exact headerInsertOffset_cut ht

theorem lineIndent_eq {offset : Nat} (hcut : Text.isBoundary text offset) :
    ∃ indent, Draft.lineIndent text offset = .ok indent := by
  obtain ⟨a, b, htext, rfl⟩ := Text.isBoundary_iff.1 hcut
  rw [Draft.lineIndent, Draft.lineBefore_eq htext]
  exact ⟨_, rfl⟩

theorem memberIndent_eq {t : TypeDecl} (ht : t.WellFormed text) :
    ∃ indent, memberIndent text t = .ok indent := by
  rw [memberIndent]
  split
  case _ offset hmin =>
    have hmem := (List.min?_eq_some_iff.1 hmin).1
    rcases List.mem_append.1 hmem with hmem | hmem
    · obtain ⟨f, hf, rfl⟩ := List.mem_map.1 hmem
      exact lineIndent_eq (ht.fields f hf).span_fits.start_cut
    · obtain ⟨m, hm, rfl⟩ := List.mem_map.1 hmem
      exact lineIndent_eq (ht.methods m hm).span_fits.start_cut
  case _ =>
    obtain ⟨indent, hindent⟩ := lineIndent_eq ht.span_fits.start_cut
    rw [hindent]
    exact ⟨_, rfl⟩

/-- A constructor goes in behind the brace that opens the body. -/
theorem afterBrace_cut {t : TypeDecl} (ht : t.WellFormed text) :
    Text.isBoundary text (t.bodySpan.start + 1) := by
  obtain ⟨a, b, htext, ha⟩ := Text.charAt?_eq_some_iff.1 ht.body_open
  refine Text.isBoundary_iff.2 ⟨a ++ ['\x7b'], b, by simpa using htext, ?_⟩
  have hone : ('\x7b' : Char).utf8Size = 1 := by decide
  rw [Text.byteLen_append, Text.byteLen_cons, Text.byteLen_nil]
  omega

theorem proposeAddNoArgConstructor_offers (hwf : unit.WellFormed) {visibility : String}
    (hfound : unit.declarationAt? d.span = some found) (hof : found.Of unit)
    (hmends : Mends unit d found (.addNoArgConstructor visibility)) :
    Offers unit.text (proposeAddNoArgConstructor visibility d unit) := by
  have ht := hwf.types _ hof.owner_mem
  obtain ⟨hclass, hno⟩ := hmends
  simp only [proposeAddNoArgConstructor, locateClass_eq hfound hclass, bind, Except.bind]
  split
  case _ c hc =>
    have hmem := List.mem_of_find?_eq_some hc
    have hmethod := ht.methods c (List.mem_filter.1 hmem).1
    obtain ⟨edits, hedits, hgood⟩ := setModifier_applicable hwf hmethod.modifiers
      hmethod.name_fits.start_cut (hno c hmem (by simpa using List.find?_some hc))
    simp only [hedits]
    exact offers_single hgood
  case _ =>
    obtain ⟨indent, hindent⟩ := memberIndent_eq ht
    simp only [hindent, Outcome.toFix, Except.mapError]
    exact offers_single (applicable_insert hwf (afterBrace_cut ht) _)

theorem proposeRemoveParameters_offers (hwf : unit.WellFormed)
    (hfound : unit.declarationAt? d.span = some found) (hof : found.Of unit)
    (hmends : Mends unit d found .removeParameters) :
    Offers unit.text (proposeRemoveParameters d unit) := by
  obtain ⟨t, m, rfl, hparams⟩ := hmends
  have hmethod := (hwf.types t hof.1).methods m hof.2
  have hne : m.params.isEmpty = false := by simpa using hparams
  obtain ⟨edits, hedits, hgood⟩ := applicable_replace hwf hmethod.params_fit "()"
  simp only [proposeRemoveParameters, locate_eq hfound, hne, hedits, Outcome.toFix, Except.mapError,
    bind, Except.bind, pure, Except.pure, Bool.false_eq_true, if_false]
  exact offers_single hgood

theorem proposeChangeReturnType_offers (hwf : unit.WellFormed) {type : String}
    (hfound : unit.declarationAt? d.span = some found) (hof : found.Of unit)
    (hmends : Mends unit d found (.changeReturnType type)) :
    Offers unit.text (proposeChangeReturnType type d unit) := by
  obtain ⟨t, m, r, rfl, hreturn, hne⟩ := hmends
  have hmethod := (hwf.types t hof.1).methods m hof.2
  have hdiff : (r.text == type) = false := beq_eq_false_iff_ne.2 hne
  obtain ⟨edits, hedits, hgood⟩ :=
    applicable_replace hwf (hmethod.return_fits r (by simp [hreturn])) type
  simp only [proposeChangeReturnType, locate_eq hfound, hreturn, hdiff, hedits, Outcome.toFix,
    Except.mapError, bind, Except.bind, Bool.false_eq_true, if_false]
  exact offers_single hgood

/-! ### All families -/

/-- A family that has something to change offers proposals, and they can be applied. -/
theorem propose_offers (hwf : unit.WellFormed) (hfound : unit.declarationAt? d.span = some found)
    (hof : found.Of unit) {family : Family} (hmends : Mends unit d found family) :
    Offers unit.text (propose d unit family) := by
  cases family with
  | annotate fqn value target =>
    rw [propose]
    cases target with
    | declaration =>
      obtain ⟨place, hm⟩ := hof.modifiers hwf
      exact proposeAnnotate_offers hwf hfound rfl hm (hof.span_fits hwf).start_cut hmends
    | singleConstructor =>
      obtain ⟨c, hc, hno⟩ := hmends
      have hmem : c ∈ found.owner.constructors := by simp [hc]
      have hmethod := (hwf.types _ hof.owner_mem).methods c (List.mem_filter.1 hmem).1
      have hplace : annotationPlace .singleConstructor d found =
          .ok (c.modifiers, c.span.start, c.name) := by rw [annotationPlace, hc]
      exact proposeAnnotate_offers hwf hfound hplace hmethod.modifiers hmethod.span_fits.start_cut hno
  | removeAnnotations =>
    rw [propose]
    exact proposeRemoveAnnotations_offers hwf hfound hof hmends
  | replaceScope scope scopes =>
    rw [propose]
    exact proposeReplaceScope_offers hwf hfound hof hmends
  | addAttributes defaults =>
    rw [propose]
    exact proposeAddAttributes_offers hwf hfound hof hmends
  | addModifier keyword =>
    rw [propose]
    exact proposeAddModifier_offers hwf hfound hof hmends
  | removeModifier keyword =>
    rw [propose]
    exact proposeRemoveModifier_offers hwf hfound hof hmends
  | addSupertype fqn kind =>
    rw [propose]
    exact proposeAddSupertype_offers hwf hfound hof hmends
  | addNoArgConstructor visibility =>
    rw [propose]
    exact proposeAddNoArgConstructor_offers hwf hfound hof hmends
  | removeParameters =>
    rw [propose]
    exact proposeRemoveParameters_offers hwf hfound hof hmends
  | changeReturnType type =>
    rw [propose]
    exact proposeChangeReturnType_offers hwf hfound hof hmends
  | foreign answer => exact hmends.elim
  | alternatives families => exact hmends.elim

/-- What is asked neither crashes nor proposes anything. -/
def Declines (answer : FixResult (List Proposal)) : Prop := ∃ reason, answer = decline reason

/-- The only constructor can be annotated, and there is nothing to say if there is not exactly one. -/
theorem propose_annotate_constructor (hwf : unit.WellFormed) {fqn : String} {value : AnnotationValue}
    (hfound : unit.declarationAt? d.span = some found) (hof : found.Of unit)
    (hno : ∀ c ∈ found.owner.constructors, unit.hasAnnotationOf c.modifiers fqn = false) :
    Offers unit.text (propose d unit (.annotate fqn value .singleConstructor)) ∨
      Declines (propose d unit (.annotate fqn value .singleConstructor)) := by
  by_cases hone : ∃ c, found.owner.constructors = [c]
  · obtain ⟨c, hc⟩ := hone
    exact .inl (propose_offers hwf hfound hof ⟨c, hc, hno c (by simp [hc])⟩)
  · have hplace : annotationPlace .singleConstructor d found =
        decline (.unexpectedDeclaration "a single constructor" d.span) := by
      rw [annotationPlace]
      split
      case _ c hc => exact absurd ⟨c, hc⟩ hone
      case _ => rfl
    refine .inr ⟨.unexpectedDeclaration "a single constructor" d.span, ?_⟩
    rw [propose, proposeAnnotate, locate_eq hfound]
    simp only [bind, Except.bind, hplace, decline]

theorem combine_offers {answers : List (FixResult (List Proposal))}
    (hall : ∀ answer ∈ answers, Offers text answer ∨ Declines answer)
    (hsome : ∃ answer ∈ answers, Offers text answer) : Offers text (combine answers) := by
  have hnone : ∀ answer ∈ answers, fault? answer = none := by
    intro answer hanswer
    rcases hall answer hanswer with ⟨proposals, rfl, -⟩ | ⟨reason, rfl⟩ <;> rfl
  have hfound : answers.flatMap proposed ≠ [] := by
    obtain ⟨answer, hanswer, proposals, rfl, hne, -⟩ := hsome
    obtain ⟨p, hp⟩ := List.exists_mem_of_ne_nil _ hne
    exact List.ne_nil_of_mem (List.mem_flatMap.2 ⟨_, hanswer, hp⟩)
  refine ⟨_, combine_of_proposed hnone hfound, hfound, fun p hp => ?_⟩
  obtain ⟨answer, hanswer, hp⟩ := List.mem_flatMap.1 hp
  rcases hall answer hanswer with ⟨proposals, rfl, -, hgood⟩ | ⟨reason, rfl⟩
  · exact hgood p hp
  · cases hp

/-- Families side by side offer what each of them offers, as long as one does and none crashes. -/
theorem propose_alternatives_offers {families : List Family}
    (hall : ∀ family ∈ families, Offers text (propose d unit family) ∨ Declines (propose d unit family))
    (hsome : ∃ family ∈ families, Offers text (propose d unit family)) :
    Offers text (propose d unit (.alternatives families)) := by
  rw [propose, proposeEach_eq]
  refine combine_offers ?_ ?_
  · intro answer hanswer
    obtain ⟨family, hmem, rfl⟩ := List.mem_map.1 hanswer
    exact hall family hmem
  · obtain ⟨family, hmem, hoffers⟩ := hsome
    exact ⟨_, List.mem_map_of_mem hmem, hoffers⟩

end Family

end JakartaCheck
