import JakartaCheck.Diagnostic.Basic
import JakartaCheck.Fixes.Imports
import JakartaCheck.Java.Locating

/-!
# Families of fixes

A `Family` is one kind of change, made to the declaration that a diagnostic points at. Of a family of
another make only its answers are known. Several families can be offered side by side.
-/

namespace JakartaCheck

/-- What an inserted annotation says in parentheses. -/
inductive AnnotationValue where
  | marker
  | literal (text : String)
  /-- The name of the declaration, in quotes. -/
  | declarationName
deriving DecidableEq, Repr

/-- What an annotation is put on. -/
inductive AnnotationTarget where
  | declaration
  /-- The only constructor of the class. -/
  | singleConstructor
deriving DecidableEq, Repr

inductive SupertypeKind where
  | superclass
  | interface
deriving DecidableEq, Repr

/-- A kind of change. -/
inductive Family where
  /-- Puts an annotation in front of a declaration. -/
  | annotate (fqn : String) (value : AnnotationValue) (target : AnnotationTarget)
  /-- Removes each annotation that the diagnostic names. -/
  | removeAnnotations
  /-- Replaces the `scopes` of the class by one. -/
  | replaceScope (scope : String) (scopes : List String)
  /-- Adds the arguments that the diagnostic names to an annotation. -/
  | addAttributes (defaults : List (String × String))
  | addModifier (keyword : String)
  | removeModifier (keyword : String)
  | addSupertype (fqn : String) (kind : SupertypeKind)
  | addNoArgConstructor (visibility : String)
  | removeParameters
  | changeReturnType (type : String)
  /-- A family of another make, told by what it answers. -/
  | foreign (answer : Diagnostic → CompilationUnit → FixResult (List Proposal))
  /-- All that the families propose. -/
  | alternatives (families : List Family)

namespace Family

/-- The declaration that a diagnostic points at. -/
def locate (d : Diagnostic) (unit : CompilationUnit) : FixResult Located :=
  match unit.declarationAt? d.span with
  | some found => .ok found
  | none => decline (.noDeclaration d.span)

/-- The class that a diagnostic points at. -/
def locateClass (d : Diagnostic) (unit : CompilationUnit) : FixResult TypeDecl := do
  let t := (← locate d unit).owner
  if t.isClass then return t else decline (.unexpectedDeclaration "a class" d.span)

/-! ### Annotations -/

/-- Modifiers, start and name of what an annotation is put on. -/
def annotationPlace (target : AnnotationTarget) (d : Diagnostic) (found : Located) :
    FixResult (Modifiers × Nat × String) :=
  match target with
  | .declaration => .ok (found.modifiers, found.span.start, found.name)
  | .singleConstructor =>
    match found.owner.constructors with
    | [c] => .ok (c.modifiers, c.span.start, c.name)
    | _ => decline (.unexpectedDeclaration "a single constructor" d.span)

def proposeAnnotate (fqn : String) (value : AnnotationValue) (target : AnnotationTarget)
    (d : Diagnostic) (unit : CompilationUnit) : FixResult (List Proposal) := do
  let (modifiers, start, name) ← annotationPlace target d (← locate d unit)
  if unit.hasAnnotationOf modifiers fqn then decline .nothingToChange
  let (written, imported) := Imports.typeReference unit fqn
  let args := match value with
    | .marker => ""
    | .literal text => s!"({text})"
    | .declarationName => s!"(\"{name}\")"
  let offset := (modifiers.span.map (·.start)).getD start
  let edits := Draft.insert (Draft.start imported) offset s!"@{written}{args} "
  return [⟨s!"Insert @{TypeText.lastName fqn}", edits⟩]

/-- The annotations that a fix may remove: those of a declaration, and of the parameters of a
method. -/
def removable : Located → List AnnotationUse
  | .method _ m => m.modifiers.annotations ++ m.params.flatMap (·.modifiers.annotations)
  | found => found.modifiers.annotations

/-- Adds the deletion of each annotation to the edits. -/
def deleteAll (text : String) (edits : List Edit) (annotations : List AnnotationUse) :
    Outcome (List Edit) :=
  annotations.foldlM (fun edits a => do Draft.delete edits (← Draft.removalSpan text a.span)) edits

/-- The proposal to remove all annotations of a name, unless there are none. -/
def removeNamed? (text : String) (candidates : List AnnotationUse) (name : String) :
    Outcome (Option Proposal) := do
  let edits ← deleteAll text [] (candidates.filter (·.simpleName == name))
  return if edits.isEmpty then none else some ⟨s!"Remove @{name}", edits⟩

def proposeRemoveAnnotations (d : Diagnostic) (unit : CompilationUnit) :
    FixResult (List Proposal) := do
  if d.names.isEmpty then decline (.missingData d.code)
  let candidates := removable (← locate d unit)
  let found ← (d.names.mapM (removeNamed? unit.text candidates) : Outcome _).toFix
  let proposals := found.filterMap id
  if proposals.isEmpty then decline .nothingToChange
  return proposals

def proposeReplaceScope (scope : String) (scopes : List String) (d : Diagnostic)
    (unit : CompilationUnit) : FixResult (List Proposal) := do
  let t := (← locate d unit).owner
  match t.modifiers.annotations.filter (unit.annotationIsAny scopes) with
  | [] => decline .nothingToChange
  | first :: rest =>
    let (written, imported) := Imports.typeReference unit scope
    let edits ← (Draft.replace (Draft.start imported) first.span s!"@{written}").toFix
    let edits ← (deleteAll unit.text edits rest).toFix
    return [⟨s!"Replace current scope with @{TypeText.lastName scope}", edits⟩]

/-- The edits that add `rendered` to the arguments of an annotation. A lone value has to be named
once others join it. -/
def addArguments (a : AnnotationUse) (rendered : String) : Outcome (List Edit) :=
  match a.argsSpan, a.args with
  | none, _ => .ok (Draft.insert [] a.span.stop s!"({rendered})")
  | some span, [] => .ok (Draft.insert [] (span.start + 1) rendered)
  | some _, first :: rest =>
    if rest.isEmpty && first.span == first.valueSpan then
      Draft.replace [] first.span s!"value = {first.valueText}, {rendered}"
    else .ok (Draft.insert [] (rest.getLast?.getD first).span.stop s!", {rendered}")

def proposeAddAttributes (defaults : List (String × String)) (d : Diagnostic)
    (unit : CompilationUnit) : FixResult (List Proposal) := do
  let found ← locate d unit
  match found.modifiers.annotations.find? (·.span.contains d.span) with
  | none => decline (.nothingAnnotated d.span)
  | some a =>
    let missing := defaults.filter fun (name, _) =>
      (d.names.isEmpty || d.names.contains name) && !a.hasArg name
    if missing.isEmpty then decline .nothingToChange
    let rendered :=
      String.intercalate ", " (missing.map fun (name, value) => s!"{name} = {value}")
    let edits ← (addArguments a rendered).toFix
    let listed := String.intercalate ", " (missing.map fun (name, _) => s!"'{name}'")
    return [⟨s!"Add {listed} to @{a.simpleName}", edits⟩]

/-! ### Modifiers -/

def accessKeywords : List String := ["public", "protected", "private"]

/-- The edits that set a keyword: in place of another access keyword, or in front of the keywords,
or at `offset` if there are none. -/
def setModifier (m : Modifiers) (offset : Nat) (keyword : String) : FixResult (List Edit) :=
  if m.hasKeyword keyword then decline .nothingToChange
  else
    let replaced := if accessKeywords.contains keyword then
        m.keywords.find? fun k => accessKeywords.contains k.text
      else none
    match replaced with
    | some k => (Draft.replace [] k.span keyword).toFix
    | none => .ok (Draft.insert [] ((m.keywords.head?.map (·.span.start)).getD offset)
        s!"{keyword} ")

def proposeAddModifier (keyword : String) (d : Diagnostic) (unit : CompilationUnit) :
    FixResult (List Proposal) := do
  let found ← locate d unit
  let offset ← match found with
    | .method _ m =>
      pure ((m.typeParamsSpan <|> m.returnType.map (·.span)).getD m.nameSpan).start
    | .field _ f => pure f.type.span.start
    | _ => decline (.unexpectedDeclaration "a method or field" d.span)
  let edits ← setModifier found.modifiers offset keyword
  return [⟨s!"Make '{found.name}' {keyword}", edits⟩]

def proposeRemoveModifier (keyword : String) (d : Diagnostic) (unit : CompilationUnit) :
    FixResult (List Proposal) := do
  let found ← locate d unit
  match found.modifiers.keyword? keyword with
  | none => decline .nothingToChange
  | some k =>
    let span ← (Draft.removalSpan unit.text k.span).toFix
    let edits ← (Draft.delete [] span).toFix
    return [⟨s!"Remove the '{keyword}' modifier", edits⟩]

/-! ### Members and supertypes -/

def proposeAddSupertype (fqn : String) (kind : SupertypeKind) (d : Diagnostic)
    (unit : CompilationUnit) : FixResult (List Proposal) := do
  let t ← locateClass d unit
  let (written, imported) := Imports.typeReference unit fqn
  let edits := Draft.start imported
  match kind with
  | .superclass =>
    match t.superclass with
    | some superclass => decline (.alreadyExtends t.name superclass.text)
    | none =>
      return [⟨s!"Let '{t.name}' extend '{written}'",
        Draft.insert edits t.headerInsertOffset s!" extends {written}"⟩]
  | .interface =>
    if t.interfaces.any (unit.typeIs · fqn) then decline .nothingToChange
    let (offset, clause) := match t.interfaces.getLast?, t.superclass with
      | some last, _ => (last.span.stop, ", ")
      | none, some superclass => (superclass.span.stop, " implements ")
      | none, none => (t.headerInsertOffset, " implements ")
    return [⟨s!"Let '{t.name}' implement '{written}'",
      Draft.insert edits offset (clause ++ written)⟩]

/-- The indentation of the first member, or one step more than that of the type. -/
def memberIndent (text : String) (t : TypeDecl) : Outcome String :=
  let starts := t.fields.map (·.span.start) ++ t.methods.map (·.span.start)
  match starts.min? with
  | some offset => Draft.lineIndent text offset
  | none => do return (← Draft.lineIndent text t.span.start) ++ "    "

def proposeAddNoArgConstructor (visibility : String) (d : Diagnostic) (unit : CompilationUnit) :
    FixResult (List Proposal) := do
  let t ← locateClass d unit
  match t.constructors.find? (·.params.isEmpty) with
  | some c =>
    let edits ← setModifier c.modifiers c.nameSpan.start visibility
    return [⟨s!"Make the no-arg constructor of '{t.name}' {visibility}", edits⟩]
  | none =>
    let ending := Draft.lineEnding unit.text
    let indent ← (memberIndent unit.text t).toFix
    let text := s!"{ending}{indent}{visibility} {t.name}() \x7b{ending}{indent}\x7d{ending}"
    return [⟨s!"Add a {visibility} no-arg constructor to '{t.name}'",
      Draft.insert [] (t.bodySpan.start + 1) text⟩]

def proposeRemoveParameters (d : Diagnostic) (unit : CompilationUnit) :
    FixResult (List Proposal) := do
  let method ← match ← locate d unit with
    | .method _ m => pure m
    | .parameter _ m _ => pure m
    | _ => decline (.unexpectedDeclaration "a method" d.span)
  if method.params.isEmpty then decline .nothingToChange
  let edits ← (Draft.replace [] method.paramsSpan "()").toFix
  return [⟨"Remove all parameters", edits⟩]

def proposeChangeReturnType (type : String) (d : Diagnostic) (unit : CompilationUnit) :
    FixResult (List Proposal) := do
  match ← locate d unit with
  | .method _ m =>
    match m.returnType with
    | none => decline .nothingToChange
    | some current =>
      if current.text == type then decline .nothingToChange
      let edits ← (Draft.replace [] current.span type).toFix
      return [⟨s!"Change the return type to {type}", edits⟩]
  | _ => decline (.unexpectedDeclaration "a method" d.span)

/-! ### All families -/

/-- What several answers give together, when `found` was proposed and `reason` declined before
them. A crash ends everything; who declines only adds nothing, unless nobody proposes anything. -/
def combineFrom (found : List Proposal) (reason : Option FixError) :
    List (FixResult (List Proposal)) → FixResult (List Proposal)
  | [] =>
    match reason with
    | some reason => if found.isEmpty then decline reason else .ok found
    | none => .ok found
  | .ok more :: answers => combineFrom (found ++ more) reason answers
  | .error (.declined other) :: answers => combineFrom found (some (reason.getD other)) answers
  | .error (.crash fault) :: _ => .error (.crash fault)

def combine (answers : List (FixResult (List Proposal))) : FixResult (List Proposal) :=
  combineFrom [] none answers

mutual

/-- What a family proposes for a diagnostic. -/
def propose (d : Diagnostic) (unit : CompilationUnit) : Family → FixResult (List Proposal)
  | .annotate fqn value target => proposeAnnotate fqn value target d unit
  | .removeAnnotations => proposeRemoveAnnotations d unit
  | .replaceScope scope scopes => proposeReplaceScope scope scopes d unit
  | .addAttributes defaults => proposeAddAttributes defaults d unit
  | .addModifier keyword => proposeAddModifier keyword d unit
  | .removeModifier keyword => proposeRemoveModifier keyword d unit
  | .addSupertype fqn kind => proposeAddSupertype fqn kind d unit
  | .addNoArgConstructor visibility => proposeAddNoArgConstructor visibility d unit
  | .removeParameters => proposeRemoveParameters d unit
  | .changeReturnType type => proposeChangeReturnType type d unit
  | .foreign answer => answer d unit
  | .alternatives families => combine (proposeEach d unit families)

def proposeEach (d : Diagnostic) (unit : CompilationUnit) :
    List Family → List (FixResult (List Proposal))
  | [] => []
  | family :: families => propose d unit family :: proposeEach d unit families

end

end Family

end JakartaCheck
