import JakartaCheck.Java.Binding
import JakartaCheck.Java.Cursor
import JakartaCheck.Java.Node
import JakartaCheck.Java.Productions
import JakartaCheck.Java.StringLiteral
import JakartaCheck.Text.Bytes

/-!
# From syntax trees to declarations

`CompilationUnit.ofTree` reads the declarations out of a concrete syntax tree, and
`CompilationUnit.lower?` has a parser make the tree of a source. A tree with syntax errors is read
like any other: it gives the declarations that were recognised. Types are members of types, however
deeply nested; types inside method bodies do not count. Calls are taken from everywhere.
-/

namespace JakartaCheck.Java

/-- The source text of a node. -/
def nodeText (text : String) (n : Node) : String :=
  (Text.slice? text n.span.start n.span.stop).getD ""

/-- Is the node a plain or a dotted name? -/
def isName (n : Node) : Bool := n.hasForm .identifier || n.hasForm .scopedIdentifier

/-- The modifiers of a declaration. -/
def modifiersNode? (n : Node) : Option Node := n.child? .modifiers <|> n.childOf? .modifiers

def typeKind? (n : Node) : Option TypeKind :=
  match n.kind with
  | .form .classDeclaration => some .classType
  | .form .interfaceDeclaration => some .interfaceType
  | .form .enumDeclaration => some .enumType
  | .form .recordDeclaration => some .recordType
  | .form .annotationTypeDeclaration => some .annotationType
  | _ => none

/-! ### Types and annotations -/

def readTypeRef (text : String) (n : Node) : TypeRef :=
  let written := TypeText.clean (nodeText text n)
  let simple := TypeText.simplify written
  let isArray := n.hasForm .arrayType || written.toList.getLast? == some ']'
  { text := written
    simpleName := simple
    qualifiedName := none
    span := n.span
    isArray := isArray
    isPrimitive := !isArray && TypeText.isPrimitive simple }

/-- The types among the children of a list. -/
def readTypeRefs (text : String) (n : Node) : List TypeRef :=
  (n.namedChildren.filter (!·.isComment)).map (readTypeRef text)

/-- The string of a node that is a string literal. -/
def stringOf? (text : String) (n : Node) : Option String :=
  if n.hasForm .stringLiteral then StringLiteral.value? (nodeText text n) else none

def readArgument (text : String) (name : String) (whole value : Node) : Argument :=
  { name := name
    span := whole.span
    valueSpan := value.span
    valueText := nodeText text value
    stringValue := stringOf? text value }

/-- An argument of an annotation; a value without a name is called `value`. -/
def readArgument? (text : String) (n : Node) : Option Argument :=
  if n.isComment then none
  else if n.hasForm .elementValuePair then do
    let key ← n.child? .key
    let value ← n.child? .value
    some (readArgument text (nodeText text key) n value)
  else some (readArgument text "value" n n)

def readAnnotationUse? (text : String) (n : Node) : Option AnnotationUse := do
  let nameNode ← n.child? .name
  let name := TypeText.clean (nodeText text nameNode)
  let args := n.child? .arguments
  some {
    name := name
    simpleName := TypeText.lastName name
    qualifiedName := none
    span := n.span
    nameSpan := nameNode.span
    args := (args.map fun list => list.namedChildren.filterMap (readArgument? text)).getD []
    argsSpan := args.map Node.span }

def isAnnotationNode (n : Node) : Bool :=
  n.hasForm .markerAnnotationUse || n.hasForm .annotationUse

def readModifiers (text : String) (n : Option Node) : Modifiers :=
  match n with
  | none => Modifiers.none
  | some n =>
    { span := some n.span
      keywords := (n.children.filter (!·.isNamed)).map fun token =>
        ⟨nodeText text token, token.span⟩
      annotations := (n.children.filter isAnnotationNode).filterMap (readAnnotationUse? text) }

/-! ### Members -/

def readDeclarator? (text : String) (n : Node) : Option Declarator :=
  if n.hasForm .variableDeclarator then
    (n.child? .name).map fun name => ⟨nodeText text name, name.span⟩
  else none

def readField? (text : String) (n : Node) : Option FieldDecl := do
  let type ← n.child? .type
  some {
    span := n.span
    modifiers := readModifiers text (modifiersNode? n)
    type := readTypeRef text type
    declarators := n.namedChildren.filterMap (readDeclarator? text) }

def readParameterAs (text : String) (n name : Node) (type : TypeRef) : Parameter :=
  { span := n.span
    name := nodeText text name
    nameSpan := name.span
    modifiers := readModifiers text (modifiersNode? n)
    type := type }

/-- A parameter. The type of one that takes any number of values is an array and ends in three
points. -/
def readParameter? (text : String) (n : Node) : Option Parameter :=
  if n.hasForm .formalParameter then do
    let type ← n.child? .type
    let name ← n.child? .name
    some (readParameterAs text n name (readTypeRef text type))
  else if n.hasForm .spreadParameter then do
    let type ← n.namedChildren.find? fun c =>
      !c.hasForm .modifiers && !c.hasForm .variableDeclarator && !c.isComment
    let name ← (← n.childOf? .variableDeclarator).child? .name
    let type := readTypeRef text type
    some (readParameterAs text n name
      { type with text := type.text ++ "...", isArray := true, isPrimitive := false })
  else none

def readMethodAs (text : String) (n name params : Node) (returnType : Option TypeRef) :
    MethodDecl :=
  { span := n.span
    name := nodeText text name
    nameSpan := name.span
    isConstructor := returnType.isNone
    modifiers := readModifiers text (modifiersNode? n)
    typeParamsSpan := (n.child? .typeParameters).map Node.span
    returnType := returnType
    params := params.namedChildren.filterMap (readParameter? text)
    paramsSpan := params.span
    throws := ((n.childOf? .throws).map (readTypeRefs text)).getD []
    hasBody := (n.child? .body).isSome }

/-- A method, with its return type, or a constructor, without one. -/
def readMethod? (text : String) (n : Node) : Option MethodDecl :=
  if n.hasForm .methodDeclaration then do
    let name ← n.child? .name
    let params ← n.child? .parameters
    let type ← n.child? .type
    some (readMethodAs text n name params (some (readTypeRef text type)))
  else if n.hasForm .constructorDeclaration then do
    let name ← n.child? .name
    let params ← n.child? .parameters
    some (readMethodAs text n name params none)
  else none

def isFieldNode (n : Node) : Bool :=
  n.hasForm .fieldDeclaration || n.hasForm .constantDeclaration

mutual

/-- The members in the body of a type; those after the constants of an enumeration included. -/
def members : Node → List Node
  | .mk _ _ _ children => membersAmong children

def membersAmong : List Node → List Node
  | [] => []
  | n :: ns =>
    if n.hasForm .enumBodyDeclarations then members n ++ membersAmong ns
    else n :: membersAmong ns

end

/-! ### Types -/

/-- The types of an `implements` clause; for an interface those of its `extends` clause. -/
def interfaceList? (kind : TypeKind) (n : Node) : Option Node :=
  match kind with
  | .interfaceType => n.childOf? .extendsInterfaces
  | _ => n.child? .interfaces <|> n.childOf? .superInterfaces

/-- The declaration at a node, without the types nested in it. -/
def readTypeDecl? (text : String) (n : Node) : Option TypeDecl := do
  let kind ← typeKind? n
  let name ← n.child? .name
  let body ← n.child? .body
  let superclass := (n.child? .superclass).bind fun clause => clause.namedChildren.head?
  let interfaces := (interfaceList? kind n).bind fun clause => clause.childOf? .typeList
  let found := members body
  some {
    kind := kind
    name := nodeText text name
    nameSpan := name.span
    span := n.span
    bodySpan := body.span
    modifiers := readModifiers text (modifiersNode? n)
    typeParamsSpan := (n.child? .typeParameters).map Node.span
    superclass := superclass.map (readTypeRef text)
    interfaces := (interfaces.map (readTypeRefs text)).getD []
    fields := (found.filter isFieldNode).filterMap (readField? text)
    methods := found.filterMap (readMethod? text) }

mutual

/-- The type declared at a node, and then the types nested in it. -/
def readTypes (text : String) : Node → List TypeDecl
  | .mk kind field span children =>
    match readTypeDecl? text (.mk kind field span children) with
    | some decl => decl :: readTypesOfBody text children
    | none => []

/-- The types in the first of the nodes that is a body. -/
def readTypesOfBody (text : String) : List Node → List TypeDecl
  | [] => []
  | n :: ns => if n.field == some .body then readTypesIn text n else readTypesOfBody text ns

/-- The types among the members in a body. -/
def readTypesIn (text : String) : Node → List TypeDecl
  | .mk _ _ _ children => readTypesAmong text children

def readTypesAmong (text : String) : List Node → List TypeDecl
  | [] => []
  | n :: ns =>
    (if n.hasForm .enumBodyDeclarations then readTypesIn text n else readTypes text n) ++
      readTypesAmong text ns

end

/-! ### Units -/

def readPackage? (text : String) (n : Node) : Option String :=
  (n.namedChildren.find? isName).map fun name => TypeText.clean (nodeText text name)

/-- The package of the last package declaration. -/
def packageOf? (text : String) (root : Node) : Option String :=
  ((root.namedChildren.filter (·.hasForm .packageDeclaration)).getLast?).bind (readPackage? text)

def readImport? (text : String) (n : Node) : Option ImportDecl :=
  if n.hasForm .importDeclaration then
    ((n.children.filter isName).getLast?).map fun path =>
      { path := TypeText.clean (nodeText text path)
        isStatic := n.children.any (·.kind == .token "static")
        isWildcard := n.children.any (·.hasForm .asterisk)
        span := n.span }
  else none

def readCall? (text : String) (n : Node) : Option MethodCall :=
  if n.hasForm .methodInvocation then do
    let name ← n.child? .name
    let args ← n.child? .arguments
    some {
      span := n.span
      receiver := (n.child? .object).map fun object => TypeText.clean (nodeText text object)
      name := nodeText text name
      nameSpan := name.span
      args := (args.namedChildren.filter (!·.isComment)).map fun arg =>
        ⟨arg.span, stringOf? text arg⟩ }
  else none

end JakartaCheck.Java

namespace JakartaCheck.CompilationUnit

open Java

/-- The declarations of a source with that tree, their names not yet bound. -/
def unboundOfTree (uri text : String) (root : Node) : CompilationUnit :=
  { uri := uri
    text := text
    package := packageOf? text root
    imports := root.namedChildren.filterMap (readImport? text)
    types := root.namedChildren.flatMap (readTypes text)
    calls := (root.collect (readCall? text)).toList }

/-- The declarations of a source with that tree. -/
def ofTree (uri text : String) (root : Node) : CompilationUnit := (unboundOfTree uri text root).bind

/-- The declarations of a source, if the parser gives a tree of it. -/
def lower? (parser : Parser) (uri text : String) : Option CompilationUnit :=
  (parser text).map fun tree => ofTree uri text tree.root

/-- The declarations of a source that the grammar accepts. -/
def ofText? (uri text : String) : Option CompilationUnit := lower? grammar uri text

theorem ofText?_eq (uri text : String) : ofText? uri text = (parse text).map (ofTree uri text) := by
  unfold ofText? lower? grammar
  rw [Option.map_map]
  rfl

variable {parser : Parser} {uri text : String} {unit : CompilationUnit}

theorem lower?_eq_some_iff : lower? parser uri text = some unit ↔
    ∃ tree, parser text = some tree ∧ ofTree uri text tree.root = unit :=
  Option.map_eq_some_iff

/-- A source without syntax errors. -/
theorem exists_of_accepts (accepted : parser.accepts text)
    (lowered : lower? parser uri text = some unit) :
    ∃ root, parser text = some ⟨root, false⟩ ∧ unit = ofTree uri text root := by
  obtain ⟨root, parsed⟩ := Parser.accepts_iff.1 accepted
  rw [lower?, parsed] at lowered
  exact ⟨root, parsed, (Option.some.inj lowered).symm⟩

end JakartaCheck.CompilationUnit
