import JakartaCheck.Text.Span

/-!
# Concrete syntax trees

A `Node` of a Java source has a kind, a span, its children in source order and, inside its parent,
possibly a field name. Comments are children like others: a comment belongs to the smallest node
with tokens on both sides of it.
-/

namespace JakartaCheck.Java

/-- The named kinds of nodes. -/
inductive Form where
  | program
  -- what is left of a source where it has a syntax error
  | error
  -- lexical
  | identifier | typeIdentifier | lineComment | blockComment
  | decimalIntegerLiteral | hexIntegerLiteral | octalIntegerLiteral | binaryIntegerLiteral
  | decimalFloatingPointLiteral | hexFloatingPointLiteral | characterLiteral
  | stringFragment | escapeSequence | trueLiteral | falseLiteral | nullLiteral
  | thisWord | superWord | asterisk | underscorePattern
  -- expressions
  | stringLiteral | stringInterpolation | castExpression | assignmentExpression
  | binaryExpression | instanceofExpression | lambdaExpression | inferredParameters
  | ternaryExpression | unaryExpression | updateExpression | arrayCreationExpression
  | dimensionsExpr | parenthesizedExpression | condition | classLiteral
  | objectCreationExpression | fieldAccess | templateExpression | arrayAccess | methodInvocation
  | argumentList | methodReference | typeArguments | wildcard | dimensions | switchExpression
  | switchBlock | switchBlockStatementGroup | switchRule | switchLabel | pattern | typePattern
  | recordPattern | recordPatternBody | recordPatternComponent | guard
  -- statements
  | block | expressionStatement | labeledStatement | assertStatement | doStatement
  | breakStatement | continueStatement | returnStatement | yieldStatement
  | synchronizedStatement | throwStatement | tryStatement | catchClause | catchFormalParameter
  | catchType | finallyClause | tryWithResourcesStatement | resourceSpecification | resource
  | ifStatement | whileStatement | forStatement | enhancedForStatement
  | localVariableDeclaration
  -- annotations
  | markerAnnotationUse | annotationUse | annotationArgumentList | elementValuePair
  | elementValueArrayInitializer
  -- declarations
  | moduleDeclaration | moduleBody | requiresModuleDirective | requiresModifier
  | exportsModuleDirective | opensModuleDirective | usesModuleDirective
  | providesModuleDirective | packageDeclaration | importDeclaration | enumDeclaration
  | enumBody | enumBodyDeclarations | enumConstant | classDeclaration | modifiers
  | typeParameters | typeParameter | typeBound | superclass | superInterfaces | typeList
  | permits | classBody | staticInitializer | constructorDeclaration | constructorBody
  | explicitConstructorInvocation | scopedIdentifier | fieldDeclaration | recordDeclaration
  | annotationTypeDeclaration | annotationTypeBody | annotationTypeElementDeclaration
  | interfaceDeclaration | extendsInterfaces | interfaceBody | constantDeclaration
  | variableDeclarator | arrayInitializer | methodDeclaration | compactConstructorDeclaration
  | formalParameters | formalParameter | receiverParameter | spreadParameter | throws
  -- types
  | annotatedType | scopedTypeIdentifier | genericType | arrayType | integralType
  | floatingPointType | booleanType | voidType
deriving DecidableEq, Repr

/-- The names by which a parent refers to some of its children. -/
inductive Field where
  | type | value | left | operator | right | name | pattern | parameters | body | condition
  | consequence | alternative | operand | dimensions | typeArguments | arguments | object
  | field | templateProcessor | templateArgument | array | index | resources | init | update
  | key | moduleName | modifiers | packageName | modules | provided | provider | interfaces
  | typeParameters | superclass | permits | constructor | scope | declarator | element
deriving DecidableEq, Repr

/-- What a node is: a bare token, known by its text, or one of the named forms. -/
inductive Kind where
  | token (text : String)
  | form (f : Form)
deriving DecidableEq, Repr

/-- A node of a concrete syntax tree. -/
inductive Node where
  | mk (kind : Kind) (field : Option Field) (span : Span) (children : List Node)
deriving Repr

namespace Node

def kind : Node → Kind
  | mk kind _ _ _ => kind

/-- The name of the node inside its parent. -/
def field : Node → Option Field
  | mk _ field _ _ => field

def span : Node → Span
  | mk _ _ span _ => span

def children : Node → List Node
  | mk _ _ _ children => children

def isNamed (n : Node) : Bool :=
  match n.kind with
  | .token _ => false
  | .form _ => true

/-- Is the node of that named form? -/
def hasForm (n : Node) (f : Form) : Bool := n.kind == .form f

def isComment (n : Node) : Bool := n.hasForm .lineComment || n.hasForm .blockComment

def namedChildren (n : Node) : List Node := n.children.filter isNamed

/-- The first child with that field name. -/
def child? (n : Node) (f : Field) : Option Node := n.children.find? (·.field == some f)

/-- The first named child of that form. -/
def childOf? (n : Node) (f : Form) : Option Node := n.namedChildren.find? (·.hasForm f)

mutual

/-- The node, then its descendants, each before its own children. -/
def preorder : Node → List Node
  | mk kind field span children => mk kind field span children :: preorderAll children

def preorderAll : List Node → List Node
  | [] => []
  | n :: ns => n.preorder ++ preorderAll ns

end

/-! ### Building nodes from the items of a rule -/

/-- Gives a field name to every item that is no comment. -/
def setField (f : Field) (items : List Node) : List Node :=
  items.map fun
    | mk kind field span children =>
      if (mk kind field span children).isComment then mk kind field span children
      else mk kind (some f) span children

/-- Encloses items in a node. Comments in front of the first token stay outside. -/
def enclose (f : Form) (items : List Node) : List Node :=
  let body := items.dropWhile isComment
  match body.head?, body.getLast? with
  | some first, some last =>
    items.takeWhile isComment ++ [mk (.form f) none ⟨first.span.start, last.span.stop⟩ body]
  | _, _ => items

end Node

end JakartaCheck.Java
