import JakartaCheck.Java.Grammar
import JakartaCheck.Java.Parser

/-!
# The grammar of Java

`production` gives the phrase of each rule. A source is a sequence of statements, declarations and
methods; what may stand where is left open where a later stage does not look.

The grammar is one parser among others (`grammar`): whatever is said of sources takes the parser as
a parameter and asks of it what it needs.

A word that is a keyword elsewhere may be a name wherever no keyword can stand, so names after
`class`, after a type or after a point take nearly any word.
-/

namespace JakartaCheck.Java

open Phrase

/-- The names of the grammar's rules. In a `case` label the tokens `x ->` do not start a lambda;
`arrows` says whether they may. -/
inductive Symbol where
  | topLevel | statement | block | switchExpression
  | expression (arrows : Bool) | ternary (arrows : Bool) | binary (level : Nat) (arrows : Bool)
  | unary (arrows : Bool) | primary | argumentList | stringLiteral | arrayInitializer
  | type | unannotatedType | simpleType | typeArguments | typeParameters | dimensions
  | dottedName | annotationUse | elementValue | modifiers
  | formalParameters | classBody | classMember | interfaceMember | annotationMember
  | recordPattern
deriving DecidableEq, Repr

/-! ### Words -/

/-- Words that never are a name where an expression, a statement or a type may stand. -/
def keywords : List String :=
  ["abstract", "assert", "boolean", "break", "byte", "case", "catch", "char", "class",
    "continue", "default", "do", "double", "else", "enum", "extends", "final", "finally",
    "float", "for", "if", "implements", "import", "instanceof", "int", "interface", "long",
    "native", "new", "package", "private", "protected", "public", "return", "short", "static",
    "strictfp", "super", "switch", "synchronized", "this", "throw", "throws", "transient", "try",
    "void", "volatile", "while", "true", "false", "null"]

/-- Words that are keywords or names, depending on what follows. -/
def softKeywords : List String := ["open", "module", "record", "with", "yield", "sealed"]

/-- Keywords with which an expression may start. -/
def expressionKeywords : List String :=
  ["new", "this", "super", "switch", "byte", "short", "int", "long", "char", "float", "double",
    "boolean", "void", "true", "false", "null"]

/-- A name in an expression or a statement. -/
def identifier : Phrase Symbol := .token (.form .identifier) (.word keywords)

/-- A name where hardly any keyword can stand. -/
def nameExcept (words : List String) : Phrase Symbol := .token (.form .identifier) (.word words)

def anyName : Phrase Symbol := nameExcept []

/-- The first name of a type. -/
def typeName : Phrase Symbol :=
  .token (.form .typeIdentifier) (.word (keywords ++ ["record", "sealed", "yield"]))

/-- A name after the point in a type. -/
def innerTypeName : Phrase Symbol :=
  .token (.form .typeIdentifier) (.word ["class", "this", "super", "new"])

def thisWord : Phrase Symbol := leaf .thisWord "this"

def superWord : Phrase Symbol := leaf .superWord "super"

def expression : Phrase Symbol := .rule (.expression true)

def annotations : Phrase Symbol := .many (.rule .annotationUse)

/-! ### Types -/

def primitiveType : Phrase Symbol :=
  any [leaf .voidType "void",
    .node .integralType (any ["byte", "short", "int", "long", "char"]),
    .node .floatingPointType (any ["float", "double"]),
    leaf .booleanType "boolean"]

def scopedStep : Form × Option Field × Phrase Symbol :=
  (.scopedTypeIdentifier, none, all [".", annotations, innerTypeName])

def arrayStep : Form × Option Field × Phrase Symbol :=
  (.arrayType, some .element, .field .dimensions (.rule .dimensions))

def simpleType : Phrase Symbol :=
  any [primitiveType,
    .chain typeName [(.genericType, none, .rule .typeArguments), scopedStep]]

def typeList : Phrase Symbol := .node .typeList (commaSep1 (.rule .type))

def wildcard : Phrase Symbol :=
  .node .wildcard (all [annotations, "?",
    opt (any [all ["extends", .rule .type], all [superWord, .rule .type]])])

def typeParameter : Phrase Symbol :=
  .node .typeParameter (all [annotations, .token (.form .typeIdentifier) (.word []),
    opt (.node .typeBound (all ["extends", .rule .type, .many (all ["&", .rule .type])]))])

/-! ### Annotations -/

def elementValuePair (key : Phrase Symbol) : Phrase Symbol :=
  .node .elementValuePair (all [.field .key key, "=", .field .value (.rule .elementValue)])

/-- Either pairs or a single value. Only a first key can be taken for an expression, so only
there soft keywords are no keys. -/
def annotationArguments : Phrase Symbol :=
  .node .annotationArgumentList (any [
    all ["(", ")"],
    all ["(", elementValuePair (nameExcept (expressionKeywords ++ softKeywords)),
      .many (all [",", elementValuePair anyName]), ")"],
    all ["(", .rule .elementValue, ")"]])

def annotationUse : Phrase Symbol :=
  any [
    .node .annotationUse
      (all ["@", .field .name (.rule .dottedName), .field .arguments annotationArguments]),
    .node .markerAnnotationUse (all ["@", .field .name (.rule .dottedName)])]

def elementValue : Phrase Symbol :=
  any [.rule .annotationUse,
    .node .elementValueArrayInitializer
      (all ["\x7b", commaSep (.rule .elementValue), opt ",", "\x7d"]),
    expression]

def modifiers : Phrase Symbol :=
  .node .modifiers (many1 (any [.rule .annotationUse, "public", "protected", "private",
    "abstract", "static", "final", "strictfp", "default", "synchronized", "native", "transient",
    "volatile", "sealed", .glued ["non", "-", "sealed"]]))

/-! ### Variables and parameters -/

def variableId : Phrase Symbol :=
  all [.field .name (any [leaf .underscorePattern "_", anyName]),
    opt (.field .dimensions (.rule .dimensions))]

def variableDeclarator : Phrase Symbol :=
  .node .variableDeclarator (all [variableId,
    opt (all ["=", .field .value (any [.rule .arrayInitializer, expression])])])

/-- A type and its variables, as in a field or a local declaration. -/
def variableList : Phrase Symbol :=
  all [.field .type (.rule .unannotatedType), commaSep1 (.field .declarator variableDeclarator),
    ";"]

def receiverParameter : Phrase Symbol :=
  .node .receiverParameter (all [annotations, .rule .unannotatedType,
    .many (all [identifier, "."]), thisWord])

def parameter : Phrase Symbol :=
  .fork (opt (.rule .modifiers)) [
    (.spreadParameter, none, all [.rule .unannotatedType, "...", variableDeclarator]),
    (.formalParameter, none, all [.field .type (.rule .unannotatedType), variableId])]

/-- The parameters. The first may be the receiver; but an annotated type before `this` makes an
ordinary parameter of that name. -/
def formalParameters : Phrase Symbol :=
  .node .formalParameters (all ["(",
    opt (all [any [all [.absent "@", receiverParameter], parameter, receiverParameter],
      .many (all [",", parameter])]), ")"])

/-! ### Expressions -/

/-- The operators of each level, the weakest first. -/
def operators : List (List (Phrase Symbol)) :=
  [["||"], ["&&"], ["|"], ["^"], ["&"], ["==", "!="],
    ["<=", .glued [">", "="], "<",
      all [.absent (.glued [">", ">"]), ">"]],
    ["<<", all [.absent (.glued [">", ">", ">", "="]), .glued [">", ">", ">"]],
      all [.absent (.glued [">", ">", "="]), .absent (.glued [">", ">", ">"]),
        .glued [">", ">"]]],
    ["+", "-"], ["*", "/", "%"]]

/-- The level on which types are tested. -/
def relationLevel : Nat := 6

def assignmentOperator : Phrase Symbol :=
  any ["=", "+=", "-=", "*=", "/=", "&=", "|=", "^=", "%=", "<<=",
    .glued [">", ">", "="], .glued [">", ">", ">", "="]]

def instanceofStep : Form × Option Field × Phrase Symbol :=
  (.instanceofExpression, some .left, all ["instanceof", opt "final",
    any [.field .pattern (.rule .recordPattern),
      all [.field .right (.rule .type), opt (.field .name identifier)]]])

def binaryExpression (level : Nat) (arrows : Bool) : Phrase Symbol :=
  match operators[level]? with
  | none => .rule (.unary arrows)
  | some marks =>
    let operand : Phrase Symbol := .rule (.binary (level + 1) arrows)
    let steps := marks.map fun mark =>
      (Form.binaryExpression, some Field.left,
        all [.field .operator mark, .field .right operand])
    .chain operand (if level = relationLevel then instanceofStep :: steps else steps)

def lambdaExpression : Phrase Symbol :=
  .node .lambdaExpression (all [
    .field .parameters (any [identifier,
      .node .inferredParameters (all ["(", commaSep1 identifier, ")"]),
      .rule .formalParameters]),
    "->",
    .field .body (any [.rule .block, expression])])

/-- A cast. Before a sign, a name in parentheses is an operand and no type. -/
def castExpression (arrows : Bool) : Phrase Symbol :=
  .node .castExpression (any [
    all ["(", .field .type (.chain primitiveType [arrayStep]), ")",
      .field .value (.rule (.unary arrows))],
    all ["(", .field .type (.rule .type), .many (all ["&", .field .type (.rule .type)]), ")",
      .absent (any ["+", "-", "++", "--"]), .field .value (.rule (.unary arrows))]])

def unaryExpression (arrows : Bool) : Phrase Symbol :=
  let operand : Phrase Symbol := .rule (.unary arrows)
  let plain : List (Phrase Symbol) := [
    .node .unaryExpression
      (all [.field .operator (any ["+", "-", "!", "~"]), .field .operand operand]),
    .node .updateExpression (all [any ["++", "--"], operand]),
    castExpression arrows,
    .rule .switchExpression,
    .chain (.rule .primary)
      [(.updateExpression, none, "++"), (.updateExpression, none, "--")]]
  any (if arrows then lambdaExpression :: plain else plain)

def parenthesized : Phrase Symbol :=
  .node .parenthesizedExpression (all ["(", expression, ")"])

/-- The pieces of a string literal. -/
def stringPieces : Phrase Symbol :=
  .many (any [.token (.form .stringFragment) (.literal .stringFragment),
    .token (.form .escapeSequence) (.literal .escapeSequence),
    .node .stringInterpolation (all [↑holeMark, expression, "\x7d"])])

def stringLiteral : Phrase Symbol :=
  .node .stringLiteral (any [
    all ["\"", stringPieces, "\""],
    all ["\"\"\"", stringPieces, "\"\"\""]])

def literal : Phrase Symbol :=
  any [.token (.form .decimalIntegerLiteral) (.literal .decimalIntegerLiteral),
    .token (.form .hexIntegerLiteral) (.literal .hexIntegerLiteral),
    .token (.form .octalIntegerLiteral) (.literal .octalIntegerLiteral),
    .token (.form .binaryIntegerLiteral) (.literal .binaryIntegerLiteral),
    .token (.form .decimalFloatingPointLiteral) (.literal .decimalFloatingPointLiteral),
    .token (.form .hexFloatingPointLiteral) (.literal .hexFloatingPointLiteral),
    .token (.form .characterLiteral) (.literal .characterLiteral),
    leaf .trueLiteral "true", leaf .falseLiteral "false", leaf .nullLiteral "null",
    .rule .stringLiteral]

/-- `::` and the name of a method, or `new`. -/
def referencedMethod : Phrase Symbol :=
  all ["::", opt (.rule .typeArguments), any ["new", nameExcept ["new"]]]

def creation : Phrase Symbol :=
  all ["new",
    any [all [annotations, .field .typeArguments (.rule .typeArguments), annotations],
      annotations],
    .field .type (.rule .simpleType), .field .arguments (.rule .argumentList),
    opt (.rule .classBody)]

def arrayCreation : Phrase Symbol :=
  .node .arrayCreationExpression (all ["new", annotations, .field .type (.rule .simpleType),
    any [
      all [.field .dimensions
          (many1 (.node .dimensionsExpr (all [annotations, "[", expression, "]"]))),
        opt (.field .dimensions (.rule .dimensions))],
      all [.field .dimensions (.rule .dimensions), .field .value (.rule .arrayInitializer)]]])

/-- What a primary expression starts with. -/
def primaryStart : Phrase Symbol :=
  any [literal,
    .node .classLiteral (all [.rule .unannotatedType, ".", "class"]),
    .node .methodReference (all [.rule .type, referencedMethod]),
    parenthesized,
    thisWord,
    superWord,
    arrayCreation,
    .node .objectCreationExpression creation,
    .node .methodInvocation
      (all [.field .name identifier, .field .arguments (.rule .argumentList)]),
    identifier]

/-- A name after the point of an expression. -/
def memberName : Phrase Symbol := nameExcept ["class", "this", "super", "new"]

def primary : Phrase Symbol :=
  .chain primaryStart [
    (.methodInvocation, some .object, all [".", opt (all [superWord, "."]),
      opt (.field .typeArguments (.rule .typeArguments)), .field .name memberName,
      .field .arguments (.rule .argumentList)]),
    (.objectCreationExpression, none, all [".", creation]),
    (.templateExpression, some .templateProcessor,
      all [".", .field .templateArgument (.rule .stringLiteral)]),
    (.fieldAccess, some .object, all [opt (all [".", superWord]), ".",
      .field .field (any [thisWord, memberName])]),
    (.arrayAccess, some .array, all ["[", .field .index expression, "]"]),
    (.methodReference, none, referencedMethod)]

/-! ### Patterns and `switch` -/

def recordPattern : Phrase Symbol :=
  let component : Phrase Symbol := any [.rule .recordPattern,
    .node .recordPatternComponent
      (any [all [.rule .unannotatedType, identifier], leaf .underscorePattern "_"])]
  let body := .node .recordPatternBody (all ["(", commaSep component, ")"])
  any [
    .node .recordPattern (all [
      .node .genericType (all [.chain typeName [scopedStep], .rule .typeArguments]), body]),
    .node .recordPattern (all [identifier, body])]

def guard : Phrase Symbol := .node .guard (all ["when", .rule (.expression false)])

/-- A label. Where a label can be read as values and as a pattern, it lists values. -/
def switchLabel : Phrase Symbol :=
  let item : Phrase Symbol := .rule (.expression false)
  .node .switchLabel (any [
    all ["case", item, .many (all [",", any [item, leaf .identifier "default"]]), opt guard,
      .absent (.absent (any [":", "->"]))],
    all ["case", .node .pattern (any [
        .node .typePattern
          (all [.rule .unannotatedType, nameExcept (keywords ++ ["when"])]),
        .rule .recordPattern]),
      opt guard],
    "default"])

def throwStatement : Phrase Symbol := .node .throwStatement (all ["throw", expression, ";"])

def expressionStatement : Phrase Symbol := .node .expressionStatement (all [expression, ";"])

def switchExpression : Phrase Symbol :=
  let arrowRule := .node .switchRule
    (all [switchLabel, "->", any [.rule .block, throwStatement, expressionStatement]])
  let group := .node .switchBlockStatementGroup
    (all [many1 (all [switchLabel, ":"]), .many (.rule .statement)])
  .node .switchExpression (all ["switch", .field .condition parenthesized,
    .field .body (.node .switchBlock (all ["\x7b",
      any [all [many1 arrowRule, "\x7d"], all [.many group, "\x7d"]]]))])

/-! ### Declarations -/

def superInterfaces : Phrase Symbol :=
  opt (.field .interfaces (.node .superInterfaces (all ["implements", typeList])))

def permitted : Phrase Symbol :=
  opt (.field .permits (.node .permits (all ["permits", typeList])))

def optTypeParameters : Phrase Symbol :=
  opt (.field .typeParameters (.rule .typeParameters))

def thrown : Phrase Symbol := opt (.node .throws (all ["throws", commaSep1 (.rule .type)]))

/-- The types that may be declared among members, without their modifiers. -/
def recordStep : Form × Option Field × Phrase Symbol :=
  (.recordDeclaration, none, all ["record", .field .name anyName, optTypeParameters,
    .field .parameters (.rule .formalParameters), superInterfaces,
    .field .body (.rule .classBody)])

def classStep : Form × Option Field × Phrase Symbol :=
  (.classDeclaration, none, all ["class", .field .name anyName, optTypeParameters,
    opt (.field .superclass (.node .superclass (all ["extends", .rule .type]))),
    superInterfaces, permitted, .field .body (.rule .classBody)])

def interfaceStep : Form × Option Field × Phrase Symbol :=
  (.interfaceDeclaration, none, all ["interface", .field .name anyName, optTypeParameters,
    opt (.node .extendsInterfaces (all ["extends", typeList])), permitted,
    .field .body (.node .interfaceBody (all ["\x7b", .many (.rule .interfaceMember), "\x7d"]))])

def annotationTypeStep : Form × Option Field × Phrase Symbol :=
  (.annotationTypeDeclaration, none, all ["@interface", .field .name anyName,
    .field .body
      (.node .annotationTypeBody (all ["\x7b", .many (.rule .annotationMember), "\x7d"]))])

def enumConstant : Phrase Symbol :=
  .node .enumConstant (all [opt (.rule .modifiers), .field .name identifier,
    opt (.field .arguments (.rule .argumentList)), opt (.field .body (.rule .classBody))])

def enumStep : Form × Option Field × Phrase Symbol :=
  (.enumDeclaration, none, all ["enum", .field .name anyName, superInterfaces,
    .field .body (.node .enumBody (all ["\x7b", commaSep enumConstant, opt ",",
      opt (.node .enumBodyDeclarations (all [";", .many (.rule .classMember)])), "\x7d"]))])

def typeSteps : List (Form × Option Field × Phrase Symbol) :=
  [recordStep, classStep, interfaceStep, annotationTypeStep, enumStep]

def methodStep : Form × Option Field × Phrase Symbol :=
  (.methodDeclaration, none, all [
    opt (all [.field .typeParameters (.rule .typeParameters), annotations]),
    .field .type (.rule .unannotatedType), .field .name anyName,
    .field .parameters (.rule .formalParameters), opt (.field .dimensions (.rule .dimensions)),
    thrown, any [.field .body (.rule .block), ";"]])

def explicitConstructorInvocation : Phrase Symbol :=
  let arguments := opt (.field .typeArguments (.rule .typeArguments))
  .node .explicitConstructorInvocation (all [
    any [
      all [arguments, .field .constructor (any [thisWord, superWord]),
        .field .arguments (.rule .argumentList)],
      all [.field .object (.rule .primary), ".", arguments, .field .constructor superWord,
        .field .arguments (.rule .argumentList)]],
    ";"])

def constructorStep : Form × Option Field × Phrase Symbol :=
  (.constructorDeclaration, none, all [optTypeParameters, .field .name identifier,
    .field .parameters (.rule .formalParameters), thrown,
    .field .body (.node .constructorBody
      (all ["\x7b", opt explicitConstructorInvocation, .many (.rule .statement), "\x7d"]))])

def compactConstructorStep : Form × Option Field × Phrase Symbol :=
  (.compactConstructorDeclaration, none,
    all [.field .name identifier, .field .body (.rule .block)])

def annotationElementStep : Form × Option Field × Phrase Symbol :=
  (.annotationTypeElementDeclaration, none, all [.field .type (.rule .unannotatedType),
    .field .name anyName, "(", ")", opt (.field .dimensions (.rule .dimensions)),
    opt (all ["default", .field .value (.rule .elementValue)]), ";"])

/-- A member with its modifiers in front. -/
def declared (steps : List (Form × Option Field × Phrase Symbol)) : Phrase Symbol :=
  .fork (opt (.rule .modifiers)) steps

def classMember : Phrase Symbol :=
  any [";", .node .staticInitializer (all ["static", .rule .block]), .rule .block,
    declared (typeSteps ++ [constructorStep, compactConstructorStep, methodStep,
      (.fieldDeclaration, none, variableList)])]

def interfaceMember : Phrase Symbol :=
  any [";", declared (typeSteps ++ [methodStep, (.constantDeclaration, none, variableList)])]

def annotationMember : Phrase Symbol :=
  any [";", declared [classStep, interfaceStep, enumStep, annotationTypeStep,
    annotationElementStep, (.constantDeclaration, none, variableList)]]

def packageDeclaration : Phrase Symbol :=
  .node .packageDeclaration (all [annotations, "package", .rule .dottedName, ";"])

def importDeclaration : Phrase Symbol :=
  .node .importDeclaration (all ["import", opt "static", .rule .dottedName,
    opt (all [".", leaf .asterisk "*"]), ";"])

def moduleDeclaration : Phrase Symbol :=
  let exported : Phrase Symbol := all [.field .packageName (.rule .dottedName),
    opt (all ["to", commaSep1 (.field .modules (.rule .dottedName))]), ";"]
  let directive := any [
    .node .requiresModuleDirective (all ["requires",
      .many (.field .modifiers (.node .requiresModifier (any ["transitive", "static"]))),
      .field .moduleName (.rule .dottedName), ";"]),
    .node .exportsModuleDirective (all ["exports", exported]),
    .node .opensModuleDirective (all ["opens", exported]),
    .node .usesModuleDirective (all ["uses", .field .type (.rule .dottedName), ";"]),
    .node .providesModuleDirective (all ["provides", .field .provided (.rule .dottedName),
      "with", .rule .dottedName, .many (all [",", .field .provider (.rule .dottedName)]), ";"])]
  .node .moduleDeclaration (all [annotations, opt "open", "module",
    .field .name (.rule .dottedName),
    .field .body (.node .moduleBody (all ["\x7b", .many directive, "\x7d"]))])

/-! ### Statements -/

def localStep : Form × Option Field × Phrase Symbol :=
  (.localVariableDeclaration, none, variableList)

def condition : Phrase Symbol := .node .condition (all ["(", expression, ")"])

def substatement (role : Field) : Phrase Symbol := .field role (.rule .statement)

def catchClauses : Phrase Symbol :=
  let caught := .node .catchFormalParameter (all [opt (.rule .modifiers),
    .node .catchType (all [.rule .unannotatedType, .many (all ["|", .rule .unannotatedType])]),
    variableId])
  all [.many (.node .catchClause (all ["catch", "(", caught, ")", .field .body (.rule .block)])),
    opt (.node .finallyClause (all ["finally", .rule .block]))]

def resource : Phrase Symbol :=
  any [
    .node .resource (all [opt (.rule .modifiers), .field .type (.rule .unannotatedType),
      variableId, "=", .field .value expression]),
    .node .resource (.rule .primary)]

def forStatement : Phrase Symbol :=
  any [
    .node .enhancedForStatement (all ["for", "(", opt (.rule .modifiers),
      .field .type (.rule .unannotatedType), variableId, ":", .field .value expression, ")",
      substatement .body]),
    .node .forStatement (all ["for", "(",
      any [.field .init (declared [localStep]),
        all [commaSep (.field .init expression), ";"]],
      opt (.field .condition expression), ";", commaSep (.field .update expression), ")",
      substatement .body])]

def tryStatement : Phrase Symbol :=
  any [
    .node .tryWithResourcesStatement (all ["try",
      .field .resources (.node .resourceSpecification
        (all ["(", resource, .many (all [";", resource]), opt ";", ")"])),
      .field .body (.rule .block), catchClauses]),
    .node .tryStatement (all ["try", .field .body (.rule .block), catchClauses])]

def statement : Phrase Symbol :=
  any [.rule .block, ";",
    .node .ifStatement (all ["if", .field .condition condition, substatement .consequence,
      opt (all ["else", substatement .alternative])]),
    .node .whileStatement (all ["while", .field .condition condition, substatement .body]),
    forStatement,
    .node .assertStatement (all ["assert", expression, opt (all [":", expression]), ";"]),
    .node .doStatement (all ["do", substatement .body, "while",
      .field .condition parenthesized, ";"]),
    .node .breakStatement (all ["break", opt identifier, ";"]),
    .node .continueStatement (all ["continue", opt identifier, ";"]),
    .node .returnStatement (all ["return", opt expression, ";"]),
    .node .yieldStatement (all ["yield", expression, ";"]),
    .rule .switchExpression,
    .node .synchronizedStatement
      (all ["synchronized", parenthesized, .field .body (.rule .block)]),
    throwStatement,
    tryStatement,
    packageDeclaration,
    importDeclaration,
    moduleDeclaration,
    .node .labeledStatement (all [identifier, ":", .rule .statement]),
    declared (typeSteps ++ [localStep]),
    expressionStatement]

/-! ### All rules -/

/-- The phrase of each rule. -/
def production : Symbol → Phrase Symbol
  | .topLevel => any [.rule .statement, declared [methodStep]]
  | .statement => statement
  | .block => .node .block (all ["\x7b", .many (.rule .statement), "\x7d"])
  | .switchExpression => switchExpression
  | .expression arrows =>
    .chain (.rule (.ternary arrows)) [(.assignmentExpression, some .left,
      all [.field .operator assignmentOperator, .field .right (.rule (.expression arrows))])]
  | .ternary arrows =>
    .chain (.rule (.binary 0 arrows)) [(.ternaryExpression, some .condition,
      all ["?", .field .consequence expression, ":",
        .field .alternative (.rule (.expression arrows))])]
  | .binary level arrows => binaryExpression level arrows
  | .unary arrows => unaryExpression arrows
  | .primary => primary
  | .argumentList => .node .argumentList (all ["(", commaSep expression, ")"])
  | .stringLiteral => stringLiteral
  | .arrayInitializer =>
    .node .arrayInitializer (all ["\x7b", commaSep (any [.rule .arrayInitializer, expression]),
      opt ",", "\x7d"])
  | .type =>
    any [.node .annotatedType (all [many1 (.rule .annotationUse), .rule .unannotatedType]),
      .rule .unannotatedType]
  | .unannotatedType => .chain (.rule .simpleType) [arrayStep]
  | .simpleType => simpleType
  | .typeArguments =>
    .node .typeArguments (all ["<", commaSep (any [wildcard, .rule .type]), ">"])
  | .typeParameters => .node .typeParameters (all ["<", commaSep1 typeParameter, ">"])
  | .dimensions => .node .dimensions (many1 (all [annotations, "[", "]"]))
  | .dottedName =>
    .chain anyName [(.scopedIdentifier, some .scope, all [".", .field .name anyName])]
  | .annotationUse => annotationUse
  | .elementValue => elementValue
  | .modifiers => modifiers
  | .formalParameters => formalParameters
  | .classBody => .node .classBody (all ["\x7b", .many (.rule .classMember), "\x7d"])
  | .classMember => classMember
  | .interfaceMember => interfaceMember
  | .annotationMember => annotationMember
  | .recordPattern => recordPattern

/-- The tree of a Java source, if the grammar accepts it. -/
def parse (text : String) : Option Node := Phrase.parse production .topLevel text

/-- The grammar as a parser: one that gives no tree of a text with a syntax error. -/
def grammar : Parser := fun text => (parse text).map fun root => ⟨root, false⟩

theorem grammar_eq_some_iff {text : String} {tree : Tree} :
    grammar text = some tree ↔ parse text = some tree.root ∧ tree.hasError = false := by
  unfold grammar
  rw [Option.map_eq_some_iff]
  constructor
  · rintro ⟨root, parsed, rfl⟩
    exact ⟨parsed, rfl⟩
  · rintro ⟨parsed, sound⟩
    exact ⟨tree.root, parsed, by rw [← sound]⟩

/-- The grammar accepts all that it gives a tree of. -/
theorem accepts_grammar {text : String} {tree : Tree} (h : grammar text = some tree) :
    grammar.accepts text :=
  Parser.accepts_iff.2 ⟨tree.root, grammar_eq_some_iff.2 ⟨(grammar_eq_some_iff.1 h).1, rfl⟩⟩

end JakartaCheck.Java
