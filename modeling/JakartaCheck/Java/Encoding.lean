import JakartaCheck.Java.CompilationUnit
import JakartaCheck.Json.Record

/-!
# The JSON form of a compilation unit

Each part of a unit has an encoder `toJson` and a decoder `ofJson?` that reads back what the encoder
writes. Absent options are written as `null`.
-/

namespace JakartaCheck

open Json

namespace Span

def toJson (s : Span) : Json := .object [("start", .nat s.start), ("end", .nat s.stop)]

def ofJson? (j : Json) : Option Span := do
  match ← j.fields? ["start", "end"] with
  | [start, stop] => some ⟨← required word64? start, ← required word64? stop⟩
  | _ => none

end Span

namespace TypeRef

def toJson (t : TypeRef) : Json :=
  .object [("text", .string t.text), ("simple_name", .string t.simpleName),
    ("qualified_name", option .string t.qualifiedName), ("span", t.span.toJson),
    ("is_array", .bool t.isArray), ("is_primitive", .bool t.isPrimitive)]

def ofJson? (j : Json) : Option TypeRef := do
  match ← j.fields? ["text", "simple_name", "qualified_name", "span", "is_array",
    "is_primitive"] with
  | [text, simpleName, qualifiedName, span, isArray, isPrimitive] =>
    some {
      text := ← required asString? text
      simpleName := ← required asString? simpleName
      qualifiedName := ← optional asString? qualifiedName
      span := ← required Span.ofJson? span
      isArray := ← required asBool? isArray
      isPrimitive := ← required asBool? isPrimitive }
  | _ => none

end TypeRef

namespace Argument

def toJson (a : Argument) : Json :=
  .object [("name", .string a.name), ("span", a.span.toJson), ("value_span", a.valueSpan.toJson),
    ("value_text", .string a.valueText), ("string_value", option .string a.stringValue)]

def ofJson? (j : Json) : Option Argument := do
  match ← j.fields? ["name", "span", "value_span", "value_text", "string_value"] with
  | [name, span, valueSpan, valueText, stringValue] =>
    some {
      name := ← required asString? name
      span := ← required Span.ofJson? span
      valueSpan := ← required Span.ofJson? valueSpan
      valueText := ← required asString? valueText
      stringValue := ← optional asString? stringValue }
  | _ => none

end Argument

namespace AnnotationUse

def toJson (a : AnnotationUse) : Json :=
  .object [("name", .string a.name), ("simple_name", .string a.simpleName),
    ("qualified_name", option .string a.qualifiedName), ("span", a.span.toJson),
    ("name_span", a.nameSpan.toJson), ("args", list Argument.toJson a.args),
    ("args_span", option Span.toJson a.argsSpan)]

def ofJson? (j : Json) : Option AnnotationUse := do
  match ← j.fields? ["name", "simple_name", "qualified_name", "span", "name_span", "args",
    "args_span"] with
  | [name, simpleName, qualifiedName, span, nameSpan, args, argsSpan] =>
    some {
      name := ← required asString? name
      simpleName := ← required asString? simpleName
      qualifiedName := ← optional asString? qualifiedName
      span := ← required Span.ofJson? span
      nameSpan := ← required Span.ofJson? nameSpan
      args := ← required (items? Argument.ofJson?) args
      argsSpan := ← optional Span.ofJson? argsSpan }
  | _ => none

end AnnotationUse

namespace Keyword

def toJson (k : Keyword) : Json := .object [("text", .string k.text), ("span", k.span.toJson)]

def ofJson? (j : Json) : Option Keyword := do
  match ← j.fields? ["text", "span"] with
  | [text, span] => some ⟨← required asString? text, ← required Span.ofJson? span⟩
  | _ => none

end Keyword

namespace Modifiers

def toJson (m : Modifiers) : Json :=
  .object [("span", option Span.toJson m.span), ("keywords", list Keyword.toJson m.keywords),
    ("annotations", list AnnotationUse.toJson m.annotations)]

def ofJson? (j : Json) : Option Modifiers := do
  match ← j.fields? ["span", "keywords", "annotations"] with
  | [span, keywords, annotations] =>
    some {
      span := ← optional Span.ofJson? span
      keywords := ← required (items? Keyword.ofJson?) keywords
      annotations := ← required (items? AnnotationUse.ofJson?) annotations }
  | _ => .none

end Modifiers

namespace Parameter

def toJson (p : Parameter) : Json :=
  .object [("span", p.span.toJson), ("name", .string p.name), ("name_span", p.nameSpan.toJson),
    ("modifiers", p.modifiers.toJson), ("ty", p.type.toJson)]

def ofJson? (j : Json) : Option Parameter := do
  match ← j.fields? ["span", "name", "name_span", "modifiers", "ty"] with
  | [span, name, nameSpan, modifiers, type] =>
    some {
      span := ← required Span.ofJson? span
      name := ← required asString? name
      nameSpan := ← required Span.ofJson? nameSpan
      modifiers := ← required Modifiers.ofJson? modifiers
      type := ← required TypeRef.ofJson? type }
  | _ => none

end Parameter

namespace Declarator

def toJson (d : Declarator) : Json :=
  .object [("name", .string d.name), ("name_span", d.nameSpan.toJson)]

def ofJson? (j : Json) : Option Declarator := do
  match ← j.fields? ["name", "name_span"] with
  | [name, nameSpan] => some ⟨← required asString? name, ← required Span.ofJson? nameSpan⟩
  | _ => none

end Declarator

namespace FieldDecl

def toJson (f : FieldDecl) : Json :=
  .object [("span", f.span.toJson), ("modifiers", f.modifiers.toJson), ("ty", f.type.toJson),
    ("declarators", list Declarator.toJson f.declarators)]

def ofJson? (j : Json) : Option FieldDecl := do
  match ← j.fields? ["span", "modifiers", "ty", "declarators"] with
  | [span, modifiers, type, declarators] =>
    some {
      span := ← required Span.ofJson? span
      modifiers := ← required Modifiers.ofJson? modifiers
      type := ← required TypeRef.ofJson? type
      declarators := ← required (items? Declarator.ofJson?) declarators }
  | _ => none

end FieldDecl

namespace MethodDecl

def toJson (m : MethodDecl) : Json :=
  .object [("span", m.span.toJson), ("name", .string m.name), ("name_span", m.nameSpan.toJson),
    ("is_constructor", .bool m.isConstructor), ("modifiers", m.modifiers.toJson),
    ("type_params_span", option Span.toJson m.typeParamsSpan),
    ("return_type", option TypeRef.toJson m.returnType),
    ("params", list Parameter.toJson m.params), ("params_span", m.paramsSpan.toJson),
    ("throws", list TypeRef.toJson m.throws), ("has_body", .bool m.hasBody)]

def ofJson? (j : Json) : Option MethodDecl := do
  match ← j.fields? ["span", "name", "name_span", "is_constructor", "modifiers",
    "type_params_span", "return_type", "params", "params_span", "throws", "has_body"] with
  | [span, name, nameSpan, isConstructor, modifiers, typeParamsSpan, returnType, params,
      paramsSpan, throws, hasBody] =>
    some {
      span := ← required Span.ofJson? span
      name := ← required asString? name
      nameSpan := ← required Span.ofJson? nameSpan
      isConstructor := ← required asBool? isConstructor
      modifiers := ← required Modifiers.ofJson? modifiers
      typeParamsSpan := ← optional Span.ofJson? typeParamsSpan
      returnType := ← optional TypeRef.ofJson? returnType
      params := ← required (items? Parameter.ofJson?) params
      paramsSpan := ← required Span.ofJson? paramsSpan
      throws := ← required (items? TypeRef.ofJson?) throws
      hasBody := ← required asBool? hasBody }
  | _ => none

end MethodDecl

namespace TypeKind

/-- The word for a kind of type. -/
def label : TypeKind → String
  | .classType => "class"
  | .interfaceType => "interface"
  | .enumType => "enum"
  | .recordType => "record"
  | .annotationType => "annotation"

def all : List TypeKind :=
  [.classType, .interfaceType, .enumType, .recordType, .annotationType]

def ofJson? (j : Json) : Option TypeKind := do
  let word ← j.asString?
  all.find? (·.label == word)

end TypeKind

namespace TypeDecl

def toJson (t : TypeDecl) : Json :=
  .object [("kind", .string t.kind.label), ("name", .string t.name),
    ("name_span", t.nameSpan.toJson), ("span", t.span.toJson), ("body_span", t.bodySpan.toJson),
    ("modifiers", t.modifiers.toJson),
    ("type_params_span", option Span.toJson t.typeParamsSpan),
    ("superclass", option TypeRef.toJson t.superclass),
    ("interfaces", list TypeRef.toJson t.interfaces), ("fields", list FieldDecl.toJson t.fields),
    ("methods", list MethodDecl.toJson t.methods)]

def ofJson? (j : Json) : Option TypeDecl := do
  match ← j.fields? ["kind", "name", "name_span", "span", "body_span", "modifiers",
    "type_params_span", "superclass", "interfaces", "fields", "methods"] with
  | [kind, name, nameSpan, span, bodySpan, modifiers, typeParamsSpan, superclass, interfaces,
      fields, methods] =>
    some {
      kind := ← required TypeKind.ofJson? kind
      name := ← required asString? name
      nameSpan := ← required Span.ofJson? nameSpan
      span := ← required Span.ofJson? span
      bodySpan := ← required Span.ofJson? bodySpan
      modifiers := ← required Modifiers.ofJson? modifiers
      typeParamsSpan := ← optional Span.ofJson? typeParamsSpan
      superclass := ← optional TypeRef.ofJson? superclass
      interfaces := ← required (items? TypeRef.ofJson?) interfaces
      fields := ← required (items? FieldDecl.ofJson?) fields
      methods := ← required (items? MethodDecl.ofJson?) methods }
  | _ => none

end TypeDecl

namespace ImportDecl

def toJson (i : ImportDecl) : Json :=
  .object [("path", .string i.path), ("is_static", .bool i.isStatic),
    ("is_wildcard", .bool i.isWildcard), ("span", i.span.toJson)]

def ofJson? (j : Json) : Option ImportDecl := do
  match ← j.fields? ["path", "is_static", "is_wildcard", "span"] with
  | [path, isStatic, isWildcard, span] =>
    some {
      path := ← required asString? path
      isStatic := ← required asBool? isStatic
      isWildcard := ← required asBool? isWildcard
      span := ← required Span.ofJson? span }
  | _ => none

end ImportDecl

namespace CallArgument

def toJson (a : CallArgument) : Json :=
  .object [("span", a.span.toJson), ("string_literal", option .string a.stringLiteral)]

def ofJson? (j : Json) : Option CallArgument := do
  match ← j.fields? ["span", "string_literal"] with
  | [span, stringLiteral] =>
    some ⟨← required Span.ofJson? span, ← optional asString? stringLiteral⟩
  | _ => none

end CallArgument

namespace MethodCall

def toJson (c : MethodCall) : Json :=
  .object [("span", c.span.toJson), ("receiver", option .string c.receiver),
    ("name", .string c.name), ("name_span", c.nameSpan.toJson),
    ("args", list CallArgument.toJson c.args)]

def ofJson? (j : Json) : Option MethodCall := do
  match ← j.fields? ["span", "receiver", "name", "name_span", "args"] with
  | [span, receiver, name, nameSpan, args] =>
    some {
      span := ← required Span.ofJson? span
      receiver := ← optional asString? receiver
      name := ← required asString? name
      nameSpan := ← required Span.ofJson? nameSpan
      args := ← required (items? CallArgument.ofJson?) args }
  | _ => none

end MethodCall

namespace CompilationUnit

/-- The declarations of a unit, without its address and its text. -/
def declarationsJson (unit : CompilationUnit) : List (String × Json) :=
  [("package", option .string unit.package), ("imports", list ImportDecl.toJson unit.imports),
    ("types", list TypeDecl.toJson unit.types), ("invocations", list MethodCall.toJson unit.calls)]

def toJson (unit : CompilationUnit) : Json :=
  .object ([("uri", .string unit.uri), ("text", .string unit.text)] ++ unit.declarationsJson)

def ofJson? (j : Json) : Option CompilationUnit := do
  match ← j.fields? ["uri", "text", "package", "imports", "types", "invocations"] with
  | [uri, text, package, imports, types, calls] =>
    some {
      uri := ← required asString? uri
      text := ← required asString? text
      package := ← optional asString? package
      imports := ← required (items? ImportDecl.ofJson?) imports
      types := ← required (items? TypeDecl.ofJson?) types
      calls := ← required (items? MethodCall.ofJson?) calls }
  | _ => none

end CompilationUnit

end JakartaCheck
