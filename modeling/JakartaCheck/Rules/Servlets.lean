import JakartaCheck.Check.Hierarchy
import JakartaCheck.Check.Member
import JakartaCheck.Diagnostic.Code
import JakartaCheck.Rules.Rule

/-!
# Servlets, filters and listeners

Supertypes and attributes of annotated classes.
-/

namespace JakartaCheck.Servlets

def webServlet : String := "jakarta.servlet.annotation.WebServlet"
def webFilter : String := "jakarta.servlet.annotation.WebFilter"
def webListener : String := "jakarta.servlet.annotation.WebListener"
def httpServlet : String := "jakarta.servlet.http.HttpServlet"
def filter : String := "jakarta.servlet.Filter"

def listeners : List String :=
  ["jakarta.servlet.ServletContextListener", "jakarta.servlet.ServletContextAttributeListener",
    "jakarta.servlet.ServletRequestListener", "jakarta.servlet.ServletRequestAttributeListener",
    "jakarta.servlet.http.HttpSessionListener",
    "jakarta.servlet.http.HttpSessionAttributeListener",
    "jakarta.servlet.http.HttpSessionIdListener"]

def applies (unit : CompilationUnit) : Bool := unit.mentions "jakarta.servlet"

/-- How an annotation names what it serves. -/
inductive Patterns where
  | ok
  | missing
  | both
deriving DecidableEq, Repr

/-- Patterns are given by `value` or by `urlPatterns`; one of `others` may stand for them. -/
def patterns (a : AnnotationUse) (others : List String) : Patterns :=
  match a.hasArg "value", a.hasArg "urlPatterns" with
  | true, true => .both
  | false, false => if others.any a.hasArg then .ok else .missing
  | _, _ => .ok

/-- The classes of a unit, each with the annotation that denotes `fqn`. -/
def annotated (unit : CompilationUnit) (types : List TypeDecl) (fqn : String) :
    List (TypeDecl × AnnotationUse) :=
  types.filterMap fun t => (unit.annotationOf? t.modifiers fqn).map fun a => (t, a)

def classes (unit : CompilationUnit) : List TypeDecl := unit.types.filter (·.isClass)

/-- A servlet extends `HttpServlet`. -/
def servletSuperclass : Rule :=
  .ofFindings "webservlet-superclass" [Code.extendHttpServlet] applies fun unit =>
    ((annotated unit (classes unit) webServlet).filter fun (t, _) =>
      Hierarchy.extendsClass unit t httpServlet == .no).map fun (t, _) =>
        Diagnostic.error Source.servlet Code.extendHttpServlet
          "Annotated classes with @WebServlet must extend the HttpServlet class." t.nameSpan

/-- A servlet names its patterns once. -/
def servletAttributes : Rule :=
  .ofFindings "webservlet-attributes"
    [Code.completeHttpServletAttributes, Code.invalidHttpServletAttribute] applies fun unit =>
      (annotated unit unit.types webServlet).flatMap fun (_, a) =>
        match patterns a [] with
        | .ok => []
        | .missing => [(Diagnostic.error Source.servlet Code.completeHttpServletAttributes
            "The @WebServlet annotation must define the attribute 'urlPatterns' or 'value'."
            a.nameSpan).withNames ["value"]]
        | .both => [Diagnostic.error Source.servlet Code.invalidHttpServletAttribute
            "The @WebServlet annotation cannot have both 'value' and 'urlPatterns' attributes specified at once."
            a.nameSpan]

/-- A filter implements `Filter` and says what it filters. -/
def filterStructure : Rule :=
  .ofFindings "webfilter-structure"
    [Code.implementFilter, Code.completeFilterAttributes, Code.invalidFilterAnnotationAttribute]
    applies fun unit =>
      (annotated unit (classes unit) webFilter).flatMap fun (t, a) =>
        let supertype :=
          if Hierarchy.implementsAny unit t [filter] == .no then
            [Diagnostic.error Source.servlet Code.implementFilter
              "Annotated classes with @WebFilter must implement the Filter interface." t.nameSpan]
          else []
        let attributes := match patterns a ["servletNames"] with
          | .ok => []
          | .missing => [(Diagnostic.error Source.servlet Code.completeFilterAttributes
              "The @WebFilter annotation must define the attribute 'urlPatterns', 'servletNames' or 'value'."
              a.nameSpan).withNames ["value"]]
          | .both => [Diagnostic.error Source.servlet Code.invalidFilterAnnotationAttribute
              "The @WebFilter annotation cannot have both 'value' and 'urlPatterns' attributes specified at once."
              a.nameSpan]
        supertype ++ attributes

/-- A listener implements one of the listener interfaces. -/
def listenerInterface : Rule :=
  .ofFindings "weblistener-interface" [Code.webListenerMustImplementCorrectInterface] applies
    fun unit =>
      ((annotated unit (classes unit) webListener).filter fun (t, _) =>
        Hierarchy.implementsAny unit t listeners == .no).map fun (t, _) =>
          Diagnostic.error Source.servlet Code.webListenerMustImplementCorrectInterface
            "Annotated classes with @WebListener must implement one or more of the following interfaces: ServletContextListener, ServletContextAttributeListener, ServletRequestListener, ServletRequestAttributeListener, HttpSessionListener, HttpSessionAttributeListener, or HttpSessionIdListener."
            t.nameSpan

def rules : List Rule :=
  [servletSuperclass, servletAttributes, filterStructure, listenerInterface]

end JakartaCheck.Servlets
