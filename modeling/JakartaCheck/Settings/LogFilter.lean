import JakartaCheck.Settings.Basic
import JakartaCheck.Text.Blank
import JakartaCheck.Text.Letter

/-!
# What is logged

A filter is a set of directives: a level for everything, and levels for single targets. It is put
together from the settings and from the environment, where the environment wins.
-/

namespace JakartaCheck

inductive LogLevel where
  | off
  | error
  | warn
  | info
  | debug
  | trace
deriving DecidableEq, Repr

namespace LogLevel

def label : LogLevel → String
  | .off => "off"
  | .error => "error"
  | .warn => "warn"
  | .info => "info"
  | .debug => "debug"
  | .trace => "trace"

/-- All levels; a level may also be given by its place in this list. -/
def all : List LogLevel := [.off, .error, .warn, .info, .debug, .trace]

/-- A number of digits, with a plus sign in front or not. -/
def number? (cs : List Char) : Option Nat :=
  let digits := match cs with
    | '+' :: rest => rest
    | _ => cs
  if digits.isEmpty then none else Text.digitsFrom? 10 0 digits

/-- The level with that number or name. Case does not matter, and no name at all means errors. -/
def ofText? (cs : List Char) : Option LogLevel :=
  (number? cs).bind (all[·]?) <|>
    if cs.isEmpty then some .error
    else all.find? fun level => level.label.toList == cs.map Char.toLower

end LogLevel

/-- A level for one target, or for all of them. -/
structure LogDirective where
  target : Option String
  level : LogLevel
deriving DecidableEq, Repr

namespace LogDirective

/-- May a directive start with `c`? -/
def startsDirective (c : Char) : Bool :=
  c == '-' || c == ':' || c == '_' || Text.isLetter c || Text.isNumber c

/-- Reads a level, a target, or a target and its level after an equals sign; a target alone is
logged in full. The equals sign is looked for after the blank space in front of the directive, but
the text is cut as many characters after its very start. -/
def ofText? (cs : List Char) : Option LogDirective :=
  match Text.trim cs with
  | [] => none
  | c :: trimmed =>
    if !startsDirective c then none
    else
      match Text.splitOnce '=' (c :: trimmed) with
      | none =>
        match LogLevel.ofText? cs with
        | some level => some ⟨none, level⟩
        | none => some ⟨some (String.ofList cs), .trace⟩
      | some (before, _) =>
        let written := cs.drop (before.length + 1)
        let level? := if written.isEmpty then some LogLevel.trace else LogLevel.ofText? written
        level?.map (⟨some (String.ofList (cs.take before.length)), ·⟩)

def text (d : LogDirective) : String :=
  match d.target with
  | some target => target ++ "=" ++ d.level.label
  | none => d.level.label

end LogDirective

/-- Directives, at most one for each target. -/
structure LogFilter where
  directives : List LogDirective
deriving DecidableEq, Repr

namespace LogFilter

/-- Adds a directive in place of an earlier one for the same target. -/
def add (filter : LogFilter) (d : LogDirective) : LogFilter :=
  ⟨filter.directives.filter (·.target != d.target) ++ [d]⟩

/-- The filter of directives with commas between them, if all of them can be read. -/
def ofText? (text : String) : Option LogFilter := do
  let directives ← ((Text.splitOn ',' text.toList).filter (!·.isEmpty)).mapM LogDirective.ofText?
  some (directives.foldl add ⟨[]⟩)

def text (filter : LogFilter) : String :=
  String.intercalate "," (filter.directives.map LogDirective.text)

end LogFilter

namespace LoggingSettings

/-- The directives of the settings: a known level in lower case, and anything else as it is. -/
def directives (s : LoggingSettings) : String :=
  let level := Text.trim s.level.toList
  let lower := String.ofList (level.map Char.toLower)
  if level.isEmpty then "info"
  else if lower == "warning" then "warn"
  else if (LogLevel.all.map LogLevel.label).contains lower then lower
  else String.ofList level

/-- The filter of the settings, to which the environment may add directives. If they cannot be
read together, those of the environment are taken, or else those of the settings, or else the
default level. -/
def filter (s : LoggingSettings) (environment : Option String) : LogFilter :=
  let configured := s.directives
  let added := (environment.map fun value => String.ofList (Text.trim value.toList)).filter
    (!·.isEmpty)
  let candidates := match added with
    | some value => [configured ++ "," ++ value, value, configured]
    | none => [configured]
  (candidates.findSome? LogFilter.ofText?).getD ⟨[⟨none, .info⟩]⟩

end LoggingSettings

end JakartaCheck
