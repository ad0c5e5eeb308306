import JakartaCheck.FileTree
import JakartaCheck.Toml.Document

/-!
# Settings

A workspace is configured by a TOML document with two tables, `logging` and `diagnostics`. Whatever
it leaves out has a default, and a field that is not known is an error.
-/

namespace JakartaCheck

structure LoggingSettings where
  /-- A level, or directives for single targets. -/
  level : String := "info"
  json : Bool := false
  stderr : Bool := true
  file : Option String := none
deriving DecidableEq, Repr

structure DiagnosticsSettings where
  /-- If not set, there are no diagnostics at all. -/
  enabled : Bool := true
  /-- Ids of rules to leave out. -/
  disabledRules : List String := []
  /-- How many diagnostics of each rule are kept for a file. -/
  maxPerRule : Nat := 256
  parallelRules : Bool := false
deriving DecidableEq, Repr

structure Settings where
  logging : LoggingSettings := {}
  diagnostics : DiagnosticsSettings := {}
deriving DecidableEq, Repr

/-- Why there are no settings. -/
inductive SettingsError where
  | unreadable (path : String) (reason : AccessError)
  | unknownField (name : String) (known : List String)
  /-- The text is no TOML document, or a value is of the wrong kind. -/
  | malformed
deriving DecidableEq, Repr

namespace SettingsError

/-- Field names in words. -/
def alternatives (names : List String) : String :=
  match names.map fun name => "`" ++ name ++ "`" with
  | [] => "there are no fields"
  | [a] => s!"expected {a}"
  | [a, b] => s!"expected {a} or {b}"
  | quoted => "expected one of " ++ String.intercalate ", " quoted

def message : SettingsError → String
  | .unreadable path reason => s!"failed to read config file {path}: {reason.message}"
  | .unknownField name known =>
    s!"failed to parse toml config: unknown field `{name}`, {alternatives known}"
  | .malformed => "failed to parse toml config: malformed document"

/-- The message, followed by its cause if it has one. -/
def report : SettingsError → String
  | .unreadable path reason => (unreadable path reason).message ++ s!": {reason.message}"
  | e => e.message

end SettingsError

namespace Settings

/-- Reads a record field by field, in the order in which they stand. An array lists the fields
without their names, and a date is a record with one private field. -/
def readRecord {σ : Type} (names : List String)
    (setField : σ → String → Toml → Except SettingsError σ) (initial : σ) :
    Toml → Except SettingsError σ
  | .table _ entries => entries.foldlM (fun record (name, value) =>
      if names.contains name then setField record name value
      else .error (.unknownField name names)) initial
  | .array items =>
    (names.zip items).foldlM (fun record (name, value) => setField record name value) initial
  | .tables front last =>
    (names.zip (front ++ [last])).foldlM (fun record (name, entries) =>
      setField record name (.table .header entries)) initial
  | .dateTime _ => .error (.unknownField "$__toml_private_datetime" names)
  | _ => .error .malformed

def readString : Toml → Except SettingsError String
  | .string s => .ok s
  | _ => .error .malformed

def readBool : Toml → Except SettingsError Bool
  | .boolean b => .ok b
  | _ => .error .malformed

def readCount : Toml → Except SettingsError Nat
  | .integer (.ofNat n) => .ok n
  | _ => .error .malformed

def readStrings : Toml → Except SettingsError (List String)
  | .array items => items.mapM readString
  | _ => .error .malformed

def readLogging : Toml → Except SettingsError LoggingSettings :=
  readRecord ["level", "json", "stderr", "file"] (fun s name value =>
    match name with
    | "level" => do return { s with level := ← readString value }
    | "json" => do return { s with json := ← readBool value }
    | "stderr" => do return { s with stderr := ← readBool value }
    | _ => do return { s with file := some (← readString value) }) {}

def readDiagnostics : Toml → Except SettingsError DiagnosticsSettings :=
  readRecord ["enabled", "disabled_rules", "max_per_rule", "parallel_rules"] (fun s name value =>
    match name with
    | "enabled" => do return { s with enabled := ← readBool value }
    | "disabled_rules" => do return { s with disabledRules := ← readStrings value }
    | "max_per_rule" => do return { s with maxPerRule := ← readCount value }
    | _ => do return { s with parallelRules := ← readBool value }) {}

def ofToml : Toml → Except SettingsError Settings :=
  readRecord ["logging", "diagnostics"] (fun s name value =>
    match name with
    | "logging" => do return { s with logging := ← readLogging value }
    | _ => do return { s with diagnostics := ← readDiagnostics value }) {}

/-- The settings that a document describes. -/
def ofText (text : String) : Except SettingsError Settings :=
  match Toml.ofText? text with
  | some entries => ofToml (.table .header entries)
  | none => .error .malformed

/-! ### Settings of a workspace -/

/-- The settings in a file. -/
def ofFile (tree : FileTree) (path : String) : Except SettingsError Settings :=
  match tree.read path with
  | .ok text => ofText text
  | .error reason => .error (.unreadable path reason)

/-- Where the settings of a workspace may be. -/
def candidates : List String := ["jakarta.toml", ".jakarta/config.toml"]

def discover? (tree : FileTree) : Option String := candidates.find? tree.isFile

/-- The settings of a workspace and the file they come from; without a file the defaults. -/
def ofWorkspace (tree : FileTree) : Except SettingsError (Settings × Option String) :=
  match discover? tree with
  | none => .ok ({}, none)
  | some path => do return (← ofFile tree path, some path)

end Settings

end JakartaCheck
