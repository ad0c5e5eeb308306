import JakartaCheck.Editor.Service
import JakartaCheck.Json.Pretty

/-!
# The command line

`jakarta-lint` checks Java files and prints what it finds, as text or as JSON. `CommandLine.run`
computes what it prints and how it ends from its arguments and from the files.
-/

namespace JakartaCheck.CommandLine

def version : String := "jakarta-lint 0.1.0\n"

def help : String :=
  String.intercalate "\n" [
    "Check Java sources against Jakarta EE rules",
    "",
    "Usage: jakarta-lint [OPTIONS] <FILES>...",
    "",
    "Arguments:",
    "  <FILES>...  Java files to check",
    "",
    "Options:",
    "      --config <CONFIG>  Config file (defaults to `jakarta.toml` or `.jakarta/config.toml` in " ++
      "the current directory)",
    "      --json             Emit JSON suitable for CI",
    "  -h, --help             Print help",
    "  -V, --version          Print version",
    ""]

/-! ### Arguments -/

structure Options where
  config : Option String := none
  json : Bool := false
  files : List String := []
deriving DecidableEq, Repr

/-- Why the files are not checked. -/
inductive Detour where
  | version
  | help
  /-- The arguments are wrong. -/
  | usage
deriving DecidableEq, Repr

/-- Options are given once, and their values are not empty. -/
def setConfig (o : Options) (value : String) : Except Detour Options :=
  if o.config.isSome || value.isEmpty then .error .usage else .ok { o with config := some value }

def setJson (o : Options) : Except Detour Options :=
  if o.json then .error .usage else .ok { o with json := true }

def addFile (o : Options) (file : String) : Except Detour Options :=
  if file.isEmpty then .error .usage else .ok { o with files := o.files ++ [file] }

/-- Could an argument be an option? A single hyphen is a value. -/
def isOption (arg : String) : Bool := arg != "-" && Text.startsWith ['-'] arg.toList

/-- What an argument that starts with a single hyphen asks for; its first letter decides. -/
def shortOption (arg : String) : Detour :=
  match arg.toList.drop 1 with
  | 'V' :: _ => .version
  | 'h' :: _ => .help
  | _ => .usage

/-- Reads arguments one after the other. After `--` there are only files. -/
def parseFrom (o : Options) : List String → Except Detour Options
  | [] => .ok o
  | "--" :: files => files.foldlM addFile o
  | "--json" :: args => do parseFrom (← setJson o) args
  | "--version" :: _ => .error .version
  | "--help" :: _ => .error .help
  | ["--config"] => .error .usage
  | "--config" :: value :: args =>
    if isOption value then .error .usage else do parseFrom (← setConfig o value) args
  | arg :: args =>
    match Text.stripFront "--config=".toList arg.toList with
    | some value => do parseFrom (← setConfig o (String.ofList value)) args
    | none =>
      if Text.startsWith ['-', '-'] arg.toList then .error .usage
      else if isOption arg then .error (shortOption arg)
      else do parseFrom (← addFile o arg) args

/-- The options that arguments stand for. There has to be a file. -/
def parse (args : List String) : Except Detour Options := do
  let o ← parseFrom {} args
  if o.files.isEmpty then .error .usage else .ok o

/-! ### Reports -/

/-- A diagnostic in a report. Lines and columns are counted from one. -/
structure Finding where
  line : Nat
  column : Nat
  severity : Severity
  code : Option String
  source : Option String
  message : String
deriving DecidableEq, Repr

structure FileReport where
  path : String
  findings : List Finding
deriving DecidableEq, Repr

structure Report where
  files : List FileReport
deriving DecidableEq, Repr

def codeText : Editor.MessageCode → String
  | .text code => code
  | .number code => toString code

def Finding.ofMessage (m : Editor.Message) : Finding where
  line := m.range.start.line + 1
  column := m.range.start.column + 1
  severity := Editor.severityOf m.severity
  code := m.code.map codeText
  source := m.source
  message := m.message

namespace Report

def count (r : Report) (severity : Severity) : Nat :=
  (r.files.flatMap (·.findings)).countP (·.severity == severity)

def errors (r : Report) : Nat := r.count .error

def warnings (r : Report) : Nat := r.count .warning

def findingJson (f : Finding) : Json :=
  .object [("line", .nat f.line), ("column", .nat f.column), ("severity", .string f.severity.label),
    ("code", .option .string f.code), ("source", .option .string f.source),
    ("message", .string f.message)]

def toJson (r : Report) : Json :=
  .object [("files", .list (fun f => .object [("path", .string f.path),
      ("diagnostics", .list findingJson f.findings)]) r.files),
    ("summary", .object [("errors", .nat r.errors), ("warnings", .nat r.warnings)])]

def findingLine (path : String) (f : Finding) : String :=
  let code := match f.code with
    | some code => "[" ++ code ++ "]"
    | none => ""
  s!"{path}:{f.line}:{f.column}: {f.severity.label} {code} {f.message}\n"

def toText (r : Report) : String :=
  String.join (r.files.flatMap fun f => f.findings.map (findingLine f.path)) ++
    s!"summary: {r.errors} errors, {r.warnings} warnings\n"

end Report

/-! ### Running -/

/-- What is printed, and the exit code. -/
structure Ending where
  code : Nat
  stdout : String
  stderr : String
deriving DecidableEq, Repr

/-- Why there is no report. -/
inductive RunError where
  | settings (reason : SettingsError)
  | cannotOpen (path : String) (reason : AccessError)
  /-- The place of a file cannot be written as a URI. -/
  | invalidUri (uri : String)
  | service (reason : Editor.ServiceFailure)
deriving DecidableEq, Repr

def RunError.message : RunError → String
  | .settings reason => reason.report
  | .cannotOpen path reason => s!"cannot open {path}: {reason.message}"
  | .invalidUri uri => s!"invalid URI {uri}"
  | .service (.cancelled reason) => reason.message
  | .service (.crash fault) => fault.message

def settingsFor (tree : FileTree) (o : Options) : Except RunError Settings :=
  match o.config with
  | some path => (Settings.ofFile tree path).mapError .settings
  | none => ((Settings.ofWorkspace tree).map (·.1)).mapError .settings

/-- The URI of a file. -/
def uriOf (tree : FileTree) (path : String) : Except RunError String := do
  let place ← (tree.resolve path).mapError (.cannotOpen path)
  let uri := FileUri.ofPlace place
  if Uri.isValid uri then .ok uri else .error (.invalidUri uri)

/-- Checks the files and reports on them in order. -/
def check (tree : FileTree) (o : Options) : Except RunError Report := do
  let settings ← settingsFor tree o
  let uris ← o.files.mapM (uriOf tree)
  let service := Editor.Service.ofSettings settings.diagnostics
  let published ← (service.diagnostics tree.readUri 0 [] ⟨uris⟩).mapError .service
  return ⟨(o.files.zip published).map fun (path, item) =>
    ⟨path, item.messages.map Finding.ofMessage⟩⟩

/-- Runs the program. Errors among the findings make it end with 1, its own errors with 2. -/
def run (tree : FileTree) (args : List String) : Ending :=
  match parse args with
  | .error .version => ⟨0, version, ""⟩
  | .error .help => ⟨0, help, ""⟩
  | .error .usage => ⟨2, "", "error: wrong arguments; for more information, try '--help'.\n"⟩
  | .ok o =>
    match check tree o with
    | .error reason => ⟨2, "", reason.message ++ "\n"⟩
    | .ok report =>
      ⟨if 0 < report.errors then 1 else 0,
        if o.json then report.toJson.pretty ++ "\n" else report.toText, ""⟩

/-! ### Files that a run looks at -/

/-- The paths that a run may read. -/
def pathsRead (args : List String) : List String :=
  match parse args with
  | .error _ => []
  | .ok o => o.config.toList ++ Settings.candidates ++ o.files

end JakartaCheck.CommandLine
