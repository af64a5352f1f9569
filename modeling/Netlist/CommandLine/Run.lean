-- The commands. A command reads its settings and the design, and leaves an exit code,
-- the text for its two outputs and perhaps a file behind.
import Netlist.CommandLine.Arguments
import Netlist.Document.File
import Netlist.Settings

namespace Netlist.CommandLine

/-- What a command leaves behind. Zero is the exit code of success. -/
structure Result where
  exit : Nat
  stdout : String
  stderr : String
  deriving DecidableEq, Repr

namespace Result

/-- A refusal before the design was read. -/
def refused (reason : String) : Result := ⟨1, "", s!"error: {reason}\n"⟩

/-- A wrong command line. -/
def usage (e : UsageError) : Result := ⟨2, "", s!"error: {e.message}\n"⟩

/-- A read of a handle that stands for nothing. -/
def aborted (stderr : String) : Result := ⟨101, "", stderr⟩

end Result

def versionText : String := "weft 0.1.0\n"

def helpText : String :=
  "Usage: weft [OPTIONS] <COMMAND>\n\n" ++
  "Commands:\n" ++
  "  check <FILE> [-f, --format text|json] [--strict]\n" ++
  "  fmt <FILE> [-o, --output <FILE>] [--indent <N>]\n\n" ++
  "Options:\n" ++
  "  -q, --quiet\n  -v, --verbose\n  --color auto|always|never\n  --config <FILE>\n" ++
  "  -h, --help\n  -V, --version\n"

/-! ## Settings -/

/-- The folder that a path lies in, by the look of the path. -/
def folderOf (path : String) : String :=
  let isRooted := path.startsWith "/"
  let steps := path.splitOn "/"
  let steps := (steps.take 1).filter (· != "") ++ (steps.drop 1).filter fun s => s != "" && s != "."
  let folder := "/".intercalate steps.dropLast
  if isRooted then (if steps.isEmpty then "." else "/" ++ folder)
  else if folder.isEmpty then "."
  else folder

variable {m : Type → Type} [Monad m] [FileAccess m]

/-- The settings for a design: those of a named file, or else of the file beside it. -/
def loadSettings (options : Options) (file : String) : m (Except SettingsError Settings) :=
  match options.config with
  | some path => Settings.ofFile path
  | none => Settings.ofFolder (folderOf file)

/-! ## Reports -/

/-- Standard error is never a terminal here. -/
def Options.useColor (o : Options) : Bool := o.color == .always

/-- Diagnostics for a reader, a line or more each. Quietly, only errors are shown. -/
def reportText (o : Options) (ds : List Diagnostic) : String :=
  String.join ((ds.filter fun d => !o.quiet || d.severity.isError).map fun d =>
    d.render o.useColor ++ "\n")

/-- Diagnostics for a machine. -/
def reportJson (ds : List Diagnostic) : String :=
  (Json.array (ds.map Diagnostic.toJson)).pretty 2 ++ "\n"

/-- A type in one line: a leaf is a bare word. -/
def typeLabel (t : TypeTree String) : String :=
  match t.toJson with
  | .string leaf => leaf
  | node => node.compact

/-- The top module in one line. -/
def summary? (d : Design) (top : ModuleId) : Option String := do
  let name ← d.qualifiedName? (.module top)
  let m ← d.modules.get? top
  let label := typeLabel (← d.typeTree? m.type)
  let body := match m.definition with
    | some definition =>
      s!"{definition.instances.size} instance(s), {definition.connections.size} connection(s)"
    | none => "no definition"
  return s!"     Loaded {name}: {label}, {body}\n"

/-- A line for each namespace. -/
def namespaceLines? (d : Design) : Option String := do
  let lines ← d.namespaces.toList.mapM fun ns => do
    let name ← d.text? ns.name
    return s!"       {name}: {ns.modules.size} module(s), {ns.generators.size} generator(s)\n"
  return String.join lines

/-! ## Checking -/

/-- The outcome of checking a design file whose content is given. -/
def checkContent (o : Options) (strict : Bool) (format : ReportFormat) (file : String)
    (content : Except FileError String) : Result :=
  let chatty := !o.quiet && format == .text
  let opening := if chatty then s!"   Checking {file}\n" else ""
  match Document.loadFile strict file content .empty Design.empty with
  | .error _ _ => .aborted opening
  | .ok (top?, log) d =>
    let (shown, told) := match format with
      | .text => ("", reportText o log.pending)
      | .json => (reportJson log.pending, "")
    let closing := match top? with
      | none => some ""
      | some top =>
        if chatty then do
          let line ← summary? d top
          if o.verbose then return line ++ (← namespaceLines? d) else return line
        else some ""
    match closing with
    | none => .aborted (opening ++ told)
    | some closing =>
      ⟨if top?.isNone || log.hasErrors then 1 else 0, shown, opening ++ told ++ closing⟩

def check (o : Options) (file : String) (format : ReportFormat) (strict : Bool) : m Result := do
  match ← loadSettings o file with
  | .error e => return .refused e.message
  | .ok settings =>
    return checkContent o (settings.strict || strict) format file (← FileAccess.readText file)

/-! ## Formatting -/

/-- The indentation to use: that of the command line, or else that of the settings. -/
def effectiveIndent (settings : Settings) : Option Nat → Except String Nat
  | none => .ok settings.indent
  | some n =>
    if n ≤ Settings.maxIndent then .ok n
    else .error s!"--indent must be at most {Settings.maxIndent}, found {n}"

/-- The canonical text of a design file whose content is given, with the log of loading
it; or the result of the command, if there is nothing to write. -/
def canonicalText (o : Options) (strict : Bool) (indent : Nat) (file : String)
    (content : Except FileError String) : Except Result (String × Diagnostic.Log) :=
  match Document.loadFile strict file content .empty Design.empty with
  | .error _ _ => .error (.aborted "")
  | .ok (none, log) _ => .error ⟨1, "", reportText o log.pending⟩
  | .ok (some top, log) d =>
    match d.save? top indent with
    | some text => .ok (text, log)
    | none => .error (.aborted "")

/-- Nothing is written unless the design loads. -/
def fmt (o : Options) (file : String) (output : Option String) (indent : Option Nat) :
    m Result := do
  match ← loadSettings o file with
  | .error e => return .refused e.message
  | .ok settings =>
    match effectiveIndent settings indent with
    | .error reason => return .refused reason
    | .ok indent =>
      match canonicalText o settings.strict indent file (← FileAccess.readText file) with
      | .error result => return result
      | .ok (text, log) =>
        let out := output.getD file
        let (saved, log) := Document.concludeSave log out (← FileAccess.writeText out text)
        let closing := if saved && !o.quiet then s!"   Formatted {file} -> {out}\n" else ""
        return ⟨if log.hasErrors then 1 else 0, "", reportText o log.pending ++ closing⟩

/-! ## The whole program -/

/-- Runs a command line. -/
def run (words : List String) : m Result :=
  match parse words with
  | .error e => return .usage e
  | .ok .version => return ⟨0, versionText, ""⟩
  | .ok .help => return ⟨0, helpText, ""⟩
  | .ok (.run o (.check file format strict)) => check o file format strict
  | .ok (.run o (.fmt file output indent)) => fmt o file output indent

end Netlist.CommandLine
