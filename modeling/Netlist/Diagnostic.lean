-- Diagnostics: what loads and saves report, how it is written for a terminal, and the
-- log that collects it.
import Netlist.Json.Basic

namespace Netlist

/-- A warning tells of something that was tolerated, an error of something that was
refused. -/
inductive Severity where
  | warning
  | error
  deriving DecidableEq, Repr

namespace Severity

def text : Severity → String
  | warning => "warning"
  | error => "error"

/-- The word with a capital letter, as machines read it. -/
def title : Severity → String
  | warning => "Warning"
  | error => "Error"

def isError : Severity → Bool
  | warning => false
  | error => true

/-- The graver of the two. -/
def worst (s t : Severity) : Severity := if s.isError then s else t

end Severity

/-- A code is a number within its severity. -/
structure DiagnosticCode where
  category : Severity
  number : Nat
  deriving DecidableEq, Repr

namespace DiagnosticCode

def io : DiagnosticCode := ⟨.error, 1⟩
def symbol : DiagnosticCode := ⟨.error, 2⟩
def type : DiagnosticCode := ⟨.error, 3⟩
def param : DiagnosticCode := ⟨.error, 4⟩
def arg : DiagnosticCode := ⟨.error, 5⟩
def structural : DiagnosticCode := ⟨.error, 6⟩
def notImplemented : DiagnosticCode := ⟨.error, 7⟩

/-- A lax load ignored an argument that no parameter asks for. -/
def unknownConfigKey : DiagnosticCode := ⟨.warning, 1⟩

/-- The letter of the category, and the number with at least three digits. -/
def text (c : DiagnosticCode) : String :=
  let letter := match c.category with
    | .error => "E"
    | .warning => "W"
  let digits := toString c.number
  letter ++ String.ofList (List.replicate (3 - digits.length) '0') ++ digits

end DiagnosticCode

/-- One report: how grave it is, which kind it is, what it says, and notes on it. -/
structure Diagnostic where
  severity : Severity
  code : DiagnosticCode
  message : String
  notes : List String
  deriving DecidableEq, Repr

namespace Diagnostic

def error (code : DiagnosticCode) (message : String) : Diagnostic := ⟨.error, code, message, []⟩

def warning (code : DiagnosticCode) (message : String) : Diagnostic :=
  ⟨.warning, code, message, []⟩

def withNote (d : Diagnostic) (note : String) : Diagnostic := { d with notes := d.notes ++ [note] }

/-- An error is fatal: the operation that reported it gave no result. -/
def isFatal (d : Diagnostic) : Bool := d.severity.isError

/-- The severity as a terminal shows it. With colour it is bold, red or yellow. -/
def severityLabel (color : Bool) (s : Severity) : String :=
  if color then
    let hue := match s with
      | .error => "31"
      | .warning => "33"
    "\x1b[1;" ++ hue ++ "m" ++ s.text ++ "\x1b[0m"
  else s.text

/-- One line for the message, and one for each note. -/
def render (color : Bool) (d : Diagnostic) : String :=
  severityLabel color d.severity ++ "[" ++ d.code.text ++ "]: " ++ d.message ++
    String.join (d.notes.map fun note => "\n   = note: " ++ note)

def toJson (d : Diagnostic) : Json :=
  .object [
    ("severity", .string d.severity.title),
    ("code", .object [
      ("category", .string d.code.category.title),
      ("number", .nat d.code.number)]),
    ("message", .string d.message),
    ("notes", .array (d.notes.map .string))]

/-! ## The log -/

/-- What was reported and not yet taken, and how much was reported in all. -/
structure Log where
  pending : List Diagnostic
  errors : Nat
  warnings : Nat
  deriving DecidableEq, Repr

namespace Log

def empty : Log := ⟨[], 0, 0⟩

instance : Inhabited Log := ⟨empty⟩

def emit (log : Log) (d : Diagnostic) : Log :=
  match d.severity with
  | .error => { log with pending := log.pending ++ [d], errors := log.errors + 1 }
  | .warning => { log with pending := log.pending ++ [d], warnings := log.warnings + 1 }

def emitAll (log : Log) (ds : List Diagnostic) : Log := ds.foldl emit log

def hasErrors (log : Log) : Bool := decide (0 < log.errors)

/-- Takes what is pending. The counters stay. -/
def drain (log : Log) : List Diagnostic × Log := (log.pending, { log with pending := [] })

theorem pending_emitAll (log : Log) (ds : List Diagnostic) :
    (log.emitAll ds).pending = log.pending ++ ds := by
  induction ds generalizing log with
  | nil => simp [emitAll]
  | cons d rest ih =>
    rw [emitAll, List.foldl_cons, ← emitAll, ih, emit]
    split <;> simp

end Log

/-- The highest severity of a list. -/
def worst? : List Diagnostic → Option Severity
  | [] => none
  | d :: rest => some (rest.foldl (fun s e => s.worst e.severity) d.severity)

end Diagnostic

end Netlist
