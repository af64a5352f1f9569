-- What can go wrong while a design is built or asked.
import Netlist.Definition.Basic
import Netlist.Pool

namespace Netlist

/-- Why a step gave no answer: an error of the step, or a handle that stands for nothing
was read. -/
inductive Failure (ε : Type) where
  | error (e : ε)
  | stale
  deriving DecidableEq, Repr

namespace Failure

variable {ε ε' : Type}

def map (f : ε → ε') : Failure ε → Failure ε'
  | error e => error (f e)
  | stale => stale

/-- An error that can be put in words only if every handle in it stands for something. -/
def ofOption : Option ε → Failure ε
  | some e => error e
  | none => stale

end Failure

/-- An error of the design. Names are given as texts, so that an error can outlive the
design that it is about. -/
inductive GraphError where
  /-- A namespace, or a name in it, that stands for nothing. -/
  | missingSymbol (scope name : String)
  | duplicateSymbol (scope name : String)
  | duplicateField (field : String)
  | duplicateInstance (owner name : String)
  | reservedInstanceName (name : String)
  | emptyWirePath
  | unknownInstance (owner name : String)
  | missingArg (target name : String)
  | unexpectedArg (target name : String)
  | argKindMismatch (target name : String) (expected found : ParamKind)
  | wrongTargetKind (name : String) (expected : TargetKind)
  | definitionMismatch (owner reason : String)
  deriving DecidableEq, Repr

namespace GraphError

def message : GraphError → String
  | missingSymbol scope name => s!"Missing Symbol: {scope}.{name}"
  | duplicateSymbol scope name => s!"symbol {scope}.{name} is already declared"
  | duplicateField field => s!"duplicate record field '{field}'"
  | duplicateInstance owner name => s!"duplicate instance '{name}' in definition of {owner}"
  | reservedInstanceName name => s!"instance name '{name}' is reserved"
  | emptyWirePath => "wire path has an empty instance name"
  | unknownInstance owner name => s!"connection in {owner} references unknown instance '{name}'"
  | missingArg target name => s!"missing argument '{name}' for {target}"
  | unexpectedArg target name => s!"unexpected argument '{name}' for {target}"
  | argKindMismatch target name expected found =>
    s!"argument '{name}' for {target} must be {expected.text}, found {found.text}"
  | wrongTargetKind name expected => s!"{name} is not a {expected.text}"
  | definitionMismatch owner reason => s!"cannot attach definition to {owner}: {reason}"

end GraphError

namespace Params

/-- The error that reports a mismatch at a target, unless its name has no text. -/
def Mismatch.toError? (names : NameTable) (target : String) : Mismatch → Option GraphError
  | missing n => do return .missingArg target (← names.text? n)
  | wrongKind n expected found => do
    return .argKindMismatch target (← names.text? n) expected found
  | unexpected n => do return .unexpectedArg target (← names.text? n)

/-- Accepts exactly the arguments that bind these parameters. -/
def check (params : Params) (args : Args) (target : String) (names : NameTable) :
    Except (Failure GraphError) Unit :=
  match params.mismatch? args with
  | none => .ok ()
  | some m => .error (.ofOption (m.toError? names target))

end Params

end Netlist
