-- What can go wrong while a document is read or written.
import Netlist.Diagnostic
import Netlist.GraphError

namespace Netlist

/-- A refused load or save. Except for the file and the text itself, the cause is told
in words. -/
inductive LoadError where
  | io (path reason : String)
  | badJson (reason : String)
  | symbol (text : String)
  | type (text : String)
  | param (text : String)
  | arg (text : String)
  | structural (text : String)
  | notImplemented (text : String)
  deriving DecidableEq, Repr

namespace LoadError

def message : LoadError → String
  | io path reason => s!"Cannot open file {path}: {reason}"
  | badJson reason => s!"invalid JSON: {reason}"
  | notImplemented text => s!"not implemented: {text}"
  | symbol text | type text | param text | arg text | structural text => text

def code : LoadError → DiagnosticCode
  | io .. => .io
  | badJson _ | structural _ => .structural
  | symbol _ => .symbol
  | type _ => .type
  | param _ => .param
  | arg _ => .arg
  | notImplemented _ => .notImplemented

def toDiagnostic (e : LoadError) : Diagnostic := .error e.code e.message

/-- An error of the design, found while a document was read into it. -/
def ofGraph (e : GraphError) : LoadError :=
  match e with
  | .missingSymbol .. | .duplicateSymbol .. => symbol e.message
  | .duplicateField _ => type e.message
  | .missingArg .. | .unexpectedArg .. | .argKindMismatch .. => arg e.message
  | .duplicateInstance .. | .reservedInstanceName _ | .emptyWirePath | .unknownInstance ..
  | .wrongTargetKind .. | .definitionMismatch .. => structural e.message

end LoadError

end Netlist
