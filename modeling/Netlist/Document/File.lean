-- Loads and saves of files. A failure is not returned but reported: one error in the
-- log, with a note that names the file.
import Netlist.Document.Load
import Netlist.Document.Save
import Netlist.Files

namespace Netlist.Document

/-- Reports a failure, and what was being done. -/
def report (log : Diagnostic.Log) (e : LoadError) (note : String) : Diagnostic.Log :=
  log.emit (e.toDiagnostic.withNote note)

/-- Loads what was read at a path. -/
def loadContent (strict : Bool) (path : String) (content : Except FileError String) :
    Load (ModuleId × List Diagnostic) :=
  match content with
  | .ok text => loadText strict text
  | .error e => Edit.fail (.io path e.message)

/-- What a load leaves behind: its answer, or nothing if it failed, and the log. Warnings
are reported only if it succeeds. -/
def conclude (log : Diagnostic.Log) (path : String) :
    Except LoadError (ModuleId × List Diagnostic) → Option ModuleId × Diagnostic.Log
  | .ok (top, warnings) => (some top, log.emitAll warnings)
  | .error e => (none, report log e ("while loading " ++ path))

/-- Loads a file whose content is given. Only a stale handle stops it. -/
def loadFile (strict : Bool) (path : String) (content : Except FileError String)
    (log : Diagnostic.Log) : Load (Option ModuleId × Diagnostic.Log) := fun d =>
  match loadContent strict path content d with
  | .ok answer d => .ok (conclude log path (.ok answer)) d
  | .error (.error e) d => .ok (conclude log path (.error e)) d
  | .error .stale d => .error .stale d

/-- Reports the outcome of writing a file, and says whether it is written. -/
def concludeSave (log : Diagnostic.Log) (path : String) :
    Except FileError Unit → Bool × Diagnostic.Log
  | .ok () => (true, log)
  | .error e => (false, report log (.io path e.message) ("while saving " ++ path))

end Netlist.Document
