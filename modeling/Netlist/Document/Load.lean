-- Loading a document into a design. The first pass declares everything that the
-- document names, the second one builds the definitions, so an instance may stand for a
-- module that is declared later. Definitions are attached when all of them are built,
-- and a load that fails takes back what it declared.
import Netlist.Definition.Build
import Netlist.Design.Snapshot
import Netlist.Document.Bindings
import Netlist.Json.Reader

namespace Netlist.Document

/-! ## Declarations -/

/-- A declared module whose definition is still to be read. -/
structure Undefined where
  id : ModuleId
  node : Json

/-- Declares one module. Its definition is left for later. -/
def declareModule (scope : NamespaceId) (scopeName name : String) (node : Json) :
    Load (List Undefined) := do
  let what := s!"module {scopeName}.{name}"
  let ms ← members node what
  let type ← readType (← required ms "type" what)
  let params ← readParams? ms "configparams"
  let id ← (Edit.declareModule scope name type params).within .ofGraph
  Edit.setModuleMetadata id (← readMetadata? ms "metadata" what)
  return ((optional ms "def").map (Undefined.mk id)).toList

def declareModules (scope : NamespaceId) (scopeName : String) :
    List (String × Json) → Load (List Undefined)
  | [] => pure []
  | (name, node) :: rest => do
    let first ← declareModule scope scopeName name node
    return first ++ (← declareModules scope scopeName rest)

def declareGenerator (scope : NamespaceId) (scopeName name : String) (node : Json) :
    Load Unit := do
  let what := s!"generator {scopeName}.{name}"
  let ms ← members node what
  let genparams ← readParams? ms "genparams"
  let params ← readParams? ms "configparams"
  let id ← (Edit.declareGenerator scope name genparams params).within .ofGraph
  Edit.setGeneratorMetadata id (← readMetadata? ms "metadata" what)

def declareGenerators (scope : NamespaceId) (scopeName : String) :
    List (String × Json) → Load Unit
  | [] => pure ()
  | (name, node) :: rest => do
    declareGenerator scope scopeName name node
    declareGenerators scope scopeName rest

/-- Declares the modules of a namespace, if it lists any. -/
def declareModulesOf (scope : NamespaceId) (name : String) (ms : List (String × Json)) :
    Load (List Undefined) :=
  match optional ms "modules" with
  | some modules => do declareModules scope name (← members modules s!"modules of {name}")
  | none => pure []

/-- Declares the generators of a namespace, if it lists any. -/
def declareGeneratorsOf (scope : NamespaceId) (name : String) (ms : List (String × Json)) :
    Load Unit :=
  match optional ms "generators" with
  | some generators => do
    declareGenerators scope name (← members generators s!"generators of {name}")
  | none => pure ()

/-- Declares what a namespace holds. A null namespace is only made. -/
def declareNamespace (name : String) (node : Json) : Load (List Undefined) := do
  let scope ← Edit.openNamespace name
  if node.isNull then return []
  else
    let ms ← members node s!"namespace {name}"
    let undefined ← declareModulesOf scope name ms
    declareGeneratorsOf scope name ms
    return undefined

def declareNamespaces : List (String × Json) → Load (List Undefined)
  | [] => pure []
  | (name, node) :: rest => do
    let first ← declareNamespace name node
    return first ++ (← declareNamespaces rest)

/-! ## Instances -/

/-- The module that an instance of a document may stand for. Instances of generators are
not read. -/
def instanceModule (target : Target) (genargs : Bool) (what label : String) : Reading ModuleId :=
  match target, genargs with
  | .module id, false => return id
  | .module _, true =>
    throw (.structural s!"{what} has genargs but {label} is a module")
  | .generator _, true =>
    throw (.notImplemented s!"generator instances ({what} instantiates {label})")
  | .generator _, false =>
    throw (.structural s!"{what} instantiates generator {label} without genargs")

def readInstance (strict : Bool) (owner : String) (definition : Definition) (name : String)
    (node : Json) : Load (Definition × List Diagnostic) := do
  let what := s!"instance {name} in {owner}"
  let ms ← members node what
  let (scope, ref) ← symbolPair (← required ms "instref" what) s!"instref of {what}"
  let target ← (Edit.resolve scope ref).within .ofGraph
  let params ← Edit.live fun d => d.configParams? target
  let (config, warnings) ←
    readArgs params ((Assoc.get? "config" ms).getD .null) what strict
  let id ← instanceModule target (Assoc.get? "genargs" ms).isSome what (scope ++ "." ++ ref)
  let (definition, i) ← (definition.addInstance name id config).within .ofGraph
  let metadata ← readMetadata? ms "metadata" what
  return (definition.annotate i.name metadata, warnings)

def readInstances (strict : Bool) (owner : String) (definition : Definition) :
    List (String × Json) → Load (Definition × List Diagnostic)
  | [] => pure (definition, [])
  | (name, node) :: rest => do
    let (definition, warnings) ← readInstance strict owner definition name node
    let (definition, more) ← readInstances strict owner definition rest
    return (definition, warnings ++ more)

/-! ## Connections -/

/-- The names of the words of a path, up to the first node that is not a word. -/
def readWords (malformed : LoadError) : List Json → Load (List Name)
  | [] => pure []
  | .string word :: rest => do
    let n ← Edit.intern word
    return n :: (← readWords malformed rest)
  | _ :: _ => Edit.fail malformed

def readWirePath (node : Json) (what : String) : Load WirePath := do
  let malformed := LoadError.structural
    s!"wire path in {what} must be a non-empty array of strings, found {node.compact}"
  match node with
  | .array words =>
    match ← readWords malformed words with
    | root :: selectors => return ⟨root, selectors⟩
    | [] => Edit.fail malformed
  | _ => Edit.fail malformed

/-- The ends of a connection, and the node of its metadata, which is null if there is none. -/
def connectionParts (node : Json) (what : String) : Reading (Json × Json × Json) := do
  match ← items node what with
  | [first, second] => return (first, second, .null)
  | [first, second, metadata] => return (first, second, metadata)
  | _ => throw (.structural s!"{what} must be [path, path] or [path, path, metadata]")

def readConnection (owner : String) (definition : Definition) (node : Json) :
    Load Definition := do
  let what := s!"connection in {owner}"
  let (first, second, metadata) ← connectionParts node what
  let first ← readWirePath first what
  let second ← readWirePath second what
  let metadata ← readMetadata metadata what
  let (definition, _) ←
    (Edit.check fun d => definition.connect d first second metadata).within .ofGraph
  return definition

def readConnections (owner : String) (definition : Definition) : List Json → Load Definition
  | [] => pure definition
  | node :: rest => do readConnections owner (← readConnection owner definition node) rest

/-! ## Definitions -/

/-- The definition with the instances that are listed, if any are. -/
def readInstancesOf (strict : Bool) (owner : String) (id : ModuleId)
    (ms : List (String × Json)) : Load (Definition × List Diagnostic) :=
  match optional ms "instances" with
  | some node => do
    readInstances strict owner (.empty id) (← members node s!"instances of {owner}")
  | none => pure (.empty id, [])

/-- The definition with the connections that are listed, if any are. -/
def readConnectionsOf (owner : String) (definition : Definition) (ms : List (String × Json)) :
    Load Definition :=
  match optional ms "connections" with
  | some node => do
    readConnections owner definition (← items node s!"connections of {owner}")
  | none => pure definition

def readDefinition (strict : Bool) (u : Undefined) : Load (Definition × List Diagnostic) := do
  let owner ← Edit.live fun d => d.qualifiedName? (.module u.id)
  let ms ← members u.node s!"definition of {owner}"
  let (definition, warnings) ← readInstancesOf strict owner u.id ms
  let definition ← readConnectionsOf owner definition ms
  let implementations ← readMetadata? ms "implementations" s!"implementations of {owner}"
  let metadata ← readMetadata? ms "metadata" s!"definition of {owner}"
  return ({ definition with implementations, metadata }, warnings)

def readDefinitions (strict : Bool) : List Undefined → Load (List Definition × List Diagnostic)
  | [] => pure ([], [])
  | u :: rest => do
    let (definition, warnings) ← readDefinition strict u
    let (definitions, more) ← readDefinitions strict rest
    return (definition :: definitions, warnings ++ more)

def attachAll : List Definition → Load Unit
  | [] => pure ()
  | definition :: rest => do
    (Edit.attach definition).within .ofGraph
    attachAll rest

/-! ## The document -/

/-- Reads a document up to the end or the first error, and gives the top module and the
warnings. -/
def read (strict : Bool) (doc : Json) : Load (ModuleId × List Diagnostic) := do
  let ms ← members doc "document"
  let (scope, name) ← symbolPair (← required ms "top" "document") (quoted "top")
  let namespaces ← members (← required ms "namespaces" "document") (quoted "namespaces")
  let undefined ← declareNamespaces namespaces
  let (definitions, warnings) ← readDefinitions strict undefined
  let top ← (Edit.resolveModule scope name).within .ofGraph
  attachAll definitions
  return (top, warnings)

/-- Reads a document, and takes back what was read if there is an error in it. -/
def load (strict : Bool) (doc : Json) : Load (ModuleId × List Diagnostic) := fun d =>
  match read strict doc d with
  | .error (.error e) left => .error (.error e) (left.restore d.snapshot)
  | result => result

/-- Loads a document, and reports its warnings in the log if there is no error in it. -/
def loadReporting (strict : Bool) (doc : Json) :
    EStateM (Failure LoadError) (Design × Diagnostic.Log) ModuleId := fun (d, log) =>
  match load strict doc d with
  | .ok (top, warnings) d => .ok top (d, log.emitAll warnings)
  | .error e d => .error e (d, log)

/-- Loads the document that a text holds. -/
def loadText (strict : Bool) (text : String) : Load (ModuleId × List Diagnostic) :=
  match Json.parse text with
  | .ok doc => load strict doc
  | .error e => Edit.fail (.badJson e.message)

end Netlist.Document
