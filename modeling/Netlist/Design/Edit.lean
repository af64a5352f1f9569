-- Steps that change a design. A step that fails still leaves a design behind: what it
-- did before it failed is not undone.
import Netlist.Design.Basic
import Netlist.GraphError

namespace Netlist

/-- A step that reads and changes a design, and gives an answer or a failure. -/
abbrev Edit (ε : Type) := EStateM (Failure ε) Design

namespace Edit

variable {ε ε' α : Type}

def fail (e : ε) : Edit ε α := throw (.error e)

/-- The answer of a reading that needs no design. -/
def ofExcept : Except ε α → Edit ε α
  | .ok a => pure a
  | .error e => fail e

instance : MonadLift (Except ε) (Edit ε) := ⟨ofExcept⟩

/-- Reads what must be there: it is stale if it is not. -/
def live (read : Design → Option α) : Edit ε α := do
  match read (← get) with
  | some a => pure a
  | none => throw .stale

/-- Takes the answer of a check that changes nothing. -/
def check (f : Design → Except (Failure ε) α) : Edit ε α := do
  match f (← get) with
  | .ok a => pure a
  | .error e => throw e

/-- Fails with an error that is put in words by the design at hand. -/
def failWith (words : Design → Option ε) : Edit ε α := do throw (.ofOption (words (← get)))

/-- A step whose errors are told as errors of another kind. -/
def within (f : ε → ε') (step : Edit ε α) : Edit ε' α := step.adaptExcept (Failure.map f)

def intern (s : String) : Edit ε Name :=
  modifyGet fun d => let (n, names) := d.names.intern s; (n, { d with names })

/-- The names of strings, from left to right. -/
def internAll : List String → Edit ε (List Name)
  | [] => pure []
  | s :: rest => do
    let n ← intern s
    return n :: (← internAll rest)

/-! ## Types -/

def array (element : TypeId) (length : Nat) : Edit ε TypeId :=
  modifyGet fun d => let (id, types) := d.types.array element length; (id, { d with types })

/-- The record type with these fields. All names are interned before they are compared. -/
def record (fields : List (String × TypeId)) : Edit GraphError TypeId := do
  let names ← internAll (fields.map (·.1))
  let d ← get
  match d.types.record (names.zip (fields.map (·.2))) with
  | .ok (id, types) => set { d with types }; return id
  | .error n => failWith fun d => (d.text? n).map .duplicateField

/-! ## Namespaces -/

/-- The namespace of this name, which is made if there is none. -/
def openNamespace (name : String) : Edit ε NamespaceId := do
  let n ← intern name
  let d ← get
  match d.scopes[n]? with
  | some id => return id
  | none =>
    let id := d.namespaces.nextId
    set { d with
      namespaces := d.namespaces.push ⟨id, n, ∅, ∅⟩
      scopes := d.scopes.insert n id }
    return id

/-! ## Declarations -/

/-- Checks that a name is still free in a namespace. -/
def requireFree (scope : NamespaceId) (n : Name) : Edit GraphError Unit := do
  let ns ← live fun d => d.namespaces.get? scope
  if ns.hasSymbol n then
    failWith fun d => do return .duplicateSymbol (← d.text? ns.name) (← d.text? n)

/-- Declares a module and registers it at once. -/
def declareModule (scope : NamespaceId) (name : String) (type : TypeId) (params : Params) :
    Edit GraphError ModuleId := do
  let n ← intern name
  requireFree scope n
  let d ← get
  let id := d.modules.nextId
  set { d with
    modules := d.modules.push ⟨id, n, scope, type, params, ∅, none⟩
    namespaces := d.namespaces.modify scope fun ns =>
      { ns with modules := (ns.modules.insert n id).2 } }
  return id

/-- Declares a generator and registers it at once. -/
def declareGenerator (scope : NamespaceId) (name : String) (genparams params : Params) :
    Edit GraphError GeneratorId := do
  let n ← intern name
  requireFree scope n
  let d ← get
  let id := d.generators.nextId
  set { d with
    generators := d.generators.push ⟨id, n, scope, genparams, params, ∅⟩
    namespaces := d.namespaces.modify scope fun ns =>
      { ns with generators := (ns.generators.insert n id).2 } }
  return id

/-- Replaces the metadata of a module. -/
def setModuleMetadata (id : ModuleId) (metadata : Metadata) : Edit ε Unit := do
  let _ ← live fun d => d.modules.get? id
  modify fun d => { d with modules := d.modules.modify id fun m => { m with metadata } }

/-- Replaces the metadata of a generator. -/
def setGeneratorMetadata (id : GeneratorId) (metadata : Metadata) : Edit ε Unit := do
  let _ ← live fun d => d.generators.get? id
  modify fun d => { d with generators := d.generators.modify id fun g => { g with metadata } }

/-! ## Symbols -/

/-- What a name in a namespace stands for. The match is exact. -/
def resolve (scope name : String) : Edit GraphError Target := do
  match ← live fun d => d.lookup? scope name with
  | some t => return t
  | none => fail (.missingSymbol scope name)

/-- The same, but it must be a module. -/
def resolveModule (scope name : String) : Edit GraphError ModuleId := do
  let t ← resolve scope name
  match t.asModule? with
  | some id => return id
  | none => failWith fun d => (d.qualifiedName? t).map fun q => .wrongTargetKind q .module

/-! ## Definitions -/

/-- Gives a finished definition to its module, which must have none yet. -/
def attach (definition : Definition) : Edit GraphError Unit := do
  let owner := definition.owner
  let m ← live fun d => d.modules.get? owner
  if m.definition.isSome then
    failWith fun d => (d.qualifiedName? (.module owner)).map fun q =>
      .definitionMismatch q "module already has a definition"
  else
    modify fun d =>
      { d with modules := d.modules.modify owner fun m => { m with definition } }

end Edit

end Netlist
