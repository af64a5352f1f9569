-- Building definitions. Every reference is checked as it is added, so a definition
-- never holds an instance with wrong arguments or a link to an unknown instance.
import Netlist.Design.Edit

namespace Netlist.Definition

/-! ## Instances -/

/-- Adds an instance whose arguments are already checked. -/
def insertInstance (definition : Definition) (i : Instance) :
    Edit GraphError (Definition × Instance) :=
  if i.name = Design.selfName then Edit.fail (.reservedInstanceName Design.selfWord)
  else match definition.instances.tryInsert? i.name i with
    | some instances => pure ({ definition with instances }, i)
    | none => Edit.failWith fun d => do
      return .duplicateInstance (← d.qualifiedName? (.module definition.owner)) (← d.text? i.name)

/-- Adds an instance of a module, with arguments for its parameters. -/
def addInstance (definition : Definition) (name : String) (id : ModuleId) (config : Args) :
    Edit GraphError (Definition × Instance) := do
  let target := Target.module id
  let m ← Edit.live fun d => d.modules.get? id
  let label ← Edit.live fun d => d.qualifiedName? target
  Edit.check fun d => m.params.check config label d.names
  definition.insertInstance ⟨← Edit.intern name, target, config, none, ∅⟩

/-- Adds an instance of a generator, with arguments for the generator itself and for the
module that it would produce. The generator is not run. -/
def addGeneratorInstance (definition : Definition) (name : String) (id : GeneratorId)
    (genargs config : Args) : Edit GraphError (Definition × Instance) := do
  let target := Target.generator id
  let label ← Edit.live fun d => d.qualifiedName? target
  let g ← Edit.live fun d => d.generators.get? id
  Edit.check fun d => g.genparams.check genargs label d.names
  Edit.check fun d => g.params.check config label d.names
  definition.insertInstance ⟨← Edit.intern name, target, config, some genargs, ∅⟩

/-! ## Connections -/

/-- Checks that a wire path begins at an instance, or at the module itself. -/
def checkEnd (definition : Definition) (d : Design) (p : WirePath) :
    Except (Failure GraphError) Unit :=
  match d.text? p.root with
  | none => .error .stale
  | some root =>
    if root.isEmpty then .error (.error .emptyWirePath)
    else if p.root = Design.selfName ∨ definition.instances.contains p.root then .ok ()
    else .error (.ofOption ((d.qualifiedName? (.module definition.owner)).map fun owner =>
      .unknownInstance owner root))

/-- The connections with a link between two terminals in them, and its position. A link that
is there already gets the metadata on top of its own. -/
def linked (connections : Array Connection) (a b : WirePath) (metadata : Metadata) :
    Array Connection × Nat :=
  match connections.findIdx? (·.links a b) with
  | some i =>
    (connections.modify i fun c => { c with metadata := c.metadata.extend metadata }, i)
  | none => (connections.push ⟨a, b, Metadata.extend ∅ metadata⟩, connections.size)

/-- Connects two terminals, and gives the resulting connection. Without metadata of its own a
link that is there stays as it is. -/
def connect (definition : Definition) (d : Design) (a b : WirePath) (metadata : Metadata) :
    Except (Failure GraphError) (Definition × Connection) := do
  definition.checkEnd d a
  definition.checkEnd d b
  let (connections, i) := linked definition.connections a b metadata
  return ({ definition with connections }, connections[i]?.getD ⟨a, b, metadata⟩)

end Netlist.Definition
