-- Definitions of modules: instances and the connections between them.
import Netlist.Metadata
import Netlist.Parameter

namespace Netlist

/-- The two things that an instance can stand for. -/
inductive TargetKind where
  | module
  | generator
  deriving DecidableEq, Repr

def TargetKind.text : TargetKind → String
  | module => "module"
  | generator => "generator"

/-- The module or generator that an instance stands for. -/
inductive Target where
  | module (id : ModuleId)
  | generator (id : GeneratorId)
  deriving DecidableEq, Repr

def Target.kind : Target → TargetKind
  | module _ => .module
  | generator _ => .generator

def Target.asModule? : Target → Option ModuleId
  | module id => some id
  | generator _ => none

/-- A terminal of an instance: the instance, and the selectors that lead to a part of its
interface, the outermost first. -/
structure WirePath where
  root : Name
  selectors : List Name
  deriving DecidableEq, Repr, Inhabited

/-- A link between two terminals. Its ends have an order, but which end comes first makes no
other link. -/
structure Connection where
  first : WirePath
  second : WirePath
  metadata : Metadata
  deriving Repr, Inhabited

/-- Whether the connection is between these two terminals, in either order. -/
def Connection.links (c : Connection) (a b : WirePath) : Bool :=
  c.first == a && c.second == b || c.first == b && c.second == a

/-- A use of a module or generator under a name of its own. Only instances of generators
bind generator arguments. -/
structure Instance where
  name : Name
  target : Target
  config : Args
  genargs : Option Args
  metadata : Metadata

/-- The body of a module. -/
structure Definition where
  owner : ModuleId
  instances : NameMap Instance
  connections : Array Connection
  implementations : Metadata
  metadata : Metadata

namespace Definition

def empty (owner : ModuleId) : Definition := ⟨owner, ∅, #[], ∅, ∅⟩

/-- Replaces the metadata of an instance. -/
def annotate (d : Definition) (name : Name) (metadata : Metadata) : Definition :=
  { d with instances := d.instances.modify name fun i => { i with metadata } }

end Definition

/-! ## Equality -/

def Connection.same (c k : Connection) : Bool :=
  c.first == k.first && c.second == k.second && c.metadata.same k.metadata

def Instance.same (i j : Instance) : Bool :=
  i.name == j.name && i.target == j.target && Args.same i.config j.config &&
    (match i.genargs, j.genargs with
      | none, none => true
      | some a, some b => Args.same a b
      | _, _ => false) && i.metadata.same j.metadata

/-- Whether two definitions are equal up to the order of members in their metadata. -/
def Definition.same (d k : Definition) : Bool :=
  d.owner == k.owner && NameMap.agree Instance.same d.instances k.instances &&
    d.connections.size == k.connections.size &&
    (d.connections.toList.zip k.connections.toList).all (fun (c, l) => c.same l) &&
    d.implementations.same k.implementations && d.metadata.same k.metadata

end Netlist
