-- A design: namespaces with their modules and generators, the types and the names.
-- Everything is kept in tables and named by its position there.
import Netlist.Definition.Basic
import Netlist.WireType

namespace Netlist

/-- A named circuit unit with an interface type. Without a definition it is only
declared. -/
structure Module where
  id : ModuleId
  name : Name
  scope : NamespaceId
  type : TypeId
  params : Params
  metadata : Metadata
  definition : Option Definition

/-- A producer of modules. It is declared and named by instances, but never run. -/
structure Generator where
  id : GeneratorId
  name : Name
  scope : NamespaceId
  genparams : Params
  params : Params
  metadata : Metadata

/-- Modules and generators by name. A name stands for one of them at most. -/
structure Namespace where
  id : NamespaceId
  name : Name
  modules : NameMap ModuleId
  generators : NameMap GeneratorId

namespace Namespace

/-- What a name stands for here. -/
def symbol? (ns : Namespace) (n : Name) : Option Target :=
  match ns.modules.get? n with
  | some id => some (.module id)
  | none => (ns.generators.get? n).map .generator

def hasSymbol (ns : Namespace) (n : Name) : Bool :=
  ns.modules.contains n || ns.generators.contains n

end Namespace

/-- Everything that was declared, and the names and types that it is made of. -/
structure Design where
  names : NameTable
  types : TypeTable
  namespaces : Table .scope Namespace
  scopes : Std.ExtTreeMap Name NamespaceId
  modules : Table .module Module
  generators : Table .generator Generator

namespace Design

/-- The word at the root of the wire paths that lead to the module's own interface. -/
def selfWord : String := "self"

/-- Every design begins by giving the word `self` its name. -/
def selfName : Name := ⟨0⟩

/-- A design with nothing in it but the leaf types. -/
def empty : Design :=
  { names := (Pool.empty.intern selfWord).2
    types := .leaves
    namespaces := .empty
    scopes := ∅
    modules := .empty
    generators := .empty }

instance : Inhabited Design := ⟨empty⟩

/-! ## Asking -/

def text? (d : Design) (n : Name) : Option String := d.names.text? n

def namespaceId? (d : Design) (name : String) : Option NamespaceId :=
  (d.names.find? name).bind fun n => d.scopes[n]?

/-- The namespace that lists a module or generator, and its name there. -/
def placeOf? (d : Design) : Target → Option (NamespaceId × Name)
  | .module id => (d.modules.get? id).map fun m => (m.scope, m.name)
  | .generator id => (d.generators.get? id).map fun g => (g.scope, g.name)

/-- The names by which a module or generator goes: that of its namespace, and its own. -/
def symbolOf? (d : Design) (t : Target) : Option (Name × Name) := do
  let (scope, name) ← d.placeOf? t
  return ((← d.namespaces.get? scope).name, name)

/-- The same in text. -/
def symbolText? (d : Design) (t : Target) : Option (String × String) := do
  let (scope, name) ← d.symbolOf? t
  return (← d.text? scope, ← d.text? name)

def qualifiedName? (d : Design) (t : Target) : Option String := do
  let (scope, name) ← d.symbolText? t
  return scope ++ "." ++ name

/-- The parameters that an instance of the target must bind. -/
def configParams? (d : Design) : Target → Option Params
  | .module id => (d.modules.get? id).map (·.params)
  | .generator id => (d.generators.get? id).map (·.params)

/-- What a name in a namespace stands for, if both are known. There is no answer at all if
the namespace is known but its table does not reach to it. -/
def lookup? (d : Design) (scope name : String) : Option (Option Target) :=
  match d.namespaceId? scope, d.names.find? name with
  | some id, some n => (d.namespaces.get? id).map fun ns => ns.symbol? n
  | _, _ => some none

/-- The number of generators that the namespaces hold. -/
def generatorCount (d : Design) : Nat :=
  d.namespaces.toList.foldl (fun n ns => n + ns.generators.size) 0

end Design

end Netlist
