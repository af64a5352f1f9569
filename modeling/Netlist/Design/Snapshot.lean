-- Restore points. A snapshot records how far each table of a design reached, and a
-- restore cuts the tables back to there. Names are kept, and so is the metadata of what
-- was there before.
import Netlist.Design.Basic

namespace Netlist

/-- The extent of a design. -/
structure Snapshot where
  types : Nat
  namespaces : Nat
  modules : Nat
  generators : Nat
  /-- For each namespace, its numbers of modules and of generators. -/
  symbols : Array (Nat × Nat)
  /-- For each module, whether it had a definition. -/
  defined : Array Bool
  deriving Repr, Inhabited

namespace Design

def snapshot (d : Design) : Snapshot :=
  { types := d.types.size
    namespaces := d.namespaces.size
    modules := d.modules.size
    generators := d.generators.size
    symbols := d.namespaces.items.map fun ns => (ns.modules.size, ns.generators.size)
    defined := d.modules.items.map fun m => m.definition.isSome }

/-- Cuts a namespace back to the symbols that it had. -/
def restoreNamespace (s : Snapshot) (i : Nat) (ns : Namespace) : Namespace :=
  match s.symbols[i]? with
  | some (modules, generators) =>
    { ns with modules := ns.modules.take modules, generators := ns.generators.take generators }
  | none => ns

/-- Takes the definition away from a module that had none. -/
def restoreModule (s : Snapshot) (i : Nat) (m : Module) : Module :=
  if s.defined[i]? = some false then { m with definition := none } else m

def restore (d : Design) (s : Snapshot) : Design :=
  { d with
    types := d.types.keep s.types
    modules := (d.modules.take s.modules).mapWithIndex (restoreModule s)
    generators := d.generators.take s.generators
    namespaces := (d.namespaces.take s.namespaces).mapWithIndex (restoreNamespace s)
    scopes := d.scopes.filter fun _ id => id.index < s.namespaces }

end Design

end Netlist
