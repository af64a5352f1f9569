-- The outline of a design: what a document says about it, without any handles. Names
-- are texts, types are trees, and instances point to their targets by name. Two designs
-- with the same outline differ in their numbering at most.
import Netlist.Design.Basic

namespace Netlist

/-- An argument whose type is unfolded. -/
inductive ArgTree where
  | int (i : Int)
  | string (s : String)
  | type (t : TypeTree String)
  deriving Repr

namespace Outline

/-- An instance, its target given by namespace and name. -/
structure Instance where
  kind : TargetKind
  target : String × String
  genargs : Option (List (String × ArgTree))
  config : List (String × ArgTree)
  metadata : Metadata
  deriving Repr

/-- A connection, each end given by the words of its path. -/
structure Connection where
  first : List String
  second : List String
  metadata : Metadata
  deriving Repr

/-- A definition with its instances by name. -/
structure Definition where
  instances : List (String × Instance)
  connections : List Connection
  implementations : Metadata
  metadata : Metadata
  deriving Repr

/-- A module without its name, under which its namespace lists it. -/
structure Module where
  type : TypeTree String
  params : List (String × ParamKind)
  metadata : Metadata
  definition : Option Definition
  deriving Repr

/-- A generator without its name, under which its namespace lists it. -/
structure Generator where
  genparams : List (String × ParamKind)
  params : List (String × ParamKind)
  metadata : Metadata
  deriving Repr

/-- A namespace without its name, under which the outline lists it. -/
structure Namespace where
  modules : List (String × Module)
  generators : List (String × Generator)
  deriving Repr

end Outline

/-- Everything in a design, and the module that is its top. -/
structure Outline where
  top : String × String
  namespaces : List (String × Outline.Namespace)
  deriving Repr

/-! ## The outline of a design -/

namespace Design

/-- Unfolds a type. A chain of types that is longer than the fuel is not unfolded. -/
def treeWithin? (d : Design) : Nat → TypeId → Option (TypeTree String)
  | 0, _ => none
  | fuel + 1, id => do
    match ← d.types.get? id with
    | .any => return .any
    | .bitIn => return .bitIn
    | .bitOut => return .bitOut
    | .array element length => return .array length (← d.treeWithin? fuel element)
    | .record fields =>
      return .record (← fields.mapM fun (n, t) => do
        return (← d.text? n, ← d.treeWithin? fuel t))

/-- The tree of a type. No chain of different types is longer than the table. -/
def typeTree? (d : Design) (id : TypeId) : Option (TypeTree String) := d.treeWithin? d.types.size id

def argTree? (d : Design) : Arg → Option ArgTree
  | .int i => some (.int i)
  | .string s => some (.string s)
  | .type id => (d.typeTree? id).map .type

/-- Entries by text, each value outlined. -/
def outlineEntries? {α β : Type} (d : Design) (f : α → Option β) (entries : List (Name × α)) :
    Option (List (String × β)) :=
  entries.mapM fun (n, a) => do return (← d.text? n, ← f a)

def outlineArgs? (d : Design) (args : Args) : Option (List (String × ArgTree)) :=
  d.outlineEntries? d.argTree? args.toList

def outlineParams? (d : Design) (params : Params) : Option (List (String × ParamKind)) :=
  d.outlineEntries? some params.toList

def outlineGenargs? (d : Design) : Option Args → Option (Option (List (String × ArgTree)))
  | some args => (d.outlineArgs? args).map some
  | none => some none

def outlineInstance? (d : Design) (i : Instance) : Option Outline.Instance := do
  let target ← d.symbolText? i.target
  let genargs ← d.outlineGenargs? i.genargs
  return ⟨i.target.kind, target, genargs, ← d.outlineArgs? i.config, i.metadata⟩

def outlinePath? (d : Design) (p : WirePath) : Option (List String) :=
  (p.root :: p.selectors).mapM d.text?

def outlineConnection? (d : Design) (c : Connection) : Option Outline.Connection := do
  return ⟨← d.outlinePath? c.first, ← d.outlinePath? c.second, c.metadata⟩

def outlineDefinition? (d : Design) (definition : Definition) : Option Outline.Definition := do
  let instances ← definition.instances.values.mapM fun i => do
    return (← d.text? i.name, ← d.outlineInstance? i)
  let connections ← definition.connections.toList.mapM d.outlineConnection?
  return ⟨instances, connections, definition.implementations, definition.metadata⟩

def outlineBody? (d : Design) : Option Definition → Option (Option Outline.Definition)
  | some definition => (d.outlineDefinition? definition).map some
  | none => some none

def outlineModule? (d : Design) (id : ModuleId) : Option Outline.Module := do
  let m ← d.modules.get? id
  let type ← d.typeTree? m.type
  let params ← d.outlineParams? m.params
  return ⟨type, params, m.metadata, ← d.outlineBody? m.definition⟩

def outlineGenerator? (d : Design) (id : GeneratorId) : Option Outline.Generator := do
  let g ← d.generators.get? id
  return ⟨← d.outlineParams? g.genparams, ← d.outlineParams? g.params, g.metadata⟩

def outlineNamespace? (d : Design) (ns : Namespace) : Option Outline.Namespace := do
  let modules ← d.outlineEntries? d.outlineModule? ns.modules.toList
  let generators ← d.outlineEntries? d.outlineGenerator? ns.generators.toList
  return ⟨modules, generators⟩

/-- The outlines of all namespaces, unless a handle in them stands for nothing. -/
def outlineNamespaces? (d : Design) : Option (List (String × Outline.Namespace)) :=
  d.namespaces.toList.mapM fun ns => do return (← d.text? ns.name, ← d.outlineNamespace? ns)

/-- The outline of the design with a module as its top. -/
def outline? (d : Design) (top : ModuleId) : Option Outline := do
  let target ← d.symbolText? (.module top)
  return ⟨target, ← d.outlineNamespaces?⟩

end Design

end Netlist
