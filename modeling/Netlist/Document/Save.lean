-- Saving a design as a document. Members come in a fixed order, and those that may be
-- left out are left out when they are empty.
import Netlist.Document.Outline
import Netlist.Json.Printer

namespace Netlist

/-- An object of the members that are there. -/
def Json.objectOf (members : List (Option (String × Json))) : Json :=
  .object (members.filterMap id)

/-- A member that is left out when it is empty. -/
def Json.unlessEmpty (key : String) (empty : Bool) (v : Json) : Option (String × Json) :=
  if empty then none else some (key, v)

mutual

def TypeTree.toJson : TypeTree String → Json
  | any => .string "Any"
  | bitIn => .string "BitIn"
  | bitOut => .string "BitOut"
  | array length element => .array [.string "Array", .nat length, element.toJson]
  | record fields => .array [.string "Record", .array (TypeTree.fieldsToJson fields)]

def TypeTree.fieldsToJson : List (String × TypeTree String) → List Json
  | [] => []
  | (name, t) :: rest => .array [.string name, t.toJson] :: TypeTree.fieldsToJson rest

end

def ArgTree.toJson : ArgTree → Json
  | int i => .int i
  | string s => .string s
  | type t => t.toJson

namespace Outline

def entriesToJson {α : Type} (f : α → Json) (entries : List (String × α)) : Json :=
  .object (entries.map fun (key, a) => (key, f a))

def argsToJson (args : List (String × ArgTree)) : Json := entriesToJson ArgTree.toJson args

def paramsToJson (params : List (String × ParamKind)) : Json :=
  entriesToJson (fun kind => .string kind.text) params

def metadataMember (metadata : Metadata) : Option (String × Json) :=
  Json.unlessEmpty "metadata" metadata.isEmpty metadata.toJson

def configparamsMember (params : List (String × ParamKind)) : Option (String × Json) :=
  Json.unlessEmpty "configparams" params.isEmpty (paramsToJson params)

def Instance.toJson (i : Instance) : Json :=
  Json.objectOf [
    some ("instref", .array [.string i.target.1, .string i.target.2]),
    i.genargs.map fun args => ("genargs", argsToJson args),
    Json.unlessEmpty "config" i.config.isEmpty (argsToJson i.config),
    metadataMember i.metadata]

def Connection.toJson (c : Connection) : Json :=
  .array ([.array (c.first.map .string), .array (c.second.map .string)] ++
    if c.metadata.isEmpty then [] else [c.metadata.toJson])

def Definition.toJson (d : Definition) : Json :=
  Json.objectOf [
    Json.unlessEmpty "instances" d.instances.isEmpty (entriesToJson Instance.toJson d.instances),
    Json.unlessEmpty "connections" d.connections.isEmpty
      (.array (d.connections.map Connection.toJson)),
    Json.unlessEmpty "implementations" d.implementations.isEmpty d.implementations.toJson,
    metadataMember d.metadata]

def Module.toJson (m : Module) : Json :=
  Json.objectOf [
    some ("type", m.type.toJson),
    configparamsMember m.params,
    metadataMember m.metadata,
    m.definition.map fun d => ("def", d.toJson)]

def Generator.toJson (g : Generator) : Json :=
  Json.objectOf [
    some ("genparams", paramsToJson g.genparams),
    configparamsMember g.params,
    metadataMember g.metadata]

def Namespace.toJson (ns : Namespace) : Json :=
  Json.objectOf [
    Json.unlessEmpty "modules" ns.modules.isEmpty (entriesToJson Module.toJson ns.modules),
    Json.unlessEmpty "generators" ns.generators.isEmpty
      (entriesToJson Generator.toJson ns.generators)]

def toJson (o : Outline) : Json :=
  .object [
    ("top", .array [.string o.top.1, .string o.top.2]),
    ("namespaces", entriesToJson Namespace.toJson o.namespaces)]

end Outline

namespace Design

/-- The type node of a type. -/
def typeNode? (d : Design) (id : TypeId) : Option Json := (d.typeTree? id).map TypeTree.toJson

def paramsNode? (d : Design) (params : Params) : Option Json :=
  (d.outlineParams? params).map Outline.paramsToJson

def argsNode? (d : Design) (args : Args) : Option Json :=
  (d.outlineArgs? args).map Outline.argsToJson

/-- The document of the whole design with a module as its top. -/
def document? (d : Design) (top : ModuleId) : Option Json := (d.outline? top).map Outline.toJson

/-- The text of a document ends with a line break. -/
def documentText (indent : Nat) (doc : Json) : String := doc.render indent ++ "\n"

/-- The text of the document of a design. -/
def save? (d : Design) (top : ModuleId) (indent : Nat) : Option String :=
  (d.document? top).map (documentText indent)

end Design

end Netlist
