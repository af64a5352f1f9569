-- Parameters and arguments in documents. Parameters are `{name: kind}` and arguments
-- are `{name: value}`; a type as a value is a type node.
import Netlist.Document.TypeNode

namespace Netlist.Document

/-! ## Parameters -/

def readKind (name : String) (node : Json) : Reading ParamKind :=
  match node with
  | .string word =>
    match ParamKind.ofText? word with
    | some kind => return kind
    | none => throw (.param s!"{word} is not a valid param kind ('{name}')")
  | _ => throw (.param s!"parameter '{name}' must name a kind")

/-- Adds declarations to parameters, in the order of the members. -/
def readParamMembers (params : Params) : List (String × Json) → Load Params
  | [] => pure params
  | (name, node) :: rest => do
    let kind ← readKind name node
    let n ← Edit.intern name
    readParamMembers (params.insert n kind).2 rest

/-- Null declares nothing. -/
def readParams (node : Json) : Load Params :=
  match node with
  | .null => pure ∅
  | .object ms => readParamMembers ∅ ms
  | _ => Edit.fail (.param s!"parameter declarations must be an object, found {node.compact}")

/-- Parameters that may be left out. -/
def readParams? (ms : List (String × Json)) (key : String) : Load Params :=
  match Assoc.get? key ms with
  | some node => readParams node
  | none => pure ∅

/-! ## Arguments -/

/-- A value for a parameter of this kind, or nothing if the value has another shape. -/
def readArg (kind : ParamKind) (key what : String) (node : Json) : Load (Option Arg) :=
  match kind with
  | .int => pure (node.asInt64?.map .int)
  | .string => pure (node.asString?.map .string)
  | .type => do
    let id ← (readType node).within fun e => .arg s!"argument '{key}' for {what}: {e.message}"
    return some (.type id)

/-- Binds the parameters in their order, each to the member of its name. -/
def readBindings (ms : List (String × Json)) (what : String) (args : Args) :
    List (Name × ParamKind) → Load Args
  | [] => pure args
  | (n, kind) :: rest => do
    let key ← Edit.live fun d => d.text? n
    match Assoc.get? key ms with
    | none => Edit.fail (.arg s!"missing argument '{key}' for {what}")
    | some node =>
      match ← readArg kind key what node with
      | some a => readBindings ms what (args.insert n a).2 rest
      | none => Edit.fail (.arg
          s!"argument '{key}' for {what} must be {kind.text}, found {node.compact}")

/-- The keys that are no parameter's name, in their order. -/
def unknownKeys (d : Design) (params : Params) (ms : List (String × Json)) : List String :=
  (ms.map (·.1)).filter fun key =>
    match d.names.find? key with
    | some n => !params.contains n
    | none => true

def unknownKeyWarning (what key : String) : Diagnostic :=
  .warning .unknownConfigKey s!"ignoring argument '{key}' for {what}: no such parameter"

/-- The members of a node of arguments. Null binds nothing. -/
def argMembers (node : Json) (what : String) : Reading (List (String × Json)) :=
  match node with
  | .null => return []
  | .object ms => return ms
  | _ => throw (.arg s!"arguments of {what} must be an object, found {node.compact}")

/-- The arguments for parameters, and warnings about members that no parameter asks for.
A strict reading refuses such members. -/
def readArgs (params : Params) (node : Json) (what : String) (strict : Bool) :
    Load (Args × List Diagnostic) := do
  let ms ← argMembers node what
  let args ← readBindings ms what ∅ params.toList
  let unknown := unknownKeys (← get) params ms
  match strict, unknown with
  | true, key :: _ => Edit.fail (.arg s!"unexpected argument '{key}' for {what}")
  | _, _ => return (args, unknown.map (unknownKeyWarning what))

end Netlist.Document
