-- Shapes of document nodes. Each reader is told what the node is, so that its error
-- says which part of the document is wrong.
import Netlist.Design.Edit
import Netlist.Document.Error
import Netlist.Json.Printer

namespace Netlist.Document

/-- A step of reading a document into a design. -/
abbrev Load := Edit LoadError

/-- What a node says by itself, without any design. -/
abbrev Reading := Except LoadError

/-- A text with quotes around it. -/
def quoted (s : String) : String := "\"" ++ s ++ "\""

def members (node : Json) (what : String) : Reading (List (String × Json)) :=
  match node.asObject? with
  | some ms => return ms
  | none => throw (.structural s!"{what} must be an object")

def items (node : Json) (what : String) : Reading (List Json) :=
  match node.asArray? with
  | some vs => return vs
  | none => throw (.structural s!"{what} must be an array")

/-- A member that must be there. -/
def required (ms : List (String × Json)) (key what : String) : Reading Json :=
  match Assoc.get? key ms with
  | some v => return v
  | none => throw (.structural s!"{what} is missing {quoted key}")

/-- A member that may be absent; to be null is the same. -/
def optional (ms : List (String × Json)) (key : String) : Option Json :=
  (Assoc.get? key ms).filter fun v => !v.isNull

/-- The namespace and the name of a module or generator. -/
def symbolPair (node : Json) (what : String) : Reading (String × String) :=
  match node with
  | .array [.string scope, .string name] => return (scope, name)
  | _ => throw (.structural s!"{what} must be [namespace, name]")

/-- Metadata: an object, or null for none. -/
def readMetadata (node : Json) (what : String) : Reading Metadata :=
  if node.isNull then return ∅ else return ⟨← members node what⟩

/-- Metadata that may be left out. -/
def readMetadata? (ms : List (String × Json)) (key what : String) : Reading Metadata :=
  match Assoc.get? key ms with
  | some node => readMetadata node what
  | none => return ∅

end Netlist.Document
