-- Type nodes. A leaf is a bare word; an array is `["Array", length, element]`, and a
-- record is `["Record", [[field, type], ...]]`.
import Netlist.Document.Shape

namespace Netlist.Document

/-! ## Reading -/

/-- The length of an array type: an integer of 32 bits. -/
def readLength (node : Json) : Reading Nat :=
  match node.asNat32? with
  | some n => return n
  | none => throw (.type s!"invalid Array length: {node.compact}")

mutual

/-- Interns every type that a node is built from, the parts before the whole. -/
def readType : Json → Load TypeId
  | .string word =>
    match TypeTable.leafByName word with
    | some id => pure id
    | none => Edit.fail (.type s!"{word} is not a type!")
  | .array (.string kind :: parts) =>
    if kind = "Array" then readArray parts
    else if kind = "Record" then readRecord parts
    else Edit.fail (.type s!"{kind} is not a type!")
  | .array _ => Edit.fail (.type "compound type node must start with a kind name")
  | node => Edit.fail (.type s!"Error parsing Type: {node.compact}")

def readArray : List Json → Load TypeId
  | [length, element] => do
    let n ← readLength length
    Edit.array (← readType element) n
  | _ => Edit.fail (.type "Array type must be [\"Array\", length, element]")

def readRecord : List Json → Load TypeId
  | [.array entries] => do
    (Edit.record (← readFields entries)).within .ofGraph
  | _ => Edit.fail (.type "Record type must be [\"Record\", [[field, type], ...]]")

def readFields : List Json → Load (List (String × TypeId))
  | [] => pure []
  | .array [.string name, node] :: rest => do
    let t ← readType node
    return (name, t) :: (← readFields rest)
  | entry :: _ => Edit.fail (.type s!"Record field must be [name, type], found {entry.compact}")

end

end Netlist.Document
