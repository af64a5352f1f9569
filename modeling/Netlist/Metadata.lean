-- Metadata: annotations that a design carries along without reading them.
import Netlist.Json.Basic

namespace Netlist

/-- JSON values by key, in the order in which the keys came. -/
structure Metadata where
  entries : List (String × Json)
  deriving Repr, Inhabited

namespace Metadata

def empty : Metadata := ⟨[]⟩

instance : EmptyCollection Metadata := ⟨empty⟩

def isEmpty (m : Metadata) : Bool := m.entries.isEmpty

def size (m : Metadata) : Nat := m.entries.length

def get? (m : Metadata) (key : String) : Option Json := Assoc.get? key m.entries

/-- Sets a key, and says which value it had. -/
def insert (m : Metadata) (key : String) (v : Json) : Option Json × Metadata :=
  (m.get? key, ⟨Assoc.set key v m.entries⟩)

/-- Sets every key of the other one. A key that is there keeps its position. -/
def extend (m other : Metadata) : Metadata := ⟨Assoc.setAll m.entries other.entries⟩

def toJson (m : Metadata) : Json := .object m.entries

/-- Whether the same keys have equal values, in any order. -/
def same (m k : Metadata) : Bool := m.toJson.same k.toJson

end Metadata

end Netlist
