-- TOML values, and how the lines of a TOML text make a table. A line opens a table or
-- gives a key a value; nothing may be defined twice.
import Netlist.Json.Basic

namespace Netlist.Toml

/-- A value. Numbers that are not integers, and times, are kept as text. -/
inductive Value where
  | bool (b : Bool)
  | int (i : Int)
  | float (text : String)
  | datetime (text : String)
  | string (s : String)
  | array (items : List Value)
  | table (entries : List (String × Value))
  deriving Repr, Inhabited

/-- A key of one or more parts. -/
abbrev Path := List String

/-- A line: the header of a table, the header of one more item of a list, or a key with its
value. -/
inductive Statement where
  | openTable (path : Path)
  | openItem (path : Path)
  | assign (path : Path) (v : Value)
  deriving Repr

/-- What is wrong with a text that is not TOML. -/
inductive Error where
  | malformed
  | definedTwice (key : String)
  deriving DecidableEq, Repr

def Error.message : Error → String
  | malformed => "invalid TOML"
  | definedTwice key => s!"{key} is defined twice"

/-- How a table came to be: by a header of its own, on the way to another header, or
under a dotted key. -/
inductive Origin where
  | header
  | way
  | dotted
  deriving DecidableEq, Repr

/-- What stands under a key while the lines are read. -/
inductive Node where
  | value (v : Value)
  | table (origin : Origin) (entries : List (String × Node))
  /-- The tables of a list, the last one first. -/
  | tables (items : List (List (String × Node)))
  deriving Repr, Inhabited

abbrev Entries := List (String × Node)

/-- Changes the table at the end of a way of headers. The tables on it are made if they
are not there, and of a list of tables the last one is meant. -/
def along (change : Entries → Except Error Entries) : Path → Entries → Except Error Entries
  | [], es => change es
  | k :: rest, es =>
    match Assoc.get? k es with
    | none => do return Assoc.set k (.table .way (← along change rest [])) es
    | some (.table origin inner) => do
      return Assoc.set k (.table origin (← along change rest inner)) es
    | some (.tables (last :: before)) => do
      return Assoc.set k (.tables ((← along change rest last) :: before)) es
    | some _ => .error (.definedTwice k)

/-- Opens a table at a key. A table that was only on the way to another may be opened. -/
def openAt (k : String) (es : Entries) : Except Error Entries :=
  match Assoc.get? k es with
  | none => .ok (Assoc.set k (.table .header []) es)
  | some (.table .way inner) => .ok (Assoc.set k (.table .header inner) es)
  | some _ => .error (.definedTwice k)

/-- Adds a table to the list of tables at a key. -/
def openItemAt (k : String) (es : Entries) : Except Error Entries :=
  match Assoc.get? k es with
  | none => .ok (Assoc.set k (.tables [[]]) es)
  | some (.tables items) => .ok (Assoc.set k (.tables ([] :: items)) es)
  | some _ => .error (.definedTwice k)

/-- Gives a dotted key a value. The table that it leads to must be made by dotted keys
only, and `takes` says whether this one may take a value. -/
def assignAt (v : Value) (takes : Bool) : Path → Entries → Except Error Entries
  | [], _ => .error .malformed
  | [k], es =>
    if takes && (Assoc.get? k es).isNone then .ok (Assoc.set k (.value v) es)
    else .error (.definedTwice k)
  | k :: rest, es =>
    match Assoc.get? k es with
    | none => do return Assoc.set k (.table .dotted (← assignAt v true rest [])) es
    | some (.table .header _) => .error (.definedTwice k)
    | some (.table origin inner) => do
      return Assoc.set k (.table origin (← assignAt v (origin == .dotted) rest inner)) es
    | some (.tables (last :: before)) => do
      return Assoc.set k (.tables ((← assignAt v false rest last) :: before)) es
    | some _ => .error (.definedTwice k)

/-- One line: the table that is open after it, and all entries. -/
def execute (state : Path × Entries) (s : Statement) : Except Error (Path × Entries) :=
  let (current, es) := state
  let last (path : Path) := path.getLast?.getD ""
  match s with
  | .openTable path => do return (path, ← along (openAt (last path)) path.dropLast es)
  | .openItem path => do return (path, ← along (openItemAt (last path)) path.dropLast es)
  | .assign path v => do return (current, ← along (assignAt v true path) current es)

mutual

def Node.toValue : Node → Value
  | value v => v
  | table _ entries => .table (Node.entriesToValues entries)
  | tables items => .array (Node.itemsToValues items).reverse

def Node.entriesToValues : List (String × Node) → List (String × Value)
  | [] => []
  | (k, n) :: rest => (k, n.toValue) :: Node.entriesToValues rest

def Node.itemsToValues : List (List (String × Node)) → List Value
  | [] => []
  | entries :: rest => .table (Node.entriesToValues entries) :: Node.itemsToValues rest

end

/-- The table that the lines of a text make. -/
def build (statements : List Statement) : Except Error Value := do
  let (_, es) ← statements.foldlM execute ([], [])
  return .table (Node.entriesToValues es)

/-- The table of an inline table's members, which are assignments only. -/
def buildInline (members : List (Path × Value)) : Except Error Value :=
  build (members.map fun (path, v) => .assign path v)

end Netlist.Toml
