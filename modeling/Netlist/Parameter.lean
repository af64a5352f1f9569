-- Parameters, which a module or generator declares, and the arguments that an
-- instance binds to them.
import Netlist.NameMap

namespace Netlist

/-- The kind of a parameter. -/
inductive ParamKind where
  | int
  | string
  | type
  deriving DecidableEq, Repr

namespace ParamKind

/-- The word by which documents call the kind. -/
def text : ParamKind → String
  | int => "Int"
  | string => "String"
  | type => "Type"

def ofText? : String → Option ParamKind
  | "Int" => some int
  | "String" => some string
  | "Type" => some type
  | _ => none

theorem ofText?_eq_some_iff {s : String} {k : ParamKind} : ofText? s = some k ↔ s = k.text := by
  constructor
  · unfold ofText?
    split <;> rintro ⟨⟩ <;> rfl
  · rintro rfl
    cases k <;> rfl

end ParamKind

/-- A value bound to a parameter. -/
inductive Arg where
  | int (i : Int)
  | string (s : String)
  | type (id : TypeId)
  deriving DecidableEq, Repr

def Arg.kind : Arg → ParamKind
  | int _ => .int
  | string _ => .string
  | type _ => .type

/-- The kind of each parameter, in the order of their declaration. -/
abbrev Params := NameMap ParamKind

/-- The value of each argument, in the order of their binding. -/
abbrev Args := NameMap Arg

def Args.same (a b : Args) : Bool := NameMap.agree (· == ·) a b

namespace Params

/-- What is wrong with a set of arguments. -/
inductive Mismatch where
  | missing (n : Name)
  | wrongKind (n : Name) (expected found : ParamKind)
  | unexpected (n : Name)
  deriving DecidableEq, Repr

/-- The first parameter that has no argument, or one of another kind. -/
def unmet? (args : Args) : List (Name × ParamKind) → Option Mismatch
  | [] => none
  | (n, kind) :: rest =>
    match args.get? n with
    | none => some (.missing n)
    | some a => if a.kind = kind then unmet? args rest else some (.wrongKind n kind a.kind)

/-- The first argument that no parameter asks for. -/
def undeclared? (params : Params) (args : Args) : Option Mismatch :=
  (args.names.find? fun n => !params.contains n).map .unexpected

/-- What is wrong with the arguments, parameters first. Nothing is wrong if every
parameter has an argument of its kind and there is no other argument. -/
def mismatch? (params : Params) (args : Args) : Option Mismatch :=
  (unmet? args params.toList).or (undeclared? params args)

end Params

end Netlist
