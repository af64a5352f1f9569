-- Interface types. A design stores each distinct type once, under a number, and a
-- type names its parts by their numbers; equal types are equal numbers.
import Netlist.Pool

namespace Netlist

/-- One layer of a type: its parts are numbers of other types. -/
inductive WireType where
  | any
  | bitIn
  | bitOut
  | array (element : TypeId) (length : Nat)
  | record (fields : List (Name × TypeId))
  deriving DecidableEq, Repr

namespace WireType

/-- The word by which documents call a type of this shape. -/
def kindName : WireType → String
  | any => "Any"
  | bitIn => "BitIn"
  | bitOut => "BitOut"
  | array .. => "Array"
  | record .. => "Record"

/-- A type written as a list of numbers, no two types as the same list. Types are
ordered by it. -/
def code : WireType → List Nat
  | any => [0]
  | bitIn => [1]
  | bitOut => [2]
  | array element length => [3, element.index, length]
  | record fields => 4 :: fields.flatMap fun (n, t) => [n.index, t.index]

theorem code_fields_injective : ∀ {a b : List (Name × TypeId)},
    a.flatMap (fun (n, t) => [n.index, t.index]) = b.flatMap (fun (n, t) => [n.index, t.index]) →
      a = b
  | [], [], _ => rfl
  | [], (_, _) :: _, h => by simp at h
  | (_, _) :: _, [], h => by simp at h
  | (⟨_⟩, ⟨_⟩) :: _, (⟨_⟩, ⟨_⟩) :: _, h => by
    simp only [List.flatMap_cons, List.cons_append, List.nil_append, List.cons.injEq] at h
    obtain ⟨rfl, rfl, h⟩ := h
    rw [code_fields_injective h]

theorem code_injective {a b : WireType} (h : a.code = b.code) : a = b := by
  cases a <;> cases b <;> simp_all [code]
  · rename_i e _ e' _
    cases e; cases e'; simp_all
  · exact code_fields_injective h

instance : Ord WireType := ⟨fun a b => compare a.code b.code⟩

instance : Std.TransOrd WireType where
  eq_swap := Std.OrientedOrd.eq_swap (α := List Nat)
  isLE_trans := Std.TransOrd.isLE_trans (α := List Nat)

instance : Std.LawfulEqOrd WireType where
  compare_self := Std.ReflOrd.compare_self (α := List Nat)
  eq_of_compare h := code_injective (Std.LawfulEqOrd.eq_of_compare (α := List Nat) h)

end WireType

/-- A type unfolded down to its leaves. The fields of its records are labelled, be it by names
or by their texts. -/
inductive TypeTree (κ : Type) where
  | any
  | bitIn
  | bitOut
  | array (length : Nat) (element : TypeTree κ)
  | record (fields : List (κ × TypeTree κ))
  deriving Repr, Inhabited

/-- The types of a design. The leaf types come first in it. -/
abbrev TypeTable := Pool .type WireType

namespace TypeTable

/-- The number of leaf types. -/
def leafCount : Nat := 3

def anyId : TypeId := ⟨0⟩
def bitInId : TypeId := ⟨1⟩
def bitOutId : TypeId := ⟨2⟩

/-- The table that holds the leaves only. -/
def leaves : TypeTable :=
  let leaf (t : TypeTable) (w : WireType) := (t.intern w).2
  leaf (leaf (leaf .empty .any) .bitIn) .bitOut

def array (t : TypeTable) (element : TypeId) (length : Nat) : TypeId × TypeTable :=
  t.intern (.array element length)

/-- The first element that equals an earlier one. -/
def firstRepeat {α : Type} [DecidableEq α] (l : List α) : Option α := go [] l
where
  go (seen : List α) : List α → Option α
    | [] => none
    | a :: rest => if a ∈ seen then some a else go (a :: seen) rest

theorem firstRepeat_go_eq_none_iff {α : Type} [DecidableEq α] (seen l : List α) :
    firstRepeat.go seen l = none ↔ l.Nodup ∧ ∀ a ∈ l, a ∉ seen := by
  induction l generalizing seen with
  | nil => simp [firstRepeat.go]
  | cons a rest ih =>
    rw [firstRepeat.go]
    split
    · rename_i h
      simp [h]
    · rename_i h
      rw [ih, List.nodup_cons]
      simp only [List.mem_cons, forall_eq_or_imp, not_or]
      constructor
      · rintro ⟨hn, hs⟩
        exact ⟨⟨fun ha => (hs a ha).1 rfl, hn⟩, h, fun b hb => (hs b hb).2⟩
      · rintro ⟨⟨ha, hn⟩, _, hs⟩
        exact ⟨hn, fun b hb => ⟨fun he => ha (he ▸ hb), hs b hb⟩⟩

/-- Nothing repeats exactly when all elements are different. -/
theorem firstRepeat_eq_none_iff {α : Type} [DecidableEq α] (l : List α) :
    firstRepeat l = none ↔ l.Nodup := by
  simp [firstRepeat, firstRepeat_go_eq_none_iff]

/-- The number of a record type, or the first field name that comes twice. -/
def record (t : TypeTable) (fields : List (Name × TypeId)) : Except Name (TypeId × TypeTable) :=
  match firstRepeat (fields.map (·.1)) with
  | some n => .error n
  | none => .ok (t.intern (.record fields))

/-- The leaf type that documents call by this word. -/
def leafByName : String → Option TypeId
  | "Any" => some anyId
  | "BitIn" => some bitInId
  | "BitOut" => some bitOutId
  | _ => none

/-- Keeps the first `n` types, and the leaves in any case. -/
def keep (t : TypeTable) (n : Nat) : TypeTable := t.take (max n leafCount)

theorem consistent_leaves : leaves.Consistent :=
  ((Pool.consistent_empty.intern _).intern _).intern _

/-- The leaves stand under the numbers that are kept for them. -/
theorem get?_leaves : leaves.get? anyId = some .any ∧ leaves.get? bitInId = some .bitIn ∧
    leaves.get? bitOutId = some .bitOut := by decide +kernel

end TypeTable

end Netlist
