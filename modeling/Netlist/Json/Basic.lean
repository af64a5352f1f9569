-- JSON values. Objects keep the order of their members and have each key once, and a
-- number is either an integer or a double: the two never compare equal.
import Netlist.Assoc
import Netlist.Number.Binary64

namespace Netlist

/-- A number as it was written: with neither point nor exponent, and not too large, it
is an integer. -/
inductive JsonNumber where
  | int (i : Int)
  | float (x : Binary64)
  deriving DecidableEq, Repr

/-- Whether two numbers are of one kind and equal. -/
def JsonNumber.same : JsonNumber → JsonNumber → Bool
  | int i, int j => i == j
  | float x, float y => x.same y
  | _, _ => false

/-- A JSON value. -/
inductive Json where
  | null
  | bool (b : Bool)
  | number (n : JsonNumber)
  | string (s : String)
  | array (items : List Json)
  | object (members : List (String × Json))
  deriving Repr, Inhabited

namespace Json

def int (i : Int) : Json := .number (.int i)

def nat (n : Nat) : Json := int n

/-! ## Reading one layer -/

def isNull : Json → Bool
  | null => true
  | _ => false

def asObject? : Json → Option (List (String × Json))
  | object members => some members
  | _ => none

def asArray? : Json → Option (List Json)
  | array items => some items
  | _ => none

def asString? : Json → Option String
  | string s => some s
  | _ => none

def asBool? : Json → Option Bool
  | bool b => some b
  | _ => none

/-- An integer, not a double with an integral value. -/
def asInt? : Json → Option Int
  | number (.int i) => some i
  | _ => none

/-- Whether an integer fits 64 bits with a sign. -/
def fitsInt64 (i : Int) : Bool := decide (Int64.minValue.toInt ≤ i ∧ i ≤ Int64.maxValue.toInt)

/-- An integer that fits 64 bits with a sign. -/
def asInt64? (v : Json) : Option Int :=
  v.asInt?.filter fitsInt64

/-- An integer that fits 32 bits without a sign. -/
def asNat32? (v : Json) : Option Nat :=
  (v.asInt?.filter fun i => decide (0 ≤ i ∧ i < (UInt32.size : Int))).map Int.toNat

theorem asInt?_eq_some_iff {v : Json} {i : Int} : v.asInt? = some i ↔ v = .int i := by
  unfold asInt? int
  split <;> simp_all

theorem asString?_eq_some_iff {v : Json} {s : String} : v.asString? = some s ↔ v = .string s := by
  unfold asString?
  split <;> simp_all

theorem asInt64?_eq_some_iff {v : Json} {i : Int} :
    v.asInt64? = some i ↔ v = .int i ∧ fitsInt64 i = true := by
  rw [asInt64?, Option.filter_eq_some_iff, asInt?_eq_some_iff]

theorem asNat32?_eq_some_iff {v : Json} {n : Nat} :
    v.asNat32? = some n ↔ v = .nat n ∧ n < UInt32.size := by
  rw [asNat32?, Option.map_eq_some_iff]
  simp only [Option.filter_eq_some_iff, asInt?_eq_some_iff, decide_eq_true_iff]
  constructor
  · rintro ⟨i, ⟨rfl, low, high⟩, rfl⟩
    exact ⟨by rw [nat, Int.toNat_of_nonneg low], by omega⟩
  · rintro ⟨rfl, high⟩
    exact ⟨n, ⟨rfl, by omega, by omega⟩, Int.toNat_natCast n⟩

/-! ## Equality -/

mutual

/-- Equality up to the order of members, at every depth. -/
def same : Json → Json → Bool
  | null, null => true
  | bool a, bool b => a == b
  | number m, number n => m.same n
  | string s, string t => s == t
  | array xs, array ys => sameItems xs ys
  | object ms, object ns => ms.length == ns.length && sameMembers ms ns
  | _, _ => false

def sameItems : List Json → List Json → Bool
  | [], [] => true
  | x :: xs, y :: ys => same x y && sameItems xs ys
  | _, _ => false

/-- Every member on the left has an equal one on the right. -/
def sameMembers : List (String × Json) → List (String × Json) → Bool
  | [], _ => true
  | (k, v) :: rest, ns =>
    (match Assoc.get? k ns with
      | some w => same v w
      | none => false) && sameMembers rest ns

end

mutual

/-- Decides whether two values are the same, with their members in the same order. -/
def decEq : (v w : Json) → Decidable (v = w)
  | null, null => isTrue rfl
  | bool a, bool b => decidable_of_iff (a = b) (by simp)
  | number m, number n => decidable_of_iff (m = n) (by simp)
  | string s, string t => decidable_of_iff (s = t) (by simp)
  | array xs, array ys => have := decEqItems xs ys; decidable_of_iff (xs = ys) (by simp)
  | object ms, object ns => have := decEqMembers ms ns; decidable_of_iff (ms = ns) (by simp)
  | null, bool _ | null, number _ | null, string _ | null, array _ | null, object _
  | bool _, null | bool _, number _ | bool _, string _ | bool _, array _ | bool _, object _
  | number _, null | number _, bool _ | number _, string _ | number _, array _ | number _, object _
  | string _, null | string _, bool _ | string _, number _ | string _, array _ | string _, object _
  | array _, null | array _, bool _ | array _, number _ | array _, string _ | array _, object _
  | object _, null | object _, bool _ | object _, number _ | object _, string _
  | object _, array _ => isFalse (by simp)

def decEqItems : (xs ys : List Json) → Decidable (xs = ys)
  | [], [] => isTrue rfl
  | [], _ :: _ | _ :: _, [] => isFalse (by simp)
  | x :: xs, y :: ys =>
    have := decEq x y
    have := decEqItems xs ys
    decidable_of_iff (x = y ∧ xs = ys) (by simp)

def decEqMembers : (ms ns : List (String × Json)) → Decidable (ms = ns)
  | [], [] => isTrue rfl
  | [], _ :: _ | _ :: _, [] => isFalse (by simp)
  | (k, v) :: ms, (k', w) :: ns =>
    have := decEq v w
    have := decEqMembers ms ns
    decidable_of_iff (k = k' ∧ v = w ∧ ms = ns) (by simp [and_assoc])

end

instance : DecidableEq Json := decEq

/-! ## Depth -/

mutual

/-- How many arrays and objects lie inside each other at most. -/
def depth : Json → Nat
  | array items => depthItems items + 1
  | object members => depthMembers members + 1
  | _ => 0

def depthItems : List Json → Nat
  | [] => 0
  | v :: rest => max (depth v) (depthItems rest)

def depthMembers : List (String × Json) → Nat
  | [] => 0
  | (_, v) :: rest => max (depth v) (depthMembers rest)

end

end Json

end Netlist
