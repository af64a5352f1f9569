-- JSON values as documents have them: each key stands once in its object, and an integer
-- fits 64 bits, with a sign or without.
import Netlist.Metadata

namespace Netlist

/-- Whether an integer fits 64 bits, with a sign or without. -/
def JsonNumber.WellFormed : JsonNumber → Prop
  | int i => Int64.minValue.toInt ≤ i ∧ i < (UInt64.size : Int)
  | float _ => True

instance : (n : JsonNumber) → Decidable n.WellFormed
  | .int i => inferInstanceAs (Decidable (Int64.minValue.toInt ≤ i ∧ i < (UInt64.size : Int)))
  | .float _ => inferInstanceAs (Decidable True)

namespace Json

mutual

/-- Every object in the value, at every depth, has each key once, and every number fits. -/
def WellFormed : Json → Prop
  | number n => n.WellFormed
  | array items => WellFormedItems items
  | object members => (members.map (·.1)).Nodup ∧ WellFormedMembers members
  | _ => True

def WellFormedItems : List Json → Prop
  | [] => True
  | v :: rest => v.WellFormed ∧ WellFormedItems rest

def WellFormedMembers : List (String × Json) → Prop
  | [] => True
  | (_, v) :: rest => v.WellFormed ∧ WellFormedMembers rest

end

mutual

def decideWellFormed : (v : Json) → Decidable v.WellFormed
  | null | bool _ | string _ => .isTrue trivial
  | number n => inferInstanceAs (Decidable n.WellFormed)
  | array items => decideWellFormedItems items
  | object members =>
    @instDecidableAnd _ _ inferInstance (decideWellFormedMembers members)

def decideWellFormedItems : (vs : List Json) → Decidable (WellFormedItems vs)
  | [] => .isTrue trivial
  | v :: rest => @instDecidableAnd _ _ (decideWellFormed v) (decideWellFormedItems rest)

def decideWellFormedMembers : (ms : List (String × Json)) → Decidable (WellFormedMembers ms)
  | [] => .isTrue trivial
  | (_, v) :: rest => @instDecidableAnd _ _ (decideWellFormed v) (decideWellFormedMembers rest)

end

instance (v : Json) : Decidable v.WellFormed := decideWellFormed v

theorem wellFormedItems_iff {vs : List Json} : WellFormedItems vs ↔ ∀ v ∈ vs, v.WellFormed := by
  induction vs with
  | nil => simp [WellFormedItems]
  | cons v rest ih => simp [WellFormedItems, ih]

theorem wellFormedMembers_iff {ms : List (String × Json)} :
    WellFormedMembers ms ↔ ∀ m ∈ ms, m.2.WellFormed := by
  induction ms with
  | nil => simp [WellFormedMembers]
  | cons m rest ih =>
    obtain ⟨k, v⟩ := m
    simp [WellFormedMembers, ih]

theorem wellFormed_array_iff {vs : List Json} : (array vs).WellFormed ↔ ∀ v ∈ vs, v.WellFormed := by
  rw [WellFormed, wellFormedItems_iff]

theorem wellFormed_object_iff {ms : List (String × Json)} :
    (object ms).WellFormed ↔ (ms.map (·.1)).Nodup ∧ ∀ m ∈ ms, m.2.WellFormed := by
  rw [WellFormed, wellFormedMembers_iff]

/-! ## Members -/

theorem WellFormed.member {ms : List (String × Json)} (h : (object ms).WellFormed) {key : String}
    {v : Json} (hv : Assoc.get? key ms = some v) : v.WellFormed :=
  (wellFormed_object_iff.1 h).2 _ (Assoc.mem_of_get? hv)

theorem WellFormed.set {ms : List (String × Json)} (h : (object ms).WellFormed)
    (key : String) {v : Json} (hv : v.WellFormed) :
    (object (Assoc.set key v ms)).WellFormed := by
  rw [wellFormed_object_iff] at h ⊢
  refine ⟨Assoc.nodup_keys_set key v h.1, fun m hm => ?_⟩
  rcases Assoc.mem_set hm with rfl | hm
  · exact hv
  · exact h.2 m hm

theorem WellFormed.setAll {ms more : List (String × Json)} (h : (object ms).WellFormed)
    (hm : (object more).WellFormed) : (object (Assoc.setAll ms more)).WellFormed := by
  have values := (wellFormed_object_iff.1 hm).2
  clear hm
  induction more generalizing ms with
  | nil => exact h
  | cons m rest ih =>
    exact ih (h.set m.1 (values m List.mem_cons_self))
      fun n hn => values n (List.mem_cons_of_mem _ hn)

end Json

/-! ## Metadata -/

def Metadata.WellFormed (m : Metadata) : Prop := m.toJson.WellFormed

instance (m : Metadata) : Decidable m.WellFormed := inferInstanceAs (Decidable m.toJson.WellFormed)

theorem Metadata.wellFormed_empty : (∅ : Metadata).WellFormed := by
  decide

theorem Metadata.WellFormed.extend {m k : Metadata} (hm : m.WellFormed) (hk : k.WellFormed) :
    (m.extend k).WellFormed :=
  Json.WellFormed.setAll hm hk

theorem Metadata.extend_empty {m : Metadata} (h : m.WellFormed) : Metadata.extend ∅ m = m := by
  have keys : (List.map (·.1) ([] ++ m.entries)).Nodup := (Json.wellFormed_object_iff.1 h).1
  exact congrArg Metadata.mk (Assoc.setAll_of_nodup keys)

end Netlist
