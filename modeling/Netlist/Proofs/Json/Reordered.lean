-- JSON values that differ in the order of members only. Well-formed values of this kind have
-- the same shape, and objects of them agree under every key.
import Mathlib.Data.List.Perm.Subperm
import Netlist.Document.Save
import Netlist.Proofs.Entries
import Netlist.Proofs.Json.WellFormed

namespace Netlist

namespace Json

/-- Well-formed values that are equal up to the order of members, at every depth. -/
structure Reordered (v w : Json) : Prop where
  left : v.WellFormed
  right : w.WellFormed
  same : v.same w = true

/-! ## Equal values, layer by layer -/

theorem sameItems_iff {xs ys : List Json} :
    sameItems xs ys = true ↔ List.Forall₂ (fun v w => v.same w = true) xs ys := by
  induction xs generalizing ys with
  | nil => cases ys <;> simp [sameItems]
  | cons v rest ih => cases ys <;> simp [sameItems, ih]

theorem sameMembers_iff {ms ns : List (String × Json)} :
    sameMembers ms ns = true ↔
      ∀ m ∈ ms, ∃ w, Assoc.get? m.1 ns = some w ∧ m.2.same w = true := by
  induction ms with
  | nil => simp [sameMembers]
  | cons m rest ih =>
    obtain ⟨k, v⟩ := m
    rw [sameMembers, Bool.and_eq_true, ih, List.forall_mem_cons]
    cases Assoc.get? k ns <;> simp

/-- Where each key comes once, an equal object has no other keys. -/
theorem same_object_iff {ms ns : List (String × Json)} (hm : (Assoc.keys ms).Nodup)
    (hn : (Assoc.keys ns).Nodup) : (object ms).same (object ns) = true ↔
      Assoc.Agree (fun v w => v.same w = true) ms ns := by
  rw [same, Bool.and_eq_true, beq_iff_eq, sameMembers_iff]
  constructor
  · rintro ⟨size, found⟩
    have sub : Assoc.keys ms ⊆ Assoc.keys ns := by
      intro key hk
      obtain ⟨m, hm, rfl⟩ := List.mem_map.1 hk
      obtain ⟨w, hw, -⟩ := found m hm
      exact Assoc.isSome_get?_iff.1 (Option.isSome_of_eq_some hw)
    have perm : (Assoc.keys ms).Perm (Assoc.keys ns) :=
      (List.subperm_of_subset hm sub).perm_of_length_le (by simp [size])
    intro key
    cases hv : Assoc.get? key ms with
    | none =>
      rw [Assoc.get?_eq_none_iff, perm.mem_iff, ← Assoc.get?_eq_none_iff] at hv
      rw [hv]
      exact .none
    | some v =>
      obtain ⟨w, hw, r⟩ := found _ (Assoc.mem_of_get? hv)
      rw [hw]
      exact .some r
  · intro agree
    constructor
    · simpa using (agree.keys_perm hm hn).length_eq
    · intro m hm'
      exact agree.of_get? ((Assoc.get?_eq_some_iff hm).2 hm')

end Json

theorem JsonNumber.same_refl (n : JsonNumber) : n.same n = true := by
  cases n <;> simp [same, Binary64.same]

theorem JsonNumber.same_comm (n k : JsonNumber) : n.same k = k.same n := by
  cases n with
  | int i =>
    cases k with
    | int j => exact BEq.comm
    | float y => rfl
  | float x =>
    cases k with
    | int j => rfl
    | float y =>
      have floats : x.same y = y.same x := by
        unfold Binary64.same
        rw [BEq.comm, Bool.and_comm]
      exact floats

namespace Json

mutual

theorem WellFormed.same_refl : ∀ {v : Json}, v.WellFormed → v.same v = true
  | null, _ | bool _, _ | string _, _ => by simp [same]
  | number n, _ => n.same_refl
  | array _, h => WellFormedItems.same_refl h
  | object _, h => (same_object_iff h.1 h.1).2 (.refl (WellFormedMembers.same_refl h.2))

theorem WellFormedItems.same_refl : ∀ {vs : List Json}, WellFormedItems vs → sameItems vs vs = true
  | [], _ => rfl
  | _ :: _, h => by rw [sameItems, h.1.same_refl, WellFormedItems.same_refl h.2]; rfl

theorem WellFormedMembers.same_refl : ∀ {ms : List (String × Json)}, WellFormedMembers ms →
    ∀ m ∈ ms, m.2.same m.2 = true
  | (_, _) :: _, h, _, .head _ => h.1.same_refl
  | (_, _) :: _, h, m, .tail _ hm => WellFormedMembers.same_refl h.2 m hm

end

mutual

theorem WellFormed.same_symm : ∀ {v w : Json}, v.WellFormed → w.WellFormed → v.same w = true →
    w.same v = true
  | null, w, _, _, h | bool _, w, _, _, h | string _, w, _, _, h => by
    cases w <;> simp_all [same]
  | number _, w, _, _, h => by
    cases w with
    | number _ => exact (JsonNumber.same_comm _ _).trans h
    | null | bool | string | array | object => cases h
  | array _, w, hv, hw, h => by
    cases w with
    | array _ => exact WellFormedItems.same_symm hv hw h
    | null | bool | number | string | object => cases h
  | object ms, w, hv, hw, h => by
    cases w with
    | object ns =>
      have agree := (same_object_iff hv.1 hw.1).1 h
      refine (same_object_iff hw.1 hv.1).2 (agree.flip.imp fun hw' hv' h => ?_)
      exact WellFormedMembers.same_symm hv.2 _ (Assoc.mem_of_get? hv') (hw.member hw') h
    | null | bool | number | string | array => cases h

theorem WellFormedItems.same_symm : ∀ {vs ws : List Json}, WellFormedItems vs →
    WellFormedItems ws → sameItems vs ws = true → sameItems ws vs = true
  | [], ws, _, _, h => by cases ws <;> simp_all [sameItems]
  | v :: vs, ws, hv, hw, h => by
    cases ws with
    | nil => cases h
    | cons w ws =>
      rw [sameItems, Bool.and_eq_true] at h ⊢
      exact ⟨hv.1.same_symm hw.1 h.1, WellFormedItems.same_symm hv.2 hw.2 h.2⟩

theorem WellFormedMembers.same_symm : ∀ {ms : List (String × Json)}, WellFormedMembers ms →
    ∀ m ∈ ms, ∀ {w : Json}, w.WellFormed → m.2.same w = true → w.same m.2 = true
  | (_, _) :: _, h, _, .head _, _, hw, same => h.1.same_symm hw same
  | (_, _) :: _, h, m, .tail _ hm, _, hw, same =>
    WellFormedMembers.same_symm h.2 m hm hw same

end

namespace Reordered

variable {v w : Json}

theorem refl (h : v.WellFormed) : v.Reordered v := ⟨h, h, h.same_refl⟩

theorem symm (h : v.Reordered w) : w.Reordered v :=
  ⟨h.right, h.left, h.left.same_symm h.right h.same⟩

end Reordered

theorem reordered_array_iff {xs ys : List Json} :
    (array xs).Reordered (array ys) ↔ List.Forall₂ Reordered xs ys := by
  constructor
  · rintro ⟨left, right, same⟩
    rw [wellFormed_array_iff] at left right
    replace same := sameItems_iff.1 same
    induction same with
    | nil => exact .nil
    | cons h _ ih =>
      obtain ⟨hv, left⟩ := List.forall_mem_cons.1 left
      obtain ⟨hw, right⟩ := List.forall_mem_cons.1 right
      exact .cons ⟨hv, hw, h⟩ (ih left right)
  · intro h
    refine ⟨wellFormed_array_iff.2 fun v hv => ?_, wellFormed_array_iff.2 fun w hw => ?_,
      sameItems_iff.2 (h.imp fun _ _ r => r.same)⟩
    · obtain ⟨_, -, r⟩ := exists_of_forall₂ h hv
      exact r.left
    · obtain ⟨_, -, r⟩ := exists_of_forall₂ h.flip hw
      exact r.right

theorem reordered_object_iff {ms ns : List (String × Json)} :
    (object ms).Reordered (object ns) ↔
      (Assoc.keys ms).Nodup ∧ (Assoc.keys ns).Nodup ∧ Assoc.Agree Reordered ms ns := by
  constructor
  · rintro ⟨left, right, same⟩
    refine ⟨left.1, right.1, ((same_object_iff left.1 right.1).1 same).imp fun hv hw h => ?_⟩
    exact ⟨left.member hv, right.member hw, h⟩
  · rintro ⟨hm, hn, agree⟩
    refine ⟨wellFormed_object_iff.2 ⟨hm, fun m mem => ?_⟩,
      wellFormed_object_iff.2 ⟨hn, fun n mem => ?_⟩,
      (same_object_iff hm hn).2 (agree.imp fun _ _ r => r.same)⟩
    · obtain ⟨_, -, r⟩ := agree.of_get? ((Assoc.get?_eq_some_iff hm).2 mem)
      exact r.left
    · obtain ⟨_, -, r⟩ := agree.flip.of_get? ((Assoc.get?_eq_some_iff hn).2 mem)
      exact r.right

/-! ## The shape of a reordered value -/

namespace Reordered

variable {w : Json}

theorem array_left {xs : List Json} (h : (array xs).Reordered w) :
    ∃ ys, w = array ys ∧ List.Forall₂ Reordered xs ys := by
  cases w with
  | array ys => exact ⟨ys, rfl, reordered_array_iff.1 h⟩
  | null | bool | number | string | object => cases h.same

theorem object_left {ms : List (String × Json)} (h : (object ms).Reordered w) :
    ∃ ns, w = object ns ∧ Assoc.Agree Reordered ms ns := by
  cases w with
  | object ns => exact ⟨ns, rfl, (reordered_object_iff.1 h).2.2⟩
  | null | bool | number | string | array => cases h.same

end Reordered

/-- Whether a value has nothing in it that could be reordered. -/
def Rigid (v : Json) : Prop := ∀ {w}, v.Reordered w → w = v

theorem rigid_null : null.Rigid := by
  intro w h
  cases w with
  | null => rfl
  | bool | number | string | array | object => cases h.same

theorem rigid_string (s : String) : (string s).Rigid := by
  intro w h
  cases w with
  | string t => rw [eq_of_beq h.same]
  | null | bool | number | array | object => cases h.same

theorem rigid_int (i : Int) : (int i).Rigid := by
  intro w h
  cases w with
  | number n =>
    cases n with
    | int j => rw [int, eq_of_beq h.same]
    | float x => cases h.same
  | null | bool | string | array | object => cases h.same

theorem rigid_array {xs : List Json} (each : ∀ v ∈ xs, v.Rigid) : (array xs).Rigid := by
  intro w h
  obtain ⟨ys, rfl, items⟩ := h.array_left
  clear h
  induction items with
  | nil => rfl
  | cons r _ ih =>
    obtain ⟨first, rest⟩ := List.forall_mem_cons.1 each
    rw [first r, array.inj (ih rest)]

theorem rigid_words (words : List String) : (array (words.map string)).Rigid := by
  apply rigid_array
  intro v hv
  obtain ⟨word, -, rfl⟩ := List.mem_map.1 hv
  exact rigid_string word

end Json

mutual

theorem TypeTree.rigid_toJson : ∀ t : TypeTree String, t.toJson.Rigid
  | .any | .bitIn | .bitOut => Json.rigid_string _
  | .array n t => by
    apply Json.rigid_array
    simp only [List.forall_mem_cons]
    exact ⟨Json.rigid_string _, Json.rigid_int _, t.rigid_toJson, by simp⟩
  | .record ts => by
    apply Json.rigid_array
    simp only [List.forall_mem_cons]
    exact ⟨Json.rigid_string _, Json.rigid_array (TypeTree.rigid_fieldsToJson ts), by simp⟩

theorem TypeTree.rigid_fieldsToJson : ∀ (ts : List (String × TypeTree String)),
    ∀ v ∈ TypeTree.fieldsToJson ts, v.Rigid
  | [], _, hv => by cases hv
  | (name, t) :: rest, v, hv => by
    rcases List.mem_cons.1 hv with rfl | hv
    · apply Json.rigid_array
      simp only [List.forall_mem_cons]
      exact ⟨Json.rigid_string _, t.rigid_toJson, by simp⟩
    · exact TypeTree.rigid_fieldsToJson rest v hv

end

theorem ArgTree.rigid_toJson (a : ArgTree) : a.toJson.Rigid := by
  cases a with
  | int i => exact Json.rigid_int i
  | string s => exact Json.rigid_string s
  | type t => exact t.rigid_toJson

end Netlist
