-- What the table of types keeps, whatever was interned and cut back before. Each type is
-- stored once and above its parts, so two numbers are equal exactly when the types they
-- stand for are equal through all their layers.
import Mathlib.Data.List.Nodup
import Netlist.Proofs.Unfolding

namespace Netlist

namespace Pool

variable {e : Entity} {α : Type} [Ord α] [Std.TransOrd α] {p : Pool e α}

/-- What is stored already is not stored again. -/
theorem Consistent.intern_of_get? (hp : p.Consistent) {a : α} {h : Handle e}
    (ha : p.get? h = some a) : p.intern a = (h, p) :=
  intern_of_find? ((hp a h).2 ha)

theorem Consistent.nodup_items (hp : p.Consistent) : p.items.toList.Nodup := by
  refine List.nodup_iff_injective_getElem.2 fun i j same => Fin.ext ?_
  have stored : ∀ k : Fin p.items.toList.length, p.get? ⟨k⟩ = some p.items.toList[k] := fun k => by
    rw [get?, Table.get?_eq_toList, List.getElem?_eq_getElem k.2]
    rfl
  have again : p.get? ⟨j⟩ = some p.items.toList[i] :=
    (stored j).trans (congrArg some same.symm)
  exact congrArg Handle.index (hp.get?_injective (stored i) again)

end Pool

namespace TypeTable

/-! ## Calls -/

/-- One call to the table. -/
inductive Call where
  | intern (w : WireType)
  | array (element : TypeId) (length : Nat)
  | record (fields : List (Name × TypeId))
  | keep (n : Nat)
  deriving DecidableEq

/-- The types that a call is given. -/
def Call.parts : Call → List TypeId
  | intern w => w.parts
  | array element _ => [element]
  | record fields => fields.map (·.2)
  | keep _ => []

/-- The table after a call. A record with a field name twice leaves it alone. -/
def step (t : TypeTable) : Call → TypeTable
  | .intern w => (t.intern w).2
  | .array element length => (t.array element length).2
  | .record fields =>
    match t.record fields with
    | .ok (_, t') => t'
    | .error _ => t
  | .keep n => t.keep n

def run (t : TypeTable) (calls : List Call) : TypeTable := calls.foldl step t

/-- All types that the call is given are there. -/
def InRange (t : TypeTable) (c : Call) : Prop := ∀ id ∈ c.parts, id.index < t.size

/-- Each call is given types that are there by then. -/
def Admitted : TypeTable → List Call → Prop
  | _, [] => True
  | t, c :: rest => t.InRange c ∧ Admitted (t.step c) rest

instance (t : TypeTable) (c : Call) : Decidable (t.InRange c) :=
  inferInstanceAs (Decidable (∀ id ∈ c.parts, id.index < t.size))

instance decidableAdmitted : ∀ (t : TypeTable) (calls : List Call), Decidable (Admitted t calls)
  | _, [] => inferInstanceAs (Decidable True)
  | t, c :: rest =>
    have := decidableAdmitted (t.step c) rest
    inferInstanceAs (Decidable (t.InRange c ∧ Admitted (t.step c) rest))

/-- A record is interned if its field names are different, and refused otherwise. -/
theorem record_cases (t : TypeTable) (fields : List (Name × TypeId)) :
    (fields.map (·.1)).Nodup ∧ t.record fields = .ok (t.intern (.record fields)) ∨
    ∃ n, ¬(fields.map (·.1)).Nodup ∧ t.record fields = .error n := by
  rw [record, ← firstRepeat_eq_none_iff]
  cases firstRepeat (fields.map (·.1)) with
  | none => exact Or.inl ⟨rfl, rfl⟩
  | some n => exact Or.inr ⟨n, nofun, rfl⟩

/-- Every call but a cut interns one type or changes nothing. -/
theorem step_cases (t : TypeTable) (c : Call) :
    (∃ n, c = .keep n ∧ t.step c = t.keep n) ∨ t.step c = t ∨
    ∃ w, t.step c = (t.intern w).2 ∧ w.parts = c.parts ∧
      (∀ fields, w = .record fields → c = .intern w ∨ (fields.map (·.1)).Nodup) := by
  cases c with
  | intern w => exact Or.inr (Or.inr ⟨w, rfl, rfl, fun _ h => Or.inl rfl⟩)
  | array element length => exact Or.inr (Or.inr ⟨.array element length, rfl, rfl, nofun⟩)
  | record fields =>
    rcases record_cases t fields with ⟨distinct, h⟩ | ⟨n, -, h⟩
    · refine Or.inr (Or.inr ⟨.record fields, by rw [step, h], rfl, ?_⟩)
      exact fun _ same => Or.inr (WireType.record.inj same ▸ distinct)
    · exact Or.inr (Or.inl (by rw [step, h]))
  | keep n => exact Or.inl ⟨n, rfl, rfl⟩

/-! ## What every call keeps -/

variable {t : TypeTable}

/-- No cut takes away a leaf. -/
theorem get?_keep_of_lt {id : TypeId} (h : id.index < leafCount) (t : TypeTable) (n : Nat) :
    (t.keep n).get? id = t.get? id := by
  rw [keep, Pool.get?_take, if_pos (Nat.lt_of_lt_of_le h (Nat.le_max_right ..))]

/-- A cut leaves what stood under a number, or nothing. -/
theorem get?_of_keep {t : TypeTable} {n : Nat} {id : TypeId} {w : WireType}
    (h : (t.keep n).get? id = some w) : t.get? id = some w := by
  rw [keep, Pool.get?_take] at h
  split at h
  · exact h
  · cases h

/-- The leaves have their numbers, and each type comes after its parts. -/
structure Layered (t : TypeTable) : Prop where
  consistent : t.Consistent
  any : t.get? anyId = some .any
  bitIn : t.get? bitInId = some .bitIn
  bitOut : t.get? bitOutId = some .bitOut
  part_lt : ∀ {id w}, t.get? id = some w → ∀ part ∈ w.parts, part.index < id.index

theorem leaf_of_get? {id : TypeId} {w : WireType} (h : leaves.get? id = some w) :
    w = .any ∨ w = .bitIn ∨ w = .bitOut := by
  have items : leaves.items.toList = [.any, .bitIn, .bitOut] := by decide +kernel
  have mem := Table.mem_toList_iff.2 ⟨id, h⟩
  rw [items] at mem
  simpa using mem

theorem layered_leaves : leaves.Layered where
  consistent := consistent_leaves
  any := get?_leaves.1
  bitIn := get?_leaves.2.1
  bitOut := get?_leaves.2.2
  part_lt h := by
    -- No leaf has parts.
    rcases leaf_of_get? h with rfl | rfl | rfl <;> exact nofun

theorem Layered.intern (h : t.Layered) {w : WireType}
    (range : ∀ part ∈ w.parts, part.index < t.size) : Layered (t.intern w).2 where
  consistent := h.consistent.intern w
  any := Pool.get?_intern_of_get? h.any
  bitIn := Pool.get?_intern_of_get? h.bitIn
  bitOut := Pool.get?_intern_of_get? h.bitOut
  part_lt stored := by
    rcases Pool.get?_intern_cases stored with stored | ⟨rfl, rfl⟩
    · exact h.part_lt stored
    · exact range

theorem Layered.keep (h : t.Layered) (n : Nat) : Layered (t.keep n) where
  consistent := h.consistent.take _
  any := (get?_keep_of_lt (by decide) t n).trans h.any
  bitIn := (get?_keep_of_lt (by decide) t n).trans h.bitIn
  bitOut := (get?_keep_of_lt (by decide) t n).trans h.bitOut
  part_lt stored := h.part_lt (get?_of_keep stored)

theorem Layered.step (h : t.Layered) {c : Call} (range : t.InRange c) : Layered (t.step c) := by
  rcases step_cases t c with ⟨n, -, same⟩ | same | ⟨w, same, parts, -⟩
  · rw [same]
    exact h.keep n
  · rw [same]
    exact h
  · rw [same]
    exact h.intern (parts ▸ range)

theorem Layered.run {calls : List Call} (h : t.Layered) (admitted : Admitted t calls) :
    Layered (t.run calls) := by
  induction calls generalizing t with
  | nil => exact h
  | cons c rest ih => exact ih (h.step admitted.1) admitted.2

/-- A stored record was there before, was interned as it is, or has different field names. -/
theorem record_step {c : Call} {id : TypeId} {fields : List (Name × TypeId)}
    (stored : (t.step c).get? id = some (.record fields)) :
    t.get? id = some (.record fields) ∨ c = .intern (.record fields) ∨
      (fields.map (·.1)).Nodup := by
  rcases step_cases t c with ⟨n, -, same⟩ | same | ⟨w, same, -, origin⟩
  · exact Or.inl (get?_of_keep (same ▸ stored))
  · exact Or.inl (same ▸ stored)
  · rcases Pool.get?_intern_cases (same ▸ stored) with stored | ⟨rfl, -⟩
    · exact Or.inl stored
    · exact Or.inr (origin fields rfl)

theorem record_run {calls : List Call} {id : TypeId} {fields : List (Name × TypeId)}
    (stored : (t.run calls).get? id = some (.record fields)) :
    t.get? id = some (.record fields) ∨ .intern (.record fields) ∈ calls ∨
      (fields.map (·.1)).Nodup := by
  induction calls generalizing t with
  | nil => exact Or.inl stored
  | cons c rest ih =>
    rcases ih stored with stored | raw | distinct
    · rcases record_step stored with stored | rfl | distinct
      · exact Or.inl stored
      · exact Or.inr (Or.inl List.mem_cons_self)
      · exact Or.inr (Or.inr distinct)
    · exact Or.inr (Or.inl (List.mem_cons_of_mem c raw))
    · exact Or.inr (Or.inr distinct)

/-- A table on its own labels fields by their names. -/
theorem Layered.founded (h : t.Layered) : t.Founded some := ⟨h.part_lt, fun _ _ _ => rfl⟩

/-! ## What a run leaves -/

/-- What is true of a table after these calls: the index is exact, no type is stored twice,
each type stands for one tree, its fields labelled by their names, and equal numbers are
equal trees. -/
structure Structural (t : TypeTable) (calls : List Call) : Prop where
  index : ∀ w id, t.find? w = some id ↔ t.get? id = some w
  once : t.items.toList.Nodup
  any : t.get? anyId = some .any
  bitIn : t.get? bitInId = some .bitIn
  bitOut : t.get? bitOutId = some .bitOut
  part_lt : ∀ id w, t.get? id = some w → ∀ part ∈ w.parts, part.index < id.index
  distinct : ∀ id fields, t.get? id = some (.record fields) →
    .intern (.record fields) ∉ calls → (fields.map (·.1)).Nodup
  unfolds : ∀ id : TypeId, id.index < t.size → ∃! tree, t.Unfolds some id tree
  same_iff : ∀ a b ta tb, t.Unfolds some a ta → t.Unfolds some b tb → (a = b ↔ ta = tb)

theorem Layered.structural {calls : List Call} (h : t.Layered)
    (distinct : ∀ id fields, t.get? id = some (.record fields) →
      .intern (.record fields) ∉ calls → (fields.map (·.1)).Nodup) : t.Structural calls where
  index := h.consistent
  once := h.consistent.nodup_items
  any := h.any
  bitIn := h.bitIn
  bitOut := h.bitOut
  part_lt _ _ := h.part_lt
  distinct := distinct
  unfolds _ range := by
    obtain ⟨tree, ht⟩ := h.founded.exists_unfolds ((Table.isSome_get?_iff _ _).2 range)
    exact ⟨tree, ht, fun _ hb => hb.tree_unique ht⟩
  same_iff _ _ _ _ ha hb := by
    -- A name is its own label, so no two names share one.
    have labels {m n k : Name} (hm : some m = some k) (hn : some n = some k) : m = n :=
      Option.some.inj (hm.trans hn.symm)
    constructor
    · intro same
      exact ha.tree_unique (same ▸ hb)
    · intro same
      exact ha.id_unique h.consistent labels (same ▸ hb)

theorem distinct_of_run (calls : List Call) (id : TypeId) (fields : List (Name × TypeId))
    (stored : (leaves.run calls).get? id = some (.record fields))
    (notRaw : .intern (.record fields) ∉ calls) : (fields.map (·.1)).Nodup := by
  rcases record_run stored with leaf | raw | distinct
  · rcases leaf_of_get? leaf with h | h | h <;> cases h
  · exact absurd raw notRaw
  · exact distinct

/-- A table that calls with types in range have led to is structural, and a cut leaves it so.
What is stored already is not stored again, and a record has different field names. -/
theorem structural_interning {calls : List Call} (admitted : Admitted leaves calls)
    (reached : leaves.run calls = t) :
    t.Structural calls ∧
    (∀ w id, t.get? id = some w → t.intern w = (id, t)) ∧
    (∀ fields id t', t.record fields = .ok (id, t') →
      (fields.map (·.1)).Nodup ∧ t'.get? id = some (.record fields)) ∧
    ∀ n, (t.keep n).items.toList = t.items.toList.take (min t.size (max n leafCount)) ∧
      Structural (t.keep n) calls := by
  subst reached
  have layered := layered_leaves.run admitted
  have distinct := distinct_of_run calls
  refine ⟨layered.structural distinct, fun w id => layered.consistent.intern_of_get?, ?_,
    fun n => ⟨?_, (layered.keep n).structural fun id fields stored =>
      distinct id fields (get?_of_keep stored)⟩⟩
  · intro fields id t' recorded
    rcases record_cases (leaves.run calls) fields with ⟨different, h⟩ | ⟨_, -, h⟩
    · have interned := Except.ok.inj (recorded.symm.trans h)
      have stored := layered.consistent.get?_intern (.record fields)
      rw [← interned] at stored
      exact ⟨different, stored⟩
    · cases recorded.symm.trans h
  · rw [keep, Pool.take, Table.toList_take, List.take_eq_take_iff, Table.length_toList,
      Pool.size]
    omega

/-- Calls that intern, cut back, and give the free numbers to other types. -/
def reusingCalls : List Call :=
  [.array bitInId 8, .record [(⟨0⟩, ⟨3⟩), (⟨1⟩, anyId)], .keep 0, .array bitOutId 2,
    .record [(⟨0⟩, ⟨3⟩), (⟨0⟩, anyId)], .record [(⟨1⟩, ⟨3⟩)],
    .intern (.record [(⟨0⟩, ⟨4⟩), (⟨0⟩, ⟨4⟩)]), .keep 5]

theorem structural_after_reuse : Admitted leaves reusingCalls ∧
    Structural (leaves.run reusingCalls) reusingCalls ∧
    Pool.intern (leaves.run reusingCalls) (.record [(⟨1⟩, ⟨3⟩)]) =
      (⟨4⟩, leaves.run reusingCalls) := by
  have admitted : Admitted leaves reusingCalls := by decide +kernel
  obtain ⟨structural, present, -⟩ := structural_interning admitted rfl
  exact ⟨admitted, structural, present _ _ (by decide +kernel)⟩

end TypeTable

end Netlist
