-- Maps from names that remember the order in which their names came. Parameters,
-- arguments, symbols and instances are kept in them, so that a saved document lists
-- things as they were declared. A consistent map is its list of entries: every
-- operation is described by what it does to that list.
import Netlist.Assoc
import Netlist.Table

namespace Netlist

/-- The entries in the order in which their names came, and the position of each name. -/
structure NameMap (α : Type) where
  entries : Array (Name × α)
  index : Std.ExtTreeMap Name Nat

namespace NameMap

variable {α β : Type}

def empty : NameMap α := ⟨#[], ∅⟩

instance : EmptyCollection (NameMap α) := ⟨empty⟩

instance : Inhabited (NameMap α) := ⟨empty⟩

def toList (m : NameMap α) : List (Name × α) := m.entries.toList

def size (m : NameMap α) : Nat := m.entries.size

def isEmpty (m : NameMap α) : Bool := m.entries.isEmpty

def names (m : NameMap α) : List Name := m.toList.map (·.1)

def values (m : NameMap α) : List α := m.toList.map (·.2)

def contains (m : NameMap α) (n : Name) : Bool := m.index.contains n

def get? (m : NameMap α) (n : Name) : Option α :=
  m.index[n]?.bind fun slot => m.entries[slot]?.map (·.2)

/-- Puts a new entry at the end. The name must not be there yet. -/
def append (m : NameMap α) (n : Name) (a : α) : NameMap α :=
  ⟨m.entries.push (n, a), m.index.insert n m.entries.size⟩

/-- Changes the value of a name where it stands. -/
def modify (m : NameMap α) (n : Name) (f : α → α) : NameMap α :=
  match m.index[n]? with
  | some slot => { m with entries := m.entries.modify slot fun e => (e.1, f e.2) }
  | none => m

/-- Gives a name a value, and says which value it had. A name that is there keeps its
position, and a new one comes last. -/
def insert (m : NameMap α) (n : Name) (a : α) : Option α × NameMap α :=
  if m.contains n then (m.get? n, m.modify n fun _ => a) else (none, m.append n a)

/-- Gives a value to a name that has none yet; nothing if the name is taken. -/
def tryInsert? (m : NameMap α) (n : Name) (a : α) : Option (NameMap α) :=
  if m.contains n then none else some (m.append n a)

/-- Inserts the pairs one after another, starting from nothing. -/
def ofList (l : List (Name × α)) : NameMap α := l.foldl (fun m e => (m.insert e.1 e.2).2) ∅

/-- Keeps the first `n` entries, and forgets the names of the others. -/
def take (m : NameMap α) (n : Nat) : NameMap α :=
  ⟨m.entries.take n, (m.toList.drop n).foldl (fun index e => index.erase e.1) m.index⟩

/-- Whether two maps hold the same names in the same order, with values that agree. -/
def agree (same : α → β → Bool) (m : NameMap α) (k : NameMap β) : Bool :=
  m.size == k.size &&
    (m.toList.zip k.toList).all fun (a, b) => a.1 == b.1 && same a.2 b.2

/-! ## The list of entries -/

@[simp] theorem toList_empty : (empty : NameMap α).toList = [] := rfl

@[simp] theorem length_toList (m : NameMap α) : m.toList.length = m.size := by
  simp [toList, size]

@[simp] theorem toList_append (m : NameMap α) (n : Name) (a : α) :
    (m.append n a).toList = m.toList ++ [(n, a)] := by
  simp [append, toList]

@[simp] theorem names_append (m : NameMap α) (n : Name) (a : α) :
    (m.append n a).names = m.names ++ [n] := by
  simp [names]

/-- To change an entry that has just come is to put another one at the end. -/
theorem modify_append (m : NameMap α) (n : Name) (a : α) (f : α → α) :
    (m.append n a).modify n f = m.append n (f a) := by
  simp [append, modify, Array.modify, Array.modifyM, Array.set_push]

theorem insert_of_fresh {m : NameMap α} {n : Name} (fresh : m.contains n = false) (a : α) :
    m.insert n a = (none, m.append n a) := by
  simp [insert, fresh]

@[simp] theorem toList_take (m : NameMap α) (n : Nat) : (m.take n).toList = m.toList.take n := by
  simp [take, toList]

theorem names_take (m : NameMap α) (n : Nat) : (m.take n).names = m.names.take n := by
  simp [names, List.map_take]

@[simp] theorem names_modify (m : NameMap α) (n : Name) (f : α → α) :
    (m.modify n f).names = m.names := by
  unfold modify
  split
  · apply List.ext_getElem
    · simp [names, toList]
    · intro i _ _
      simp only [names, toList, List.getElem_map, Array.getElem_toList, Array.getElem_modify]
      split <;> rfl
  · rfl

/-! ## Consistent maps -/

/-- The index maps each name of the list to its position, and nothing else. -/
def Consistent (m : NameMap α) : Prop :=
  ∀ (n : Name) (i : Nat), m.index[n]? = some i ↔ m.names[i]? = some n

theorem consistent_empty : (empty : NameMap α).Consistent := by
  intro n i
  simp [empty, names, toList]

variable {m : NameMap α}

/-- The index of a consistent map follows from its names. -/
theorem Consistent.index_eq {k : NameMap β} (h : m.Consistent) (hk : k.Consistent)
    (names : m.names = k.names) : m.index = k.index := by
  refine Std.ExtTreeMap.ext_getElem? fun n => Option.ext fun i => ?_
  rw [h n i, hk n i, names]

/-- A consistent map is told by its list of entries. -/
theorem Consistent.ext {k : NameMap α} (h : m.Consistent) (hk : k.Consistent)
    (entries : m.toList = k.toList) : m = k := by
  have index : m.index = k.index := h.index_eq hk (by rw [names, names, entries])
  obtain ⟨_, _⟩ := m
  obtain ⟨_, _⟩ := k
  cases Array.toList_inj.1 entries
  cases index
  rfl

/-- No name stands twice. -/
theorem Consistent.nodup (h : m.Consistent) : m.names.Nodup := by
  rw [List.nodup_iff_pairwise_ne, List.pairwise_iff_getElem]
  intro i j hi hj hij heq
  have at_i := (h _ i).2 (List.getElem?_eq_getElem hi)
  have at_j := (h _ j).2 (List.getElem?_eq_getElem hj)
  rw [heq, at_j] at at_i
  exact absurd (Option.some.inj at_i) (by omega)

theorem Consistent.contains_iff (h : m.Consistent) (n : Name) :
    m.contains n = true ↔ n ∈ m.names := by
  rw [List.mem_iff_getElem?]
  simp only [contains, Std.ExtTreeMap.contains_eq_isSome_getElem?, Option.isSome_iff_exists, h n]

theorem Consistent.contains_eq_false_iff (h : m.Consistent) (n : Name) :
    m.contains n = false ↔ n ∉ m.names := by
  rw [← h.contains_iff, Bool.not_eq_true]

theorem Consistent.get?_eq_some_iff (h : m.Consistent) (n : Name) (a : α) :
    m.get? n = some a ↔ (n, a) ∈ m.toList := by
  rw [List.mem_iff_getElem?]
  simp only [get?, Option.bind_eq_some_iff, h n, names, List.getElem?_map, toList,
    Array.getElem?_toList, Option.map_eq_some_iff, Prod.exists]
  constructor
  · rintro ⟨i, ⟨_, b, hi, rfl⟩, _, c, hi', rfl⟩
    rw [hi] at hi'
    cases hi'
    exact ⟨i, hi⟩
  · rintro ⟨i, hi⟩
    exact ⟨i, ⟨n, a, hi, rfl⟩, n, a, hi, rfl⟩

/-- A map keeps being consistent when values are changed in place. -/
theorem Consistent.modify (h : m.Consistent) (n : Name) (f : α → α) :
    (m.modify n f).Consistent := by
  intro k i
  rw [names_modify]
  unfold NameMap.modify
  split <;> exact h k i

/-- Only the entry of the name is changed. -/
theorem Consistent.toList_modify (h : m.Consistent) (n : Name) (f : α → α) :
    (m.modify n f).toList = Assoc.modify n f m.toList := by
  rw [Assoc.modify]
  have at_name : ∀ i (hi : i < m.entries.size), m.entries[i].1 = n ↔ m.index[n]? = some i := by
    intro i hi
    rw [h n i]
    simp [names, toList, Array.getElem?_eq_getElem hi]
  cases hs : m.index[n]? with
  | none =>
    have hm : m.modify n f = m := by simp [NameMap.modify, hs]
    rw [hm]
    apply List.ext_getElem (by simp)
    intro i hi _
    have hi : i < m.entries.size := by simpa [toList] using hi
    have hn : m.entries[i].1 ≠ n := fun hn => by rw [(at_name i hi).1 hn] at hs; cases hs
    simp [toList, hn]
  | some slot =>
    have hm : m.modify n f = { m with entries := m.entries.modify slot fun e => (e.1, f e.2) } := by
      simp [NameMap.modify, hs]
    rw [hm]
    apply List.ext_getElem (by simp [toList])
    intro i hi _
    have hi : i < m.entries.size := by simpa [toList] using hi
    simp [toList, at_name i hi, hs, List.getElem_modify]

theorem Consistent.append (h : m.Consistent) {n : Name} (fresh : m.contains n = false) (a : α) :
    (m.append n a).Consistent := by
  have hn : n ∉ m.names := (h.contains_eq_false_iff n).1 fresh
  have hlen : m.entries.size = m.names.length := by simp [names, size]
  intro k i
  simp only [NameMap.append, Std.ExtTreeMap.getElem?_insert, Std.LawfulEqOrd.compare_eq_iff_eq]
  change _ ↔ (m.append n a).names[i]? = some k
  rw [names_append, hlen]
  by_cases hk : n = k
  · subst hk
    rw [if_pos rfl, Option.some.injEq]
    constructor
    · rintro rfl; simp
    · intro hi
      by_cases hlt : i < m.names.length
      · rw [List.getElem?_append_left hlt] at hi
        exact absurd (List.mem_of_getElem? hi) hn
      · have := (List.getElem?_eq_some_iff.1 hi).1
        simp only [List.length_append, List.length_cons, List.length_nil] at this
        omega
  · rw [if_neg hk, h k i]
    by_cases hlt : i < m.names.length
    · rw [List.getElem?_append_left hlt]
    · rw [List.getElem?_eq_none (by omega), List.getElem?_append_right (by omega)]
      cases hi : i - m.names.length with
      | zero => simp [hk]
      | succ j => simp

/-- A name that was just appended is found with its value. -/
theorem Consistent.get?_append_self (h : m.Consistent) {n : Name} (fresh : m.contains n = false)
    (a : α) : (m.append n a).get? n = some a := by
  refine ((h.append fresh a).get?_eq_some_iff n a).2 ?_
  rw [toList_append]
  exact List.mem_append_right _ List.mem_cons_self

theorem forall_append {P : Name × α → Prop} (old : ∀ e ∈ m.toList, P e) {n : Name} {a : α}
    (new : P (n, a)) : ∀ e ∈ (m.append n a).toList, P e := by
  intro e he
  rw [toList_append, List.mem_append, List.mem_singleton] at he
  rcases he with he | rfl
  · exact old e he
  · exact new

theorem contains_append (m : NameMap α) (n : Name) (a : α) (k : Name) :
    (m.append n a).contains k = true ↔ n = k ∨ m.contains k = true := by
  simp [append, contains, Std.ExtTreeMap.contains_insert]

/-- What holds of the entries, changed or not, holds after one of them is changed. -/
theorem Consistent.forall_modify (h : m.Consistent) {P : Name × α → Prop} {f : α → α}
    (old : ∀ e ∈ m.toList, P e) (changed : ∀ e ∈ m.toList, P (e.1, f e.2)) (n : Name) :
    ∀ e ∈ (m.modify n f).toList, P e := by
  intro e he
  rw [h.toList_modify, Assoc.modify] at he
  obtain ⟨e', he', rfl⟩ := List.mem_map.1 he
  split
  · exact changed e' he'
  · exact old e' he'

@[simp] theorem contains_modify (m : NameMap α) (n : Name) (f : α → α) (k : Name) :
    (m.modify n f).contains k = m.contains k := by
  unfold modify
  split <;> rfl

theorem Consistent.insert (h : m.Consistent) (n : Name) (a : α) : (m.insert n a).2.Consistent := by
  unfold NameMap.insert
  split
  · exact h.modify n _
  · rename_i hn
    exact h.append (by simpa using hn) a

theorem Consistent.tryInsert? (h : m.Consistent) {n : Name} {a : α} {k : NameMap α}
    (hk : m.tryInsert? n a = some k) : k.Consistent := by
  unfold NameMap.tryInsert? at hk
  split at hk
  · cases hk
  · rename_i hn
    cases hk
    exact h.append (by simpa using hn) a

theorem consistent_ofList (l : List (Name × α)) : (ofList l).Consistent := by
  suffices ∀ m : NameMap α, m.Consistent →
      (l.foldl (fun m e => (m.insert e.1 e.2).2) m).Consistent from
    this ∅ consistent_empty
  induction l with
  | nil => exact fun _ h => h
  | cons e rest ih => exact fun m h => ih _ (h.insert e.1 e.2)

/-! ## Consistent maps as association lists -/

theorem Consistent.get?_eq (h : m.Consistent) (n : Name) : m.get? n = Assoc.get? n m.toList := by
  refine Option.ext fun a => ?_
  rw [h.get?_eq_some_iff, Assoc.get?_eq_some_iff h.nodup]

theorem Consistent.get?_eq_none_iff (h : m.Consistent) (n : Name) :
    m.get? n = none ↔ n ∉ m.names := by
  rw [h.get?_eq, Assoc.get?_eq_none_iff]
  rfl

/-- A consistent map is told by its names and what it has for each. -/
theorem Consistent.ext_get? {k : NameMap α} (h : m.Consistent) (hk : k.Consistent)
    (names : m.names = k.names) (same : ∀ n, m.get? n = k.get? n) : m = k := by
  refine h.ext hk (Assoc.eq_of_get? names hk.nodup fun e he => ?_)
  rw [← hk.get?_eq, ← same, (h.get?_eq_some_iff _ _).2 he]

/-- A name that is there has its value replaced, and a new one comes last. -/
theorem Consistent.toList_insert (h : m.Consistent) (n : Name) (a : α) :
    (m.insert n a).2.toList = Assoc.set n a m.toList := by
  unfold NameMap.insert
  split
  · rename_i hn
    rw [h.toList_modify, Assoc.set_eq_modify a h.nodup ((h.contains_iff n).1 hn)]
  · rename_i hn
    rw [toList_append, Assoc.set_of_not_mem a fun hm => hn ((h.contains_iff n).2 hm)]

/-- What a name had before it is given a value. -/
theorem Consistent.old_insert (h : m.Consistent) (n : Name) (a : α) :
    (m.insert n a).1 = Assoc.get? n m.toList := by
  unfold NameMap.insert
  split
  · exact h.get?_eq n
  · rename_i hn
    rw [← h.get?_eq]
    exact ((h.get?_eq_none_iff n).2 fun there => hn ((h.contains_iff n).2 there)).symm

theorem toList_ofList (l : List (Name × α)) : (ofList l).toList = Assoc.setAll [] l := by
  suffices ∀ m : NameMap α, m.Consistent →
      (l.foldl (fun m e => (m.insert e.1 e.2).2) m).toList = Assoc.setAll m.toList l from
    this ∅ consistent_empty
  induction l with
  | nil => exact fun _ _ => rfl
  | cons e rest ih =>
    intro m h
    rw [List.foldl_cons, ih _ (h.insert e.1 e.2), h.toList_insert]
    rfl

theorem toList_ofList_of_nodup {l : List (Name × α)} (h : (Assoc.keys l).Nodup) :
    (ofList l).toList = l :=
  (toList_ofList l).trans (Assoc.setAll_of_nodup h)

/-- What is left of an index from which names were erased. -/
theorem getElem?_foldl_erase (l : List (Name × α)) (index : Std.ExtTreeMap Name Nat) (n : Name) :
    (l.foldl (fun index e => index.erase e.1) index)[n]? =
      if n ∈ l.map (·.1) then none else index[n]? := by
  induction l generalizing index with
  | nil => simp
  | cons e rest ih =>
    rw [List.foldl_cons, ih, Std.ExtTreeMap.getElem?_erase]
    simp only [Std.LawfulEqOrd.compare_eq_iff_eq, List.map_cons, List.mem_cons]
    by_cases he : e.1 = n
    · simp [he]
    · simp only [he, if_false, Ne.symm he, false_or]

theorem Consistent.take {m : NameMap α} (h : m.Consistent) (n : Nat) : (m.take n).Consistent := by
  intro k i
  rw [names_take, List.getElem?_take]
  simp only [NameMap.take, getElem?_foldl_erase, List.map_drop]
  change (if k ∈ m.names.drop n then none else m.index[k]?) = some i ↔ _
  have hnd := h.nodup
  by_cases hi : i < n
  · rw [if_pos hi, ← h k i]
    split
    · rename_i hk
      constructor
      · intro hc; cases hc
      · intro hc
        obtain ⟨j, hj⟩ := List.mem_iff_getElem?.1 hk
        rw [List.getElem?_drop] at hj
        have := (h k (n + j)).2 hj
        rw [this] at hc
        exact absurd (Option.some.inj hc) (by omega)
    · rfl
  · rw [if_neg hi]
    split
    · simp
    · rename_i hk
      constructor
      · intro hc
        have hm := (h k i).1 hc
        refine absurd (List.mem_iff_getElem?.2 ⟨i - n, ?_⟩) hk
        rw [List.getElem?_drop, show n + (i - n) = i by omega]
        exact hm
      · intro hc; cases hc

end NameMap

end Netlist
