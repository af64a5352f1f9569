-- Append-only tables. A thing that is put in a table is known by its position from
-- then on, and the only removal is to cut the table back to an earlier length.
import Std.Data.ExtTreeMap

namespace Netlist

/-! ## Handles -/

/-- The kinds of thing that a design numbers. -/
inductive Entity where
  | name
  | type
  | scope
  | module
  | generator
  deriving DecidableEq, Repr

/-- The number of one thing of a kind. It means something only together with the
table that gave it out. -/
structure Handle (e : Entity) where
  index : Nat
  deriving DecidableEq, Repr, Inhabited

/-- The number of an interned string. -/
abbrev Name := Handle .name

abbrev TypeId := Handle .type
abbrev NamespaceId := Handle .scope
abbrev ModuleId := Handle .module
abbrev GeneratorId := Handle .generator

variable {e : Entity} {α β : Type}

/-- Handles are ordered by their numbers. -/
instance : Ord (Handle e) := ⟨fun a b => compare a.index b.index⟩

instance : Std.TransOrd (Handle e) where
  eq_swap := Std.OrientedOrd.eq_swap (α := Nat)
  isLE_trans := Std.TransOrd.isLE_trans (α := Nat)

instance : Std.LawfulEqOrd (Handle e) where
  compare_self := Std.ReflOrd.compare_self (α := Nat)
  eq_of_compare {a b} h := by
    cases a; cases b
    exact congrArg Handle.mk (Std.LawfulEqOrd.eq_of_compare (α := Nat) h)

/-! ## Tables -/

/-- The things of one kind, in the order in which they came. -/
structure Table (e : Entity) (α : Type) where
  items : Array α
  deriving DecidableEq, Repr

namespace Table

def empty : Table e α := ⟨#[]⟩

instance : EmptyCollection (Table e α) := ⟨empty⟩

instance : Inhabited (Table e α) := ⟨empty⟩

def size (t : Table e α) : Nat := t.items.size

def isEmpty (t : Table e α) : Bool := t.items.isEmpty

def toList (t : Table e α) : List α := t.items.toList

/-- The handle that the next thing put in the table gets. -/
def nextId (t : Table e α) : Handle e := ⟨t.size⟩

/-- Puts a thing at the end; its handle is the `nextId` from before. -/
def push (t : Table e α) (a : α) : Table e α := ⟨t.items.push a⟩

/-- What a handle stands for, or nothing if the table does not reach so far. -/
def get? (t : Table e α) (h : Handle e) : Option α := t.items[h.index]?

/-- Changes one thing in place. A handle past the end changes nothing. -/
def modify (t : Table e α) (h : Handle e) (f : α → α) : Table e α := ⟨t.items.modify h.index f⟩

/-- Puts another thing in the place of one that is there. -/
def set (t : Table e α) (h : Handle e) (a : α) : Table e α := t.modify h fun _ => a

def map (t : Table e α) (f : α → β) : Table e β := ⟨t.items.map f⟩

/-- Changes every thing, each with its position at hand. -/
def mapWithIndex (t : Table e α) (f : Nat → α → α) : Table e α := ⟨t.items.mapIdx f⟩

/-- Cuts the table back to its first `n` things. -/
def take (t : Table e α) (n : Nat) : Table e α := ⟨t.items.take n⟩

/-- Each thing with its handle, in order. -/
def toPairs (t : Table e α) : List (Handle e × α) :=
  t.toList.zipIdx.map fun (a, i) => (⟨i⟩, a)

/-! ## What each operation does to the list of things -/

@[ext] theorem ext {t u : Table e α} (h : t.toList = u.toList) : t = u := by
  cases t; cases u; exact congrArg mk (Array.toList_inj.1 h)

@[simp] theorem toList_empty : (empty : Table e α).toList = [] := rfl

@[simp] theorem toList_push (t : Table e α) (a : α) : (t.push a).toList = t.toList ++ [a] := by
  simp [push, toList]

@[simp] theorem toList_take (t : Table e α) (n : Nat) : (t.take n).toList = t.toList.take n := by
  simp [take, toList]

@[simp] theorem length_toList (t : Table e α) : t.toList.length = t.size := by
  simp [toList, size]

@[simp] theorem size_push (t : Table e α) (a : α) : (t.push a).size = t.size + 1 := by
  simp [push, size]

@[simp] theorem size_modify (t : Table e α) (h : Handle e) (f : α → α) :
    (t.modify h f).size = t.size := by
  simp [modify, size]

@[simp] theorem size_mapWithIndex (t : Table e α) (f : Nat → α → α) :
    (t.mapWithIndex f).size = t.size := by
  simp [mapWithIndex, size]

@[simp] theorem size_take (t : Table e α) (n : Nat) : (t.take n).size = min n t.size := by
  rw [← length_toList, toList_take, List.length_take, length_toList]

theorem get?_eq_toList (t : Table e α) (h : Handle e) : t.get? h = t.toList[h.index]? := by
  simp [get?, toList]

theorem mem_toList_iff {t : Table e α} {a : α} : a ∈ t.toList ↔ ∃ h, t.get? h = some a := by
  simp only [get?_eq_toList, List.mem_iff_getElem?]
  exact ⟨fun ⟨i, hi⟩ => ⟨⟨i⟩, hi⟩, fun ⟨h, ha⟩ => ⟨h.index, ha⟩⟩

theorem get?_push (t : Table e α) (a : α) (h : Handle e) :
    (t.push a).get? h = if h.index = t.size then some a else t.get? h := by
  simp only [get?, push, size, Array.getElem?_push]
  rfl

theorem get?_push_nextId (t : Table e α) (a : α) : (t.push a).get? t.nextId = some a := by
  rw [get?_push]
  exact if_pos rfl

theorem get?_modify (t : Table e α) (h k : Handle e) (f : α → α) :
    (t.modify h f).get? k = if h = k then (t.get? k).map f else t.get? k := by
  obtain ⟨i⟩ := h; obtain ⟨j⟩ := k
  simp only [get?, modify, Array.getElem?_modify, Handle.mk.injEq]

theorem get?_take (t : Table e α) (n : Nat) (h : Handle e) :
    (t.take n).get? h = if h.index < n then t.get? h else none := by
  simp only [get?_eq_toList, toList_take, List.getElem?_take]

theorem get?_map (t : Table e α) (f : α → β) (h : Handle e) :
    (t.map f).get? h = (t.get? h).map f := by
  simp [get?, map]

theorem get?_mapWithIndex (t : Table e α) (f : Nat → α → α) (h : Handle e) :
    (t.mapWithIndex f).get? h = (t.get? h).map (f h.index) := by
  simp [get?, mapWithIndex]

@[simp] theorem get?_empty (h : Handle e) : (empty : Table e α).get? h = none := by
  simp [get?, empty]

/-- Tables in which every handle stands for the same are equal. -/
theorem ext_get? {t u : Table e α} (h : ∀ k, t.get? k = u.get? k) : t = u := by
  refine ext (List.ext_getElem? fun i => ?_)
  simpa only [get?_eq_toList] using h ⟨i⟩

theorem index_lt_of_get? {t : Table e α} {h : Handle e} {a : α} (ha : t.get? h = some a) :
    h.index < t.size := by
  simpa [get?, size] using (Array.getElem?_eq_some_iff.1 ha).1

theorem exists_get? {t : Table e α} {h : Handle e} (hh : h.index < t.size) :
    ∃ a, t.get? h = some a :=
  ⟨_, Array.getElem?_eq_getElem hh⟩

/-- A handle stands for something exactly when it is below the size. -/
theorem isSome_get?_iff (t : Table e α) (h : Handle e) : (t.get? h).isSome ↔ h.index < t.size := by
  simp [get?, size]

theorem get?_eq_none_of_size_le {t : Table e α} {h : Handle e} (hs : t.size ≤ h.index) :
    t.get? h = none := by
  simpa [get?, size] using hs

/-- A table that is cut back to the size of an earlier one, and whose things are changed back
into what they were, is the earlier one. -/
theorem mapWithIndex_take_size {t u : Table e α} {f : Nat → α → α}
    (h : ∀ {k a}, t.get? k = some a → ∃ b, u.get? k = some b ∧ f k.index b = a) :
    (u.take t.size).mapWithIndex f = t := by
  refine ext_get? fun k => ?_
  rw [get?_mapWithIndex, get?_take]
  split
  · obtain ⟨a, ha⟩ := exists_get? ‹_›
    obtain ⟨b, hb, back⟩ := h ha
    rw [ha, hb, Option.map_some, back]
  · exact (get?_eq_none_of_size_le (Nat.le_of_not_lt ‹_›)).symm

theorem mapWithIndex_self (t : Table e α) : t.mapWithIndex (fun _ a => a) = t :=
  ext_get? fun k => by rw [get?_mapWithIndex, Option.map_id']

/-- A table in which the handles of an earlier one stand for what they stood for is cut back to
that one. -/
theorem take_size_of_get? {t u : Table e α}
    (h : ∀ {k a}, t.get? k = some a → u.get? k = some a) : u.take t.size = t := by
  rw [← mapWithIndex_self (u.take t.size)]
  exact mapWithIndex_take_size fun ha => ⟨_, h ha, rfl⟩

/-- What a handle stands for is the thing that was put in last, or was there before. -/
theorem get?_push_cases {t : Table e α} {a b : α} {h : Handle e}
    (hb : (t.push a).get? h = some b) : t.get? h = some b ∨ b = a ∧ h = t.nextId := by
  rw [get?_push] at hb
  split at hb
  · rename_i hi
    refine Or.inr ⟨(Option.some.inj hb).symm, ?_⟩
    obtain ⟨i⟩ := h
    exact congrArg Handle.mk hi
  · exact Or.inl hb

/-- What a handle stands for is the thing that was changed, or is as before. -/
theorem get?_modify_cases {t : Table e α} {h k : Handle e} {f : α → α} {b : α}
    (hb : (t.modify h f).get? k = some b) :
    t.get? k = some b ∨ h = k ∧ ∃ a, t.get? k = some a ∧ b = f a := by
  rw [get?_modify] at hb
  split at hb
  · obtain ⟨a, ha, rfl⟩ := Option.map_eq_some_iff.1 hb
    exact Or.inr ⟨‹_›, a, ha, rfl⟩
  · exact Or.inl hb

/-- What a change leaves alone is left alone in the whole table. -/
theorem map_items_modify (t : Table e α) (h : Handle e) {f : α → α} {g : α → β}
    (hg : ∀ a, g (f a) = g a) : (t.modify h f).items.map g = t.items.map g := by
  refine Array.ext (by simp [modify]) fun i _ _ => ?_
  simp only [modify, Array.getElem_map, Array.getElem_modify]
  split
  · exact hg _
  · rfl

/-- The newest thing can as well be changed before it is put in. -/
theorem modify_push_nextId (t : Table e α) (a : α) (f : α → α) :
    (t.push a).modify t.nextId f = t.push (f a) := by
  refine ext_get? fun k => ?_
  rw [get?_modify, get?_push, get?_push]
  split
  · rename_i hk
    subst hk
    simp [nextId]
  · rename_i hk
    have : k.index ≠ t.size := fun h => hk (by cases k; exact congrArg Handle.mk h.symm)
    rw [if_neg this, if_neg this]

end Table

end Netlist
