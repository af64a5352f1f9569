-- Tables in which each thing stands once. A thing gets its number the first time it is
-- met and keeps it for good, so equal things have equal numbers and are compared as
-- numbers. The laws: a consistent pool stays consistent, and numbers keep their meaning.
import Netlist.Table

namespace Netlist

/-- The things by number, and the number of each thing. -/
structure Pool (e : Entity) (α : Type) [Ord α] [Std.TransOrd α] where
  items : Table e α
  index : Std.ExtTreeMap α (Handle e)

namespace Pool

variable {e : Entity} {α : Type} [Ord α] [Std.TransOrd α]

def empty : Pool e α := ⟨.empty, ∅⟩

instance : EmptyCollection (Pool e α) := ⟨empty⟩

instance : Inhabited (Pool e α) := ⟨empty⟩

def size (p : Pool e α) : Nat := p.items.size

def isEmpty (p : Pool e α) : Bool := p.items.isEmpty

/-- The number of a thing that was met before. -/
def find? (p : Pool e α) (a : α) : Option (Handle e) := p.index[a]?

/-- The thing that a number stands for. -/
def get? (p : Pool e α) (h : Handle e) : Option α := p.items.get? h

/-- Puts a thing at the end. It must not be there yet. -/
def append (p : Pool e α) (a : α) : Pool e α :=
  ⟨p.items.push a, p.index.insert a p.items.nextId⟩

/-- The number of a thing, which gets the next free one if it is new. -/
def intern (p : Pool e α) (a : α) : Handle e × Pool e α :=
  match p.find? a with
  | some h => (h, p)
  | none => (p.items.nextId, p.append a)

/-- Keeps the first `n` things, and forgets the numbers of the others. -/
def take (p : Pool e α) (n : Nat) : Pool e α :=
  ⟨p.items.take n, p.index.filter fun _ h => h.index < n⟩

/-! ## What stands under a number -/

variable {p : Pool e α}

theorem get?_append (p : Pool e α) (a : α) (h : Handle e) :
    (p.append a).get? h = if h.index = p.size then some a else p.get? h :=
  Table.get?_push p.items a h

theorem get?_take (p : Pool e α) (n : Nat) (h : Handle e) :
    (p.take n).get? h = if h.index < n then p.get? h else none :=
  Table.get?_take p.items n h

theorem get?_eq_none_of_size_le {h : Handle e} (hs : p.size ≤ h.index) : p.get? h = none :=
  Table.get?_eq_none_of_size_le hs

/-- A number that stands for a thing goes on to stand for it. -/
theorem get?_intern_of_get? {a b : α} {h : Handle e} (hb : p.get? h = some b) :
    (p.intern a).2.get? h = some b := by
  unfold intern
  split
  · exact hb
  · have hs : h.index < p.size := by
      rw [size, ← Table.isSome_get?_iff]
      exact Option.isSome_of_eq_some hb
    rw [get?_append, if_neg (by omega), hb]

/-- A number stands for what it stood for, or for the thing that just came. -/
theorem get?_intern_cases {a b : α} {h : Handle e} (hb : (p.intern a).2.get? h = some b) :
    p.get? h = some b ∨ b = a ∧ h = p.items.nextId := by
  unfold intern at hb
  split at hb
  · exact Or.inl hb
  · exact Table.get?_push_cases hb

/-- What is there already is found, and nothing is added. -/
theorem intern_of_find? {a : α} {h : Handle e} (ha : p.find? a = some h) :
    p.intern a = (h, p) := by
  simp [intern, ha]

theorem size_le_size_intern (p : Pool e α) (a : α) : p.size ≤ (p.intern a).2.size := by
  unfold intern
  split
  · exact Nat.le_refl _
  · simp [append, size]

/-! ## Consistent pools -/

/-- The index maps each thing to its position, and nothing else. -/
def Consistent (p : Pool e α) : Prop :=
  ∀ (a : α) (h : Handle e), p.find? a = some h ↔ p.get? h = some a

theorem consistent_empty : (empty : Pool e α).Consistent := by
  intro a h
  simp [empty, find?, get?, Table.get?, Table.empty]

/-- No thing stands under two numbers. -/
theorem Consistent.get?_injective (hp : p.Consistent) {a : α} {h k : Handle e}
    (hh : p.get? h = some a) (hk : p.get? k = some a) : h = k := by
  have := (hp a h).2 hh
  rw [(hp a k).2 hk] at this
  exact (Option.some.inj this).symm

/-- The number just given stands for its thing. -/
theorem Consistent.get?_intern (hp : p.Consistent) (a : α) :
    (p.intern a).2.get? (p.intern a).1 = some a := by
  unfold Pool.intern
  split
  · rename_i h ha
    exact (hp a h).1 ha
  · exact (get?_append p a _).trans (if_pos rfl)

theorem find?_take (p : Pool e α) (n : Nat) (a : α) :
    (p.take n).find? a = (p.find? a).filter fun h => h.index < n := by
  simp [find?, take, Std.ExtTreeMap.getElem?_filter]

theorem Consistent.take (hp : p.Consistent) (n : Nat) : (p.take n).Consistent := by
  intro a h
  rw [find?_take, get?_take, Option.filter_eq_some_iff, hp a h]
  by_cases hn : h.index < n <;> simp [hn]

variable [Std.LawfulEqOrd α]

/-- The index of a consistent pool follows from its things. -/
theorem Consistent.ext {q : Pool e α} (hp : p.Consistent) (hq : q.Consistent)
    (h : ∀ k, p.get? k = q.get? k) : p = q := by
  have items : p.items = q.items := Table.ext_get? h
  have index : p.index = q.index := by
    refine Std.ExtTreeMap.ext_getElem? fun a => Option.ext fun k => ?_
    rw [← find?, ← find?, hp a k, hq a k, h k]
  obtain ⟨_, _⟩ := p
  obtain ⟨_, _⟩ := q
  cases items
  cases index
  rfl

/-- A pool in which the numbers of an earlier one stand for what they stood for is cut back to
that one. -/
theorem Consistent.take_size_of_get? {q : Pool e α} (hp : p.Consistent) (hq : q.Consistent)
    (h : ∀ {k a}, p.get? k = some a → q.get? k = some a) : q.take p.size = p := by
  have items : (q.take p.size).items = p.items := Table.take_size_of_get? h
  exact (hq.take _).ext hp fun k => congrArg (Table.get? · k) items

variable [DecidableEq α]

theorem find?_append (p : Pool e α) (a b : α) :
    (p.append a).find? b = if a = b then some p.items.nextId else p.find? b := by
  simp only [find?, append, Std.ExtTreeMap.getElem?_insert, Std.LawfulEqOrd.compare_eq_iff_eq]

theorem Consistent.append (hp : p.Consistent) {a : α} (fresh : p.find? a = none) :
    (p.append a).Consistent := by
  intro b h
  have hn : p.get? h ≠ some a := fun hh => by
    rw [(hp a h).2 hh] at fresh
    cases fresh
  rw [find?_append, get?_append]
  by_cases hb : a = b
  · subst hb
    rw [if_pos rfl, Option.some.injEq]
    constructor
    · rintro rfl
      exact if_pos rfl
    · intro hh
      split at hh
      · rename_i hi
        obtain ⟨i⟩ := h
        exact congrArg Handle.mk hi.symm
      · exact absurd hh hn
  · rw [if_neg hb, hp b h]
    split
    · rename_i hi
      simp [get?_eq_none_of_size_le (Nat.le_of_eq hi.symm), hb]
    · rfl

theorem Consistent.intern (hp : p.Consistent) (a : α) : (p.intern a).2.Consistent := by
  unfold Pool.intern
  split
  · exact hp
  · rename_i fresh
    exact hp.append fresh

end Pool

/-! ## Names -/

/-- The strings met so far. The number of a string is a name. -/
abbrev NameTable := Pool .name String

/-- The string that a name stands for. -/
abbrev NameTable.text? (t : NameTable) (n : Name) : Option String := t.get? n

end Netlist
