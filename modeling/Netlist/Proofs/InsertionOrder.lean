-- What a caller sees of a map from names. Each call is answered from the list of entries
-- alone: a name that is there has its value replaced where it stands, a new one comes last,
-- and a cut keeps the front. The index only finds places in this list, so it never shows.
import Mathlib.Data.List.Forall2
import Netlist.NameMap

namespace Netlist

namespace NameMap

variable {α β : Type}

/-! ## Calls -/

/-- One call that may change a map. A caller that tries a name gets hold of the value that is
stored, and changes it by `change` before it lets go, which is before the next call. -/
inductive Call (α : Type) where
  | insert (n : Name) (a : α)
  | tryInsert (n : Name) (a : α) (change : α → α)
  | take (size : Nat)
  | ofList (entries : List (Name × α))

/-- What a call hands back: the value from before, the stored value to hold, the value that was
not taken, or nothing. -/
inductive Reply (α : Type) where
  | old (a : Option α)
  | held (a : Option α)
  | refused (a : α)
  | done
  deriving DecidableEq

/-- A call on a map. -/
def serve (m : NameMap α) : Call α → Reply α × NameMap α
  | .insert n a => (.old (m.insert n a).1, (m.insert n a).2)
  | .tryInsert n a change =>
    match m.tryInsert? n a with
    | some k => (.held (k.get? n), k.modify n change)
    | none => (.refused a, m)
  | .take size => (.done, m.take size)
  | .ofList entries => (.done, ofList entries)

/-- The same call on nothing but a list of entries. -/
def serveList (l : List (Name × α)) : Call α → Reply α × List (Name × α)
  | .insert n a => (.old (Assoc.get? n l), Assoc.set n a l)
  | .tryInsert n a change =>
    if n ∈ Assoc.keys l then (.refused a, l) else (.held (some a), l ++ [(n, change a)])
  | .take size => (.done, l.take (min size l.length))
  | .ofList entries => (.done, Assoc.setAll [] entries)

/-- Serves calls one after another, and collects the replies. -/
def serveAll {σ : Type} (serve : σ → Call α → Reply α × σ) (s : σ) :
    List (Call α) → List (Reply α) × σ
  | [] => ([], s)
  | c :: rest =>
    let later := serveAll serve (serve s c).2 rest
    ((serve s c).1 :: later.1, later.2)

/-- Calls on a map that is empty at first. -/
def run (calls : List (Call α)) : List (Reply α) × NameMap α := serveAll serve ∅ calls

/-- The same calls on a list that is empty at first. -/
def runList (calls : List (Call α)) : List (Reply α) × List (Name × α) :=
  serveAll serveList [] calls

/-! ## What a map shows -/

/-- A map shows these entries: whatever is read of it is read off the list. The index leads from
each name to its place in the list and nowhere else, so never past the end. -/
structure Shows (m : NameMap α) (l : List (Name × α)) : Prop where
  index : ∀ (n : Name) (i : Nat), m.index[n]? = some i ↔ (Assoc.keys l)[i]? = some n
  slot_lt : ∀ (n : Name) (slot : Nat), m.index[n]? = some slot → slot < m.entries.size
  nodup : (Assoc.keys l).Nodup
  toList : m.toList = l
  names : m.names = Assoc.keys l
  values : m.values = l.map (·.2)
  size : m.size = l.length
  isEmpty : m.isEmpty = l.isEmpty
  get? : ∀ n, m.get? n = Assoc.get? n l
  contains : ∀ n, m.contains n = true ↔ n ∈ Assoc.keys l

variable {m : NameMap α} {k : NameMap β}

theorem Consistent.shows (h : m.Consistent) : m.Shows m.toList where
  index := h
  slot_lt n slot found := by
    have there := (List.getElem?_eq_some_iff.1 ((h n slot).1 found)).1
    rwa [NameMap.names, List.length_map, length_toList] at there
  nodup := h.nodup
  toList := rfl
  names := rfl
  values := rfl
  size := (length_toList m).symm
  isEmpty := Array.isEmpty_toList.symm
  get? := h.get?_eq
  contains := h.contains_iff

/-! ## Equality -/

/-- Entries with the same names in the same order, and values of which `same` holds. -/
def SameEntries (same : α → β → Bool) (l : List (Name × α)) (l' : List (Name × β)) : Prop :=
  List.Forall₂ (fun e f => e.1 = f.1 ∧ same e.2 f.2 = true) l l'

/-- Equality of both parts of two maps, up to what makes values equal. -/
def EqualBy (same : α → β → Bool) (m : NameMap α) (k : NameMap β) : Prop :=
  SameEntries same m.toList k.toList ∧ m.index = k.index

theorem agree_iff {same : α → β → Bool} :
    m.agree same k = true ↔ SameEntries same m.toList k.toList := by
  rw [SameEntries, List.forall₂_iff_zip, length_toList, length_toList]
  simp [agree]

theorem SameEntries.keys_eq {same : α → β → Bool} {l : List (Name × α)} {l' : List (Name × β)}
    (h : SameEntries same l l') : Assoc.keys l = Assoc.keys l' := by
  induction h with
  | nil => rfl
  | cons first _ ih => exact congrArg₂ List.cons first.1 ih

/-- The index of a consistent map adds nothing to its entries. -/
theorem Consistent.equalBy_iff (h : m.Consistent) (hk : k.Consistent) {same : α → β → Bool} :
    EqualBy same m k ↔ SameEntries same m.toList k.toList :=
  ⟨And.left, fun entries => ⟨entries, h.index_eq hk entries.keys_eq⟩⟩

/-! ## One call -/

/-- A map that is consistent stays so, and a call on its list of entries has the same reply and
leaves the entries that the map has then. -/
theorem Consistent.serve (h : m.Consistent) (c : Call α) : (m.serve c).2.Consistent ∧
    serveList m.toList c = ((m.serve c).1, (m.serve c).2.toList) := by
  cases c with
  | insert n a =>
    refine ⟨h.insert n a, ?_⟩
    rw [serveList, NameMap.serve, h.old_insert, h.toList_insert]
  | tryInsert n a change =>
    cases taken : m.contains n with
    | true =>
      have there : n ∈ Assoc.keys m.toList := (h.contains_iff n).1 taken
      rw [NameMap.serve, NameMap.tryInsert?, if_pos taken, serveList, if_pos there]
      exact ⟨h, rfl⟩
    | false =>
      have new : n ∉ Assoc.keys m.toList := (h.contains_eq_false_iff n).1 taken
      rw [NameMap.serve, NameMap.tryInsert?, if_neg (by simp [taken]), serveList, if_neg new]
      dsimp only
      -- The value that is held is that of the last entry, and no other is changed.
      rw [h.get?_append_self taken, modify_append, toList_append]
      exact ⟨h.append taken (change a), rfl⟩
  | take size =>
    refine ⟨h.take size, ?_⟩
    rw [serveList, NameMap.serve, toList_take, ← List.take_eq_take_min]
  | ofList entries =>
    refine ⟨consistent_ofList entries, ?_⟩
    rw [serveList, NameMap.serve, toList_ofList]

/-! ## All calls -/

/-- The same for calls one after another: each leaves a consistent map for the next one. -/
theorem Consistent.serveAll (h : m.Consistent) (calls : List (Call α)) :
    (NameMap.serveAll NameMap.serve m calls).2.Consistent ∧
    NameMap.serveAll serveList m.toList calls =
      ((NameMap.serveAll NameMap.serve m calls).1,
        (NameMap.serveAll NameMap.serve m calls).2.toList) := by
  induction calls generalizing m with
  | nil => exact ⟨h, rfl⟩
  | cons c rest ih =>
    obtain ⟨consistent, served⟩ := h.serve c
    obtain ⟨consistent, later⟩ := ih consistent
    refine ⟨consistent, ?_⟩
    rw [NameMap.serveAll, served]
    dsimp only
    rw [later]
    rfl

theorem consistent_run (calls : List (Call α)) : (run calls).2.Consistent :=
  (consistent_empty.serveAll calls).1

theorem runList_eq (calls : List (Call α)) :
    runList calls = ((run calls).1, (run calls).2.toList) :=
  (consistent_empty.serveAll calls).2

/-- Whatever calls were made so far, they had the replies of the list of entries, and the map
shows this list. Two such maps are equal exactly when their entries are, one after another, so
to compare the entries alone is enough. -/
theorem run_refines_entries (calls others : List (Call α)) :
    (run calls).1 = (runList calls).1 ∧ (run calls).2.Shows (runList calls).2 ∧
    ((run calls).2 = (run others).2 ↔ (runList calls).2 = (runList others).2) ∧
    ∀ same : α → α → Bool,
      (EqualBy same (run calls).2 (run others).2 ↔
        SameEntries same (runList calls).2 (runList others).2) ∧
      ((run calls).2.agree same (run others).2 = true ↔
        EqualBy same (run calls).2 (run others).2) := by
  have here := consistent_run calls
  have there := consistent_run others
  rw [runList_eq calls, runList_eq others]
  refine ⟨rfl, here.shows, ⟨congrArg toList, here.ext there⟩, fun same => ⟨?_, ?_⟩⟩
  · exact here.equalBy_iff there
  · rw [agree_iff, here.equalBy_iff there]

/-- A name that is there keeps its place, and one that was cut off comes last again. -/
example :
    let calls : List (Call Int) := [.insert ⟨3⟩ 30, .insert ⟨1⟩ 10, .tryInsert ⟨2⟩ 20 (· + 5),
      .insert ⟨3⟩ 31, .tryInsert ⟨2⟩ 21 (· + 5), .take 1, .insert ⟨2⟩ 22, .insert ⟨1⟩ 12]
    (run calls).1 = [.old none, .old none, .held (some 20), .old (some 30), .refused 21, .done,
      .old none, .old none] ∧
    (run calls).2.toList = [(⟨3⟩, 31), (⟨2⟩, 22), (⟨1⟩, 12)] := by
  decide +kernel

end NameMap

end Netlist
