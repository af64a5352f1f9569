-- Growth of designs. A step of building never changes what was there before: it puts
-- more in the tables, or gives a module the definition that it lacks. So a restore
-- finds the old design again, and only the names that came in between stay.
import Netlist.Definition.Build
import Netlist.Design.Snapshot

namespace Netlist

/-! ## What stays as it is -/

/-- The symbols of a namespace stay where they are, and new ones come behind them. -/
structure Namespace.Grows (ns ns' : Namespace) : Prop where
  id : ns'.id = ns.id
  name : ns'.name = ns.name
  modules : ns.modules.toList <+: ns'.modules.toList
  generators : ns.generators.toList <+: ns'.generators.toList

/-- A module stays as it is, except that it may get a definition if it has none. -/
def Module.Grows (m m' : Module) : Prop :=
  m' = m ∨ m.definition = none ∧ m' = { m with definition := m'.definition }

namespace Design

/-- Everything that stands for something goes on to stand for it. -/
structure Grows (c d : Design) : Prop where
  names : ∀ {n s}, c.names.get? n = some s → d.names.get? n = some s
  types : ∀ {id t}, c.types.get? id = some t → d.types.get? id = some t
  namespaces : ∀ {id ns}, c.namespaces.get? id = some ns →
    ∃ ns', d.namespaces.get? id = some ns' ∧ ns.Grows ns'
  modules : ∀ {id m}, c.modules.get? id = some m →
    ∃ m', d.modules.get? id = some m' ∧ m.Grows m'
  generators : ∀ {id g}, c.generators.get? id = some g → d.generators.get? id = some g

/-- Every index agrees with its table, and the leaf types are there. No call can break
this, whatever handles it is given. -/
structure Regular (d : Design) : Prop where
  names : d.names.Consistent
  types : d.types.Consistent
  leaves : TypeTable.leafCount ≤ d.types.size
  scopes : ∀ n id, d.scopes[n]? = some id ↔ ∃ ns, d.namespaces.get? id = some ns ∧ ns.name = n
  modules : ∀ {id ns}, d.namespaces.get? id = some ns → ns.modules.Consistent
  generators : ∀ {id ns}, d.namespaces.get? id = some ns → ns.generators.Consistent

theorem regular_empty : Design.empty.Regular where
  names := Pool.consistent_empty.intern _
  types := TypeTable.consistent_leaves
  leaves := by decide +kernel
  scopes n id := by simp [empty]
  modules h := by simp [empty] at h
  generators h := by simp [empty] at h

end Design

theorem Namespace.Grows.refl (ns : Namespace) : ns.Grows ns :=
  ⟨rfl, rfl, List.prefix_refl _, List.prefix_refl _⟩

theorem Namespace.Grows.trans {a b c : Namespace} (h : a.Grows b) (k : b.Grows c) : a.Grows c :=
  ⟨k.id.trans h.id, k.name.trans h.name, h.modules.trans k.modules, h.generators.trans k.generators⟩

theorem Module.Grows.refl (m : Module) : m.Grows m := Or.inl rfl

theorem Module.Grows.trans {a b c : Module} (h : a.Grows b) (k : b.Grows c) : a.Grows c := by
  rcases h with rfl | ⟨hn, hb⟩
  · exact k
  · rcases k with rfl | ⟨_, hc⟩
    · exact Or.inr ⟨hn, hb⟩
    · refine Or.inr ⟨hn, ?_⟩
      rw [hc, hb]

namespace Design

variable {b c d : Design}

theorem Grows.refl (d : Design) : d.Grows d where
  names := id
  types := id
  namespaces {_ ns} h := ⟨ns, h, .refl ns⟩
  modules {_ m} h := ⟨m, h, .refl m⟩
  generators := id

theorem Grows.trans (h : b.Grows c) (k : c.Grows d) : b.Grows d where
  names hn := k.names (h.names hn)
  types ht := k.types (h.types ht)
  namespaces hns := by
    obtain ⟨_, hc, g⟩ := h.namespaces hns
    obtain ⟨ns, hd, g'⟩ := k.namespaces hc
    exact ⟨ns, hd, g.trans g'⟩
  modules hm := by
    obtain ⟨_, hc, g⟩ := h.modules hm
    obtain ⟨m, hd, g'⟩ := k.modules hc
    exact ⟨m, hd, g.trans g'⟩
  generators hg := k.generators (h.generators hg)

/-! ## Restoring -/

theorem symbols_snapshot (c : Design) (i : Nat) :
    c.snapshot.symbols[i]? =
      (c.namespaces.get? ⟨i⟩).map fun ns => (ns.modules.size, ns.generators.size) := by
  simp [snapshot, Table.get?]

theorem defined_snapshot (c : Design) (i : Nat) :
    c.snapshot.defined[i]? = (c.modules.get? ⟨i⟩).map fun m => m.definition.isSome := by
  simp [snapshot, Table.get?]

/-- The first entries of a grown map are the old map. -/
theorem take_eq_of_prefix {α : Type} {m k : NameMap α} (hm : m.Consistent) (hk : k.Consistent)
    (h : m.toList <+: k.toList) : k.take m.size = m := by
  refine (hk.take _).ext hm ?_
  rw [NameMap.toList_take, ← NameMap.length_toList]
  exact (List.prefix_iff_eq_take.1 h).symm

theorem restoreNamespace_snapshot {id : NamespaceId} {ns ns' : Namespace} (hc : c.Regular)
    (hd : d.Regular) (h : c.namespaces.get? id = some ns) (h' : d.namespaces.get? id = some ns')
    (g : ns.Grows ns') : restoreNamespace c.snapshot id.index ns' = ns := by
  rw [restoreNamespace, symbols_snapshot, h]
  obtain ⟨_, _, _, _⟩ := ns
  obtain ⟨_, _, _, _⟩ := ns'
  obtain ⟨rfl, rfl, hm, hg⟩ := g
  simp only [Option.map_some, take_eq_of_prefix (hc.modules h) (hd.modules h') hm,
    take_eq_of_prefix (hc.generators h) (hd.generators h') hg]

theorem restoreModule_snapshot {id : ModuleId} {m m' : Module}
    (h : c.modules.get? id = some m) (g : m.Grows m') :
    restoreModule c.snapshot id.index m' = m := by
  rw [restoreModule, defined_snapshot, h]
  rcases g with rfl | ⟨hn, hm⟩
  · cases hdef : m'.definition with
    | none =>
      obtain ⟨_, _, _, _, _, _, _⟩ := m'
      cases hdef
      rfl
    | some _ => simp [hdef]
  · rw [hm]
    obtain ⟨_, _, _, _, _, _, _⟩ := m
    cases hn
    rfl

/-- The old namespaces are found by their names again, and no other one is. -/
theorem Grows.scopes_filter (hc : c.Regular) (hd : d.Regular) (h : c.Grows d) :
    d.scopes.filter (fun _ id => id.index < c.namespaces.size) = c.scopes := by
  refine Std.ExtTreeMap.ext_getElem? fun n => Option.ext fun id => ?_
  rw [Std.ExtTreeMap.getElem?_filter, Option.pfilter_eq_filter, Option.filter_eq_some_iff,
    hd.scopes, hc.scopes]
  constructor
  · rintro ⟨⟨ns', hns', rfl⟩, hlt⟩
    obtain ⟨ns, hns⟩ := Table.exists_get? (t := c.namespaces) (of_decide_eq_true hlt)
    obtain ⟨ns'', hns'', g⟩ := h.namespaces hns
    rw [hns'] at hns''
    cases hns''
    exact ⟨ns, hns, g.name.symm⟩
  · rintro ⟨ns, hns, rfl⟩
    obtain ⟨ns', hns', g⟩ := h.namespaces hns
    exact ⟨⟨ns', hns', g.name⟩, decide_eq_true (Table.index_lt_of_get? hns)⟩

/-- A restore finds the design of the snapshot again, with the names that came since. -/
theorem restore_snapshot (hc : c.Regular) (hd : d.Regular) (h : c.Grows d) :
    d.restore c.snapshot = { c with names := d.names } := by
  have types : d.types.keep c.types.size = c.types := by
    rw [TypeTable.keep, Nat.max_eq_left hc.leaves]
    exact hc.types.take_size_of_get? hd.types h.types
  have namespaces : (d.namespaces.take c.namespaces.size).mapWithIndex
      (restoreNamespace c.snapshot) = c.namespaces := by
    refine Table.mapWithIndex_take_size fun hns => ?_
    obtain ⟨ns', hns', g⟩ := h.namespaces hns
    exact ⟨ns', hns', restoreNamespace_snapshot hc hd hns hns' g⟩
  have modules : (d.modules.take c.modules.size).mapWithIndex (restoreModule c.snapshot) =
      c.modules := by
    refine Table.mapWithIndex_take_size fun hm => ?_
    obtain ⟨m', hm', g⟩ := h.modules hm
    exact ⟨m', hm', restoreModule_snapshot hm g⟩
  have generators : d.generators.take c.generators.size = c.generators :=
    Table.take_size_of_get? h.generators
  unfold restore
  rw [show c.snapshot.types = c.types.size from rfl, show c.snapshot.modules = c.modules.size from rfl,
    show c.snapshot.generators = c.generators.size from rfl,
    show c.snapshot.namespaces = c.namespaces.size from rfl,
    types, modules, generators, namespaces, h.scopes_filter hc hd]

end Design

end Netlist
