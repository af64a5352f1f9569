-- Every step of building keeps a design sound, if what it is given is sound: a type of
-- types that are there, parameters with names that are there, a definition that was
-- checked. A restore gives back a sound design.
import Netlist.Proofs.Sound

namespace Netlist

namespace Design

variable {c d : Design}

theorem sound_empty : Design.empty.Sound where
  toRegular := regular_empty
  self := Pool.consistent_empty.get?_intern _
  any := TypeTable.get?_leaves.1
  bitIn := TypeTable.get?_leaves.2.1
  bitOut := TypeTable.get?_leaves.2.2
  typeSound {id w} h := by
    rcases Pool.get?_intern_cases h with h | ⟨rfl, -⟩
    · rcases Pool.get?_intern_cases h with h | ⟨rfl, -⟩
      · rcases Pool.get?_intern_cases h with h | ⟨rfl, -⟩
        · simp [Pool.get?, Pool.empty] at h
        · trivial
      · trivial
    · trivial
  namespaceSound h := by simp [empty] at h
  moduleSound h := by simp [empty] at h
  generatorSound h := by simp [empty] at h

/-! ## Names and types -/

theorem Sound.withName (h : d.Sound) (s : String) : (d.withName s).Sound :=
  h.of_keeps (h.toRegular.withName s) (d.grows_withName s).keeps Or.inl Or.inl Or.inl Or.inl

theorem Sound.text_withName (h : d.Sound) (s : String) :
    (d.withName s).text? (d.names.intern s).1 = some s :=
  h.names.get?_intern s

theorem Sound.withType (h : d.Sound) {w : WireType} (hw : w.Sound d d.types.items.nextId) :
    (d.withType w).Sound := by
  have grows := (d.grows_withType w).keeps
  refine h.of_keeps (h.toRegular.withType w) grows ?_ Or.inl Or.inl Or.inl
  intro id v hv
  rcases Pool.get?_intern_cases hv with hv | ⟨rfl, rfl⟩
  · exact Or.inl hv
  · exact Or.inr (hw.keep grows)

theorem Sound.type_withType (h : d.Sound) (w : WireType) :
    (d.withType w).types.get? (d.types.intern w).1 = some w :=
  h.types.get?_intern w

/-- A type of the design comes before every type that is still to come. -/
theorem index_lt_nextId {id : TypeId} (h : (d.types.get? id).isSome) :
    id.index < d.types.items.nextId.index :=
  (Table.isSome_get?_iff _ _).1 h

theorem sound_array {element : TypeId} (h : (d.types.get? element).isSome) {length : Nat}
    (hl : length < UInt32.size) : (WireType.array element length).Sound d d.types.items.nextId :=
  ⟨index_lt_nextId h, hl⟩

theorem sound_record {fields : List (Name × TypeId)} (nodup : (Assoc.keys fields).Nodup)
    (h : ∀ f ∈ fields, (d.text? f.1).isSome ∧ (d.types.get? f.2).isSome) :
    (WireType.record fields).Sound d d.types.items.nextId :=
  ⟨nodup, fun f hf => ⟨(h f hf).1, index_lt_nextId (h f hf).2⟩⟩

/-! ## Namespaces and declarations -/

/-- A namespace that lists nothing is sound, if its name has a text. -/
theorem namespace_new {id : NamespaceId} {n : Name} (text : (d.text? n).isSome) :
    Namespace.Sound d id ⟨id, n, ∅, ∅⟩ := by
  refine ⟨rfl, text, ?_, ?_, ?_⟩
  · intro e he
    cases he
  · intro e he
    cases he
  · intro k hk
    cases hk

theorem Sound.addNamespace (h : d.Sound) {n : Name} (fresh : d.scopes[n]? = none)
    (text : (d.text? n).isSome) : (d.addNamespace n).Sound := by
  have grows := (grows_addNamespace d n).keeps
  refine h.of_keeps (h.toRegular.addNamespace fresh) grows Or.inl ?_ Or.inl Or.inl
  intro id ns hns
  rcases Table.get?_push_cases hns with hns | ⟨rfl, rfl⟩
  · exact Or.inl hns
  · exact Or.inr (namespace_new (grows.text_isSome text))

/-- A free name is none of those that a namespace lists. -/
theorem Free.not_mem {scope : NamespaceId} {n : Name} (h : d.Free scope n) (hd : d.Regular)
    {ns : Namespace} (hns : d.namespaces.get? scope = some ns) :
    n ∉ ns.modules.names ∧ n ∉ ns.generators.names := by
  obtain ⟨hm, hg⟩ := h.contains hns
  exact ⟨((hd.modules hns).contains_eq_false_iff n).1 hm,
    ((hd.generators hns).contains_eq_false_iff n).1 hg⟩

/-- The namespace that got a module is sound, if the module is there. -/
theorem namespace_addModule (hd : d.Regular) {scope : NamespaceId} {n : Name}
    (free : d.Free scope n) {type : TypeId} {params : Params} {metadata : Metadata}
    {ns : Namespace} (hns : d.namespaces.get? scope = some ns) (h : ns.Sound d scope) :
    (ns.addModule n d.modules.nextId).Sound (d.addModule scope n type params metadata) scope := by
  have old := h.keep (grows_addModule free type params metadata).keeps
  have list : (ns.addModule n d.modules.nextId).modules.toList =
      ns.modules.toList ++ [(n, d.modules.nextId)] := by
    rw [Namespace.addModule, NameMap.insert_of_fresh (free.contains hns).1, NameMap.toList_append]
  refine { old with modules := ?_, apart := ?_ }
  · intro e he
    rw [list, List.mem_append, List.mem_singleton] at he
    rcases he with he | rfl
    · exact old.modules e he
    · exact ⟨_, (Table.get?_push _ _ _).trans (if_pos rfl), rfl, rfl⟩
  · intro k hk
    rw [NameMap.names, list, List.map_append, List.mem_append] at hk
    rcases hk with hk | hk
    · exact old.apart k hk
    · rw [List.mem_singleton.1 hk]
      exact (free.not_mem hd hns).2

/-- A new module is listed in its namespace. -/
theorem Free.listed_addModule {scope : NamespaceId} {n : Name} (free : d.Free scope n)
    (type : TypeId) (params : Params) (metadata : Metadata) :
    ∃ ns, (d.addModule scope n type params metadata).namespaces.get? scope = some ns ∧
      (n, d.modules.nextId) ∈ ns.modules.toList := by
  have ⟨ns, hns, _⟩ := free
  refine ⟨ns.addModule n d.modules.nextId, ?_, ?_⟩
  · rw [Design.addModule, Table.get?_modify, if_pos rfl, hns]
    rfl
  · rw [Namespace.addModule, NameMap.insert_of_fresh (free.contains hns).1, NameMap.toList_append]
    exact List.mem_append_right _ List.mem_cons_self

theorem Sound.addModule (h : d.Sound) {scope : NamespaceId} {n : Name} (free : d.Free scope n)
    (text : (d.text? n).isSome) {type : TypeId} (ht : (d.types.get? type).isSome)
    {params : Params} (hp : NameMap.Sound d params) {metadata : Metadata}
    (hm : metadata.WellFormed) : (d.addModule scope n type params metadata).Sound := by
  have grows := (grows_addModule free type params metadata).keeps
  refine h.of_keeps (h.toRegular.addModule ..) grows Or.inl ?_ ?_ Or.inl
  · intro id ns hns
    rcases Table.get?_modify_cases hns with hns | ⟨rfl, ns', hns', rfl⟩
    · exact Or.inl hns
    · exact Or.inr (namespace_addModule h.toRegular free hns' (h.namespaceSound hns'))
  · intro id m hm'
    rcases Table.get?_push_cases hm' with hm' | ⟨rfl, rfl⟩
    · exact Or.inl hm'
    · refine Or.inr ⟨rfl, text, free.listed_addModule .., ht, hp.keep grows, hm, ?_⟩
      rintro _ ⟨⟩

theorem namespace_addGenerator (hd : d.Regular) {scope : NamespaceId} {n : Name}
    (free : d.Free scope n) {genparams params : Params} {metadata : Metadata}
    {ns : Namespace} (hns : d.namespaces.get? scope = some ns) (h : ns.Sound d scope) :
    (ns.addGenerator n d.generators.nextId).Sound
      (d.addGenerator scope n genparams params metadata) scope := by
  have old := h.keep (grows_addGenerator free genparams params metadata).keeps
  have list : (ns.addGenerator n d.generators.nextId).generators.toList =
      ns.generators.toList ++ [(n, d.generators.nextId)] := by
    rw [Namespace.addGenerator, NameMap.insert_of_fresh (free.contains hns).2,
      NameMap.toList_append]
  refine { old with generators := ?_, apart := ?_ }
  · intro e he
    rw [list, List.mem_append, List.mem_singleton] at he
    rcases he with he | rfl
    · exact old.generators e he
    · exact ⟨_, (Table.get?_push _ _ _).trans (if_pos rfl), rfl, rfl⟩
  · intro k hk hk'
    rw [NameMap.names, list, List.map_append, List.mem_append] at hk'
    rcases hk' with hk' | hk'
    · exact old.apart k hk hk'
    · rw [List.mem_singleton.1 hk'] at hk
      exact (free.not_mem hd hns).1 hk

theorem Free.listed_addGenerator {scope : NamespaceId} {n : Name} (free : d.Free scope n)
    (genparams params : Params) (metadata : Metadata) :
    ∃ ns, (d.addGenerator scope n genparams params metadata).namespaces.get? scope = some ns ∧
      (n, d.generators.nextId) ∈ ns.generators.toList := by
  have ⟨ns, hns, _⟩ := free
  refine ⟨ns.addGenerator n d.generators.nextId, ?_, ?_⟩
  · rw [Design.addGenerator, Table.get?_modify, if_pos rfl, hns]
    rfl
  · rw [Namespace.addGenerator, NameMap.insert_of_fresh (free.contains hns).2,
      NameMap.toList_append]
    exact List.mem_append_right _ List.mem_cons_self

theorem Sound.addGenerator (h : d.Sound) {scope : NamespaceId} {n : Name} (free : d.Free scope n)
    (text : (d.text? n).isSome) {genparams params : Params} (hg : NameMap.Sound d genparams)
    (hp : NameMap.Sound d params) {metadata : Metadata} (hm : metadata.WellFormed) :
    (d.addGenerator scope n genparams params metadata).Sound := by
  have grows := (grows_addGenerator free genparams params metadata).keeps
  refine h.of_keeps (h.toRegular.addGenerator ..) grows Or.inl ?_ Or.inl ?_
  · intro id ns hns
    rcases Table.get?_modify_cases hns with hns | ⟨rfl, ns', hns', rfl⟩
    · exact Or.inl hns
    · exact Or.inr (namespace_addGenerator h.toRegular free hns' (h.namespaceSound hns'))
  · intro id g hg'
    rcases Table.get?_push_cases hg' with hg' | ⟨rfl, rfl⟩
    · exact Or.inl hg'
    · exact Or.inr ⟨rfl, text, free.listed_addGenerator .., hg.keep grows, hp.keep grows, hm⟩

/-! ## Definitions and metadata -/

/-- A module may be replaced by a sound one of the same name, namespace and parameters. -/
theorem Sound.modifyModule (h : d.Sound) (id : ModuleId) {f : Module → Module}
    (same : ∀ m, (f m).name = m.name ∧ (f m).scope = m.scope ∧ (f m).params = m.params)
    (sound : ∀ e m, d.Keeps e → d.modules.get? id = some m → m.Sound e id → (f m).Sound e id) :
    { d with modules := d.modules.modify id f }.Sound := by
  have keeps : d.Keeps { d with modules := d.modules.modify id f } :=
    { (Grows.refl d).keeps with
      modules := fun {k m} hm => by
        rw [Table.get?_modify, hm]
        split
        · exact ⟨f m, rfl, same m⟩
        · exact ⟨m, rfl, rfl, rfl, rfl⟩ }
  refine h.of_keeps { h.toRegular with } keeps Or.inl Or.inl ?_ Or.inl
  intro k m hm
  rcases Table.get?_modify_cases hm with hm | ⟨rfl, m', hm', rfl⟩
  · exact Or.inl hm
  · exact Or.inr (sound _ m' keeps hm' ((h.moduleSound hm').keep keeps))

theorem Sound.define (h : d.Sound) {id : ModuleId} {x : Definition} (owner : x.owner = id)
    (hx : x.Sound d) : (d.define id x).Sound :=
  h.modifyModule id (fun _ => ⟨rfl, rfl, rfl⟩) fun _ _ keeps _ hm =>
    { hm with
      definition := fun y hy => by
        cases hy
        exact ⟨owner, hx.keep keeps⟩ }

/-- The design with other metadata for a module. -/
def annotateModule (d : Design) (id : ModuleId) (metadata : Metadata) : Design :=
  { d with modules := d.modules.modify id fun m => { m with metadata } }

/-- The design with other metadata for a generator. -/
def annotateGenerator (d : Design) (id : GeneratorId) (metadata : Metadata) : Design :=
  { d with generators := d.generators.modify id fun g => { g with metadata } }

theorem Sound.annotateModule (h : d.Sound) (id : ModuleId) {metadata : Metadata}
    (hm : metadata.WellFormed) : (d.annotateModule id metadata).Sound :=
  h.modifyModule id (fun _ => ⟨rfl, rfl, rfl⟩) fun _ _ _ _ h => { h with metadata := hm }

theorem keeps_annotateModule (d : Design) (id : ModuleId) (metadata : Metadata) :
    d.Keeps (d.annotateModule id metadata) :=
  { (Grows.refl d).keeps with
    modules := fun {k m} hm => by
      rw [Design.annotateModule, Table.get?_modify, hm]
      split
      · exact ⟨_, rfl, rfl, rfl, rfl⟩
      · exact ⟨m, rfl, rfl, rfl, rfl⟩ }

theorem keeps_annotateGenerator (d : Design) (id : GeneratorId) (metadata : Metadata) :
    d.Keeps (d.annotateGenerator id metadata) :=
  { (Grows.refl d).keeps with
    generators := fun {k g} hg => by
      rw [Design.annotateGenerator, Table.get?_modify, hg]
      split
      · exact ⟨_, rfl, rfl, rfl, rfl, rfl⟩
      · exact ⟨g, rfl, rfl, rfl, rfl, rfl⟩ }

theorem Sound.annotateGenerator (h : d.Sound) (id : GeneratorId) {metadata : Metadata}
    (hm : metadata.WellFormed) : (d.annotateGenerator id metadata).Sound := by
  have keeps := keeps_annotateGenerator d id metadata
  refine h.of_keeps { h.toRegular with } keeps Or.inl Or.inl Or.inl ?_
  intro k g hg
  rcases Table.get?_modify_cases hg with hg | ⟨rfl, g', hg', rfl⟩
  · exact Or.inl hg
  · exact Or.inr { (h.generatorSound hg').keep keeps with metadata := hm }

/-! ## Restoring -/

/-- A restore gives back a sound design, with the names that came since. -/
theorem Sound.restore (h : c.Sound) (hd : d.Sound) (g : c.Grows d) :
    (d.restore c.snapshot).Sound := by
  rw [restore_snapshot h.toRegular hd.toRegular g]
  have keeps : c.Keeps { c with names := d.names } :=
    { (Grows.refl c).keeps with names := g.names }
  exact h.of_keeps { h.toRegular with names := hd.names } keeps Or.inl Or.inl Or.inl Or.inl

end Design

end Netlist
