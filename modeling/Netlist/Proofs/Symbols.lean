-- The symbol table. Whatever is called, and whatever a restore cuts off, each namespace
-- lists exactly the modules and generators that are declared in it, each once and by its
-- own name. So a name stands for what goes by it, and for nothing else.
import Mathlib.Data.List.Nodup
import Netlist.Proofs.Rewind

namespace Netlist

/-! ## Designs whose symbols are listed -/

/-- A module knows its number, and its namespace lists it by its name. -/
structure Module.Listed (d : Design) (id : ModuleId) (m : Module) : Prop where
  id_eq : m.id = id
  name : (d.text? m.name).isSome
  scope : ∃ ns, d.namespaces.get? m.scope = some ns ∧ (m.name, id) ∈ ns.modules.toList

/-- A generator knows its number, and its namespace lists it by its name. -/
structure Generator.Listed (d : Design) (id : GeneratorId) (g : Generator) : Prop where
  id_eq : g.id = id
  name : (d.text? g.name).isSome
  scope : ∃ ns, d.namespaces.get? g.scope = some ns ∧ (g.name, id) ∈ ns.generators.toList

/-- Modules and generators are listed, and namespaces list nothing else. -/
structure Design.Listed (d : Design) : Prop extends d.Regular where
  namespaceListed : ∀ {id ns}, d.namespaces.get? id = some ns → ns.Sound d id
  moduleListed : ∀ {id m}, d.modules.get? id = some m → m.Listed d id
  generatorListed : ∀ {id g}, d.generators.get? id = some g → g.Listed d id

section

variable {c d : Design}

theorem Module.Listed.keep {id : ModuleId} {m : Module} (h : m.Listed c id) (k : c.Keeps d) :
    m.Listed d id where
  id_eq := h.id_eq
  name := k.text_isSome h.name
  scope := k.listed_module h.scope

theorem Generator.Listed.keep {id : GeneratorId} {g : Generator} (h : g.Listed c id)
    (k : c.Keeps d) : g.Listed d id where
  id_eq := h.id_eq
  name := k.text_isSome h.name
  scope := k.listed_generator h.scope

namespace Design

/-- Symbols stay listed if everything that is not as before is listed by itself. -/
theorem Listed.of_keeps (h : c.Listed) (regular : d.Regular) (k : c.Keeps d)
    (namespaces : ∀ {id ns}, d.namespaces.get? id = some ns →
      c.namespaces.get? id = some ns ∨ ns.Sound d id)
    (modules : ∀ {id m}, d.modules.get? id = some m → c.modules.get? id = some m ∨ m.Listed d id)
    (generators : ∀ {id g}, d.generators.get? id = some g →
      c.generators.get? id = some g ∨ g.Listed d id) : d.Listed :=
  { regular with
    namespaceListed := fun hns =>
      (namespaces hns).elim (fun hns => (h.namespaceListed hns).keep k) id
    moduleListed := fun hm => (modules hm).elim (fun hm => (h.moduleListed hm).keep k) id
    generatorListed := fun hg =>
      (generators hg).elim (fun hg => (h.generatorListed hg).keep k) id }

theorem listed_empty : Design.empty.Listed :=
  { regular_empty with
    namespaceListed := fun h => by simp [empty] at h
    moduleListed := fun h => by simp [empty] at h
    generatorListed := fun h => by simp [empty] at h }

/-! ## What keeps symbols listed -/

theorem Listed.withName (h : d.Listed) (s : String) : (d.withName s).Listed :=
  h.of_keeps (h.toRegular.withName s) (d.grows_withName s).keeps Or.inl Or.inl Or.inl

/-- A name that was just given has its text. -/
theorem Regular.named_withName (h : d.Regular) (s : String) :
    ((d.withName s).text? (d.names.intern s).1).isSome :=
  Option.isSome_of_eq_some (h.names.get?_intern s)

theorem Listed.addNamespace (h : d.Listed) {n : Name} (fresh : d.scopes[n]? = none)
    (text : (d.text? n).isSome) : (d.addNamespace n).Listed := by
  have grows := (grows_addNamespace d n).keeps
  refine h.of_keeps (h.toRegular.addNamespace fresh) grows ?_ Or.inl Or.inl
  intro id ns hns
  rcases Table.get?_push_cases hns with hns | ⟨rfl, rfl⟩
  · exact Or.inl hns
  · exact Or.inr (namespace_new (grows.text_isSome text))

theorem Listed.addModule (h : d.Listed) {scope : NamespaceId} {n : Name} (free : d.Free scope n)
    (text : (d.text? n).isSome) (type : TypeId) (params : Params) (metadata : Metadata) :
    (d.addModule scope n type params metadata).Listed := by
  refine h.of_keeps (h.toRegular.addModule ..) (grows_addModule free ..).keeps ?_ ?_ Or.inl
  · intro id ns hns
    rcases Table.get?_modify_cases hns with hns | ⟨rfl, ns', hns', rfl⟩
    · exact Or.inl hns
    · exact Or.inr (namespace_addModule h.toRegular free hns' (h.namespaceListed hns'))
  · intro id m hm
    rcases Table.get?_push_cases hm with hm | ⟨rfl, rfl⟩
    · exact Or.inl hm
    · exact Or.inr ⟨rfl, text, free.listed_addModule ..⟩

theorem Listed.addGenerator (h : d.Listed) {scope : NamespaceId} {n : Name}
    (free : d.Free scope n) (text : (d.text? n).isSome) (genparams params : Params)
    (metadata : Metadata) : (d.addGenerator scope n genparams params metadata).Listed := by
  refine h.of_keeps (h.toRegular.addGenerator ..) (grows_addGenerator free ..).keeps ?_ Or.inl ?_
  · intro id ns hns
    rcases Table.get?_modify_cases hns with hns | ⟨rfl, ns', hns', rfl⟩
    · exact Or.inl hns
    · exact Or.inr (namespace_addGenerator h.toRegular free hns' (h.namespaceListed hns'))
  · intro id g hg
    rcases Table.get?_push_cases hg with hg | ⟨rfl, rfl⟩
    · exact Or.inl hg
    · exact Or.inr ⟨rfl, text, free.listed_addGenerator ..⟩

/-- A definition is no part of the symbol table. -/
theorem Listed.define (h : d.Listed) {id : ModuleId} {m : Module}
    (hm : d.modules.get? id = some m) (undefined : m.definition = none) (definition : Definition) :
    (d.define id definition).Listed := by
  have keeps := (grows_define hm undefined definition).keeps
  refine h.of_keeps (h.toRegular.define _ _) keeps Or.inl ?_ Or.inl
  intro k m' hm'
  rcases Table.get?_modify_cases hm' with hm' | ⟨rfl, old, ho, rfl⟩
  · exact Or.inl hm'
  · exact Or.inr { (h.moduleListed ho).keep keeps with }

theorem Move.listed (h : Move c d) (hc : c.Listed) : d.Listed := by
  cases h with
  | name s => exact hc.withName s
  | type t =>
    exact hc.of_keeps (hc.toRegular.withType t) (c.grows_withType t).keeps Or.inl Or.inl Or.inl
  | scope fresh => exact (hc.withName _).addNamespace fresh (hc.toRegular.named_withName _)
  | module free type params metadata =>
    exact (hc.withName _).addModule free (hc.toRegular.named_withName _) type params metadata
  | generator free genparams params metadata =>
    exact (hc.withName _).addGenerator free (hc.toRegular.named_withName _) genparams params metadata
  | define hm undefined definition => exact hc.define hm undefined definition

theorem Builds.listed (h : c.Builds d) (hc : c.Listed) : d.Listed := by
  induction h with
  | refl => exact hc
  | tail _ move ih => exact move.listed ih

/-- What stands under a handle of two tables with the same images has the same image. -/
theorem exists_get?_of_map_eq {e : Entity} {α β : Type} {t u : Table e α} {f : α → β}
    (same : t.map f = u.map f) {k : Handle e} {a : α} (ha : t.get? k = some a) :
    ∃ b, u.get? k = some b ∧ f b = f a := by
  have image := congrArg (Table.get? · k) same
  simp only [Table.get?_map, ha, Option.map_some] at image
  exact Option.map_eq_some_iff.1 image.symm

theorem Returned.keeps (h : c.Returned d) : c.Keeps d where
  names hn := h.names _ _ hn
  types hw := h.types ▸ hw
  namespaces {_ ns} hns := ⟨ns, h.namespaces ▸ hns, .refl ns⟩
  modules hm := by
    obtain ⟨m', hm', same⟩ := exists_get?_of_map_eq h.modules.symm hm
    exact ⟨m', hm', (congrArg Module.name same :), (congrArg Module.scope same :),
      (congrArg Module.params same :)⟩
  generators hg := by
    obtain ⟨g', hg', same⟩ := exists_get?_of_map_eq h.generators.symm hg
    exact ⟨g', hg', (congrArg Generator.name same :), (congrArg Generator.scope same :),
      (congrArg Generator.genparams same :), (congrArg Generator.params same :)⟩

/-- Symbols are listed in a design that is there again. -/
theorem Listed.returned (h : c.Listed) (hd : d.Regular) (same : c.Returned d) : d.Listed :=
  { hd with
    namespaceListed := fun hns => (h.namespaceListed (same.namespaces ▸ hns)).keep same.keeps
    moduleListed := fun {id m} hm => by
      obtain ⟨m', hm', bare⟩ := exists_get?_of_map_eq same.modules hm
      have old := (h.moduleListed hm').keep same.keeps
      have name : m'.name = m.name := (congrArg Module.name bare :)
      have scope : m'.scope = m.scope := (congrArg Module.scope bare :)
      refine ⟨(congrArg Module.id bare).symm.trans old.id_eq, name ▸ old.name, ?_⟩
      rw [← scope, ← name]
      exact old.scope
    generatorListed := fun {id g} hg => by
      obtain ⟨g', hg', bare⟩ := exists_get?_of_map_eq same.generators hg
      have old := (h.generatorListed hg').keep same.keeps
      have name : g'.name = g.name := (congrArg Generator.name bare :)
      have scope : g'.scope = g.scope := (congrArg Generator.scope bare :)
      refine ⟨(congrArg Generator.id bare).symm.trans old.id_eq, name ▸ old.name, ?_⟩
      rw [← scope, ← name]
      exact old.scope }

/-! ## What names stand for -/

/-- A name stands for the module that is listed under it. -/
theorem symbol?_eq_module_iff {ns : Namespace} (hm : ns.modules.Consistent) (n : Name)
    (id : ModuleId) : ns.symbol? n = some (.module id) ↔ (n, id) ∈ ns.modules.toList := by
  rw [← hm.get?_eq_some_iff, Namespace.symbol?]
  cases ns.modules.get? n with
  | none => simp
  | some id' => simp

/-- It stands for the generator that is listed under it, which is no module's name. -/
theorem symbol?_eq_generator_iff {ns : Namespace} (hm : ns.modules.Consistent)
    (hg : ns.generators.Consistent) (apart : ∀ n ∈ ns.modules.names, n ∉ ns.generators.names)
    (n : Name) (id : GeneratorId) :
    ns.symbol? n = some (.generator id) ↔ (n, id) ∈ ns.generators.toList := by
  rw [← hg.get?_eq_some_iff, Namespace.symbol?]
  cases found : ns.modules.get? n with
  | none => simp
  | some id' =>
    have listed := (hm.get?_eq_some_iff n id').1 found
    have absent := apart n (List.mem_map_of_mem (f := Prod.fst) listed)
    simp only [Option.some.injEq, reduceCtorEq, false_iff]
    intro mem
    exact absent (List.mem_map_of_mem (f := Prod.fst) ((hg.get?_eq_some_iff n id).1 mem))

/-- A name in a namespace stands for what is declared under it there. -/
theorem Listed.symbol?_iff (h : d.Listed) {id : NamespaceId} {ns : Namespace}
    (hns : d.namespaces.get? id = some ns) (n : Name) (t : Target) :
    ns.symbol? n = some t ↔ d.placeOf? t = some (id, n) := by
  have listed := h.namespaceListed hns
  have here : ∀ {scope ns'}, d.namespaces.get? scope = some ns' → scope = id → ns' = ns := by
    rintro _ ns' hns' rfl
    exact Option.some.inj (hns'.symm.trans hns)
  cases t with
  | module k =>
    rw [symbol?_eq_module_iff (h.modules hns), placeOf?]
    constructor
    · intro mem
      obtain ⟨m, hm, name, scope⟩ := listed.modules _ mem
      rw [hm, Option.map_some, name, scope]
    · intro place
      obtain ⟨m, hm, same⟩ := Option.map_eq_some_iff.1 place
      obtain ⟨scope, name⟩ := Prod.mk.inj same
      obtain ⟨ns', hns', mem⟩ := (h.moduleListed hm).scope
      rw [here hns' scope, name] at mem
      exact mem
  | generator k =>
    rw [symbol?_eq_generator_iff (h.modules hns) (h.generators hns) listed.apart, placeOf?]
    constructor
    · intro mem
      obtain ⟨g, hg, name, scope⟩ := listed.generators _ mem
      rw [hg, Option.map_some, name, scope]
    · intro place
      obtain ⟨g, hg, same⟩ := Option.map_eq_some_iff.1 place
      obtain ⟨scope, name⟩ := Prod.mk.inj same
      obtain ⟨ns', hns', mem⟩ := (h.generatorListed hg).scope
      rw [here hns' scope, name] at mem
      exact mem

/-- A lookup always has an answer, which is what goes by these names, if anything does. -/
theorem Listed.lookup?_iff (h : d.Listed) (scope name : String) :
    ∃ found, d.lookup? scope name = some found ∧
      ∀ t, found = some t ↔ d.symbolText? t = some (scope, name) := by
  have text : ∀ {n s}, d.text? n = some s ↔ d.names.find? s = some n := fun {n s} =>
    (h.names s n).symm
  simp only [symbolText_eq_some_iff, text]
  unfold lookup? namespaceId?
  cases hs : d.names.find? scope with
  | none => exact ⟨none, rfl, fun t => by simp⟩
  | some s =>
    rw [Option.bind_some]
    cases hi : d.scopes[s]? with
    | none =>
      refine ⟨none, rfl, fun t => ⟨fun found => (by cases found), ?_⟩⟩
      rintro ⟨id, n, ns, -, hns, same, -⟩
      rw [(h.scopes s id).2 ⟨ns, hns, (Option.some.inj same).symm⟩] at hi
      cases hi
    | some id =>
      obtain ⟨ns, hns, rfl⟩ := (h.scopes s id).1 hi
      cases hn : d.names.find? name with
      | none => exact ⟨none, rfl, fun t => by simp⟩
      | some n =>
        refine ⟨ns.symbol? n, by simp only [hns, Option.map_some], fun t => ?_⟩
        rw [h.symbol?_iff hns]
        constructor
        · intro place
          exact ⟨id, n, ns, place, hns, rfl, rfl⟩
        · rintro ⟨id', n', ns', place, hns', same, same'⟩
          have scope : d.scopes[ns.name]? = some id' :=
            (h.scopes _ _).2 ⟨ns', hns', (Option.some.inj same).symm⟩
          rw [place, Option.some.inj (hi.symm.trans scope), Option.some.inj same']

/-- A name is resolved to what goes by it, and refused if nothing does. -/
theorem Listed.resolve_eq_ok_iff (h : d.Listed) (scope name : String) (t : Target) :
    Edit.resolve scope name d = .ok t d ↔ d.symbolText? t = some (scope, name) := by
  obtain ⟨found, looked, iff⟩ := h.lookup?_iff scope name
  rw [← iff, Edit.resolve, Edit.bind_of_ok (Edit.live_of_some looked)]
  cases found with
  | none => simp [Edit.fail_apply]
  | some t' =>
    change EStateM.Result.ok t' d = .ok t d ↔ _
    simp

theorem Listed.resolve_of_missing (h : d.Listed) {scope name : String}
    (missing : ∀ t, d.symbolText? t ≠ some (scope, name)) :
    Edit.resolve scope name d = .error (.error (.missingSymbol scope name)) d := by
  obtain ⟨found, looked, iff⟩ := h.lookup?_iff scope name
  rw [Edit.resolve, Edit.bind_of_ok (Edit.live_of_some looked)]
  cases found with
  | none => rfl
  | some t => exact absurd ((iff t).1 rfl) (missing t)

/-! ## Symbol tables -/

/-- What the namespaces, their index and their lists of names say about each other. -/
structure SymbolTable (d : Design) : Prop where
  namespace_unique : ∀ {id id' ns ns'}, d.namespaces.get? id = some ns →
    d.namespaces.get? id' = some ns' → d.text? ns.name = d.text? ns'.name → id = id'
  scopes : ∀ n id, d.scopes[n]? = some id ↔ ∃ ns, d.namespaces.get? id = some ns ∧ ns.name = n
  namespace_id : ∀ {id ns}, d.namespaces.get? id = some ns → ns.id = id
  module_id : ∀ {id m}, d.modules.get? id = some m → m.id = id
  generator_id : ∀ {id g}, d.generators.get? id = some g → g.id = id
  module_of_entry : ∀ {id ns}, d.namespaces.get? id = some ns → ∀ e ∈ ns.modules.toList,
    ∃ m, d.modules.get? e.2 = some m ∧ m.name = e.1 ∧ m.scope = id
  generator_of_entry : ∀ {id ns}, d.namespaces.get? id = some ns → ∀ e ∈ ns.generators.toList,
    ∃ g, d.generators.get? e.2 = some g ∧ g.name = e.1 ∧ g.scope = id
  module_once : ∀ {id m}, d.modules.get? id = some m →
    ∃ ns, d.namespaces.get? m.scope = some ns ∧ ns.modules.values.count id = 1
  generator_once : ∀ {id g}, d.generators.get? id = some g →
    ∃ ns, d.namespaces.get? g.scope = some ns ∧ ns.generators.values.count id = 1
  apart : ∀ {id ns}, d.namespaces.get? id = some ns → ∀ n ∈ ns.modules.names,
    n ∉ ns.generators.names
  named : ∀ t, (d.placeOf? t).isSome → (d.symbolText? t).isSome
  resolve : ∀ scope name t,
    Edit.resolve scope name d = .ok t d ↔ d.symbolText? t = some (scope, name)
  missing : ∀ scope name, (∀ t, d.symbolText? t ≠ some (scope, name)) →
    Edit.resolve scope name d = .error (.error (.missingSymbol scope name)) d

/-- A value that only stands under one name stands there once. -/
theorem count_values_eq_one {α : Type} [DecidableEq α] {m : NameMap α} (hm : m.Consistent)
    {n : Name} {a : α} (mem : (n, a) ∈ m.toList) (only : ∀ e ∈ m.toList, e.2 = a → e.1 = n) :
    m.values.count a = 1 := by
  have nodup : m.toList.Nodup := List.Nodup.of_map _ hm.nodup
  have same : m.toList.countP (fun e => e.2 == a) = m.toList.count (n, a) := by
    refine List.countP_congr fun e he => ?_
    rw [beq_iff_eq, beq_iff_eq]
    constructor
    · intro value
      exact Prod.ext (only e he value) value
    · rintro rfl
      rfl
  rw [NameMap.values, List.count, List.countP_map]
  exact same.trans (List.count_eq_one_of_mem nodup mem)

/-- Whatever is there goes by names in text. -/
theorem Listed.isSome_symbolText (h : d.Listed) {t : Target} (live : (d.placeOf? t).isSome) :
    (d.symbolText? t).isSome := by
  have known {id : NamespaceId} {n : Name} (place : d.placeOf? t = some (id, n))
      (scope : ∃ ns, d.namespaces.get? id = some ns) (text : (d.text? n).isSome) :
      (d.symbolText? t).isSome := by
    obtain ⟨ns, hns⟩ := scope
    obtain ⟨s, hs⟩ := Option.isSome_iff_exists.1 (h.namespaceListed hns).name
    obtain ⟨w, hw⟩ := Option.isSome_iff_exists.1 text
    exact Option.isSome_of_eq_some
      (symbolText_eq_some_iff.2 ⟨id, n, ns, place, hns, hs, hw⟩ : _ = some (s, w))
  cases t with
  | module id =>
    obtain ⟨m, hm⟩ := Option.isSome_iff_exists.1 (Option.isSome_map.symm.trans live)
    obtain ⟨ns, hns, -⟩ := (h.moduleListed hm).scope
    exact known (by rw [placeOf?, hm]; rfl) ⟨ns, hns⟩ (h.moduleListed hm).name
  | generator id =>
    obtain ⟨g, hg⟩ := Option.isSome_iff_exists.1 (Option.isSome_map.symm.trans live)
    obtain ⟨ns, hns, -⟩ := (h.generatorListed hg).scope
    exact known (by rw [placeOf?, hg]; rfl) ⟨ns, hns⟩ (h.generatorListed hg).name

theorem Listed.symbolTable (h : d.Listed) : d.SymbolTable where
  namespace_unique {id id' ns ns'} hns hns' same := by
    obtain ⟨s, hs⟩ := Option.isSome_iff_exists.1 (h.namespaceListed hns).name
    have name : ns.name = ns'.name := h.names.get?_injective hs (same.symm.trans hs)
    have scope := (h.scopes _ id).2 ⟨ns, hns, rfl⟩
    rw [name, (h.scopes _ id').2 ⟨ns', hns', rfl⟩] at scope
    exact (Option.some.inj scope).symm
  scopes := h.scopes
  namespace_id hns := (h.namespaceListed hns).id_eq
  module_id hm := (h.moduleListed hm).id_eq
  generator_id hg := (h.generatorListed hg).id_eq
  module_of_entry hns := (h.namespaceListed hns).modules
  generator_of_entry hns := (h.namespaceListed hns).generators
  module_once {id m} hm := by
    obtain ⟨ns, hns, mem⟩ := (h.moduleListed hm).scope
    refine ⟨ns, hns, count_values_eq_one (h.modules hns) mem ?_⟩
    rintro ⟨n, k⟩ he rfl
    obtain ⟨m', hm', name, -⟩ := (h.namespaceListed hns).modules _ he
    cases hm.symm.trans hm'
    exact name.symm
  generator_once {id g} hg := by
    obtain ⟨ns, hns, mem⟩ := (h.generatorListed hg).scope
    refine ⟨ns, hns, count_values_eq_one (h.generators hns) mem ?_⟩
    rintro ⟨n, k⟩ he rfl
    obtain ⟨g', hg', name, -⟩ := (h.namespaceListed hns).generators _ he
    cases hg.symm.trans hg'
    exact name.symm
  apart hns := (h.namespaceListed hns).apart
  named _ := h.isSome_symbolText
  resolve := h.resolve_eq_ok_iff
  missing _ _ := h.resolve_of_missing

end Design

end

/-! ## Sessions whose symbols are listed -/

namespace Session

/-- Every call but a restore of a point that is no longer valid, and a change in place of
anything but metadata. Definitions may be attached that a restore made stale. -/
def Orderly (s : Session) (c : Call) : Prop :=
  c.writesInPlace = false ∧ ∀ k ∈ c.restores?, ∃ p ∈ s.points[k]?, p.valid = true

instance (s : Session) (c : Call) : Decidable (Orderly s c) :=
  inferInstanceAs (Decidable (_ ∧ _))

/-- The symbols of the design are listed, and so are those of the design that a restore of a
valid point gives back. -/
structure Listed (s : Session) : Prop where
  design : s.design.Listed
  points : ∀ {k p}, s.points[k]? = some p → p.valid = true →
    ∃ c : Design, c.Listed ∧ p.snapshot = c.snapshot ∧ s.Guards (s.points.drop (k + 1)) c

theorem listed_start : start.Listed where
  design := Design.listed_empty
  points hk := by cases hk

variable {s : Session}

/-- A call that leaves the restore points as they are keeps symbols listed if it does so in
the design. -/
theorem Listed.of_points (h : s.Listed) {call : Call} (inPlace : call.writesInPlace = false)
    (none : call.restores? = none) (same : (s.step call).points = s.points)
    (design : (s.step call).design.Listed) : (s.step call).Listed where
  design := design
  points {k p} hp valid := by
    rw [same] at hp ⊢
    obtain ⟨c, listed, extent, guards⟩ := h.points hp valid
    refine ⟨c, listed, extent, guards.step ⟨inPlace, ?_⟩⟩
    rw [none]
    rintro _ ⟨⟩

theorem Listed.snapshot (h : s.Listed) : (s.step .snapshot).Listed where
  design := h.design
  points {k p} hp valid := by
    cases k with
    | zero =>
      cases hp
      exact ⟨s.design, h.design, rfl, guards_snapshot h.design.toRegular⟩
    | succ k =>
      obtain ⟨c, listed, extent, guards⟩ := h.points (k := k) hp valid
      exact ⟨c, listed, extent, guards.step ⟨rfl, fun _ h => by cases h⟩⟩

theorem Listed.restore (h : s.Listed) {k : Nat} {p : Point} (hp : s.points[k]? = some p)
    (valid : p.valid = true) : (s.restore k).Listed := by
  have points : (s.restore k).points =
      (s.points.take k).map (fun q => { q with valid := false }) ++ s.points.drop k := by
    simp only [Session.restore, hp]
  have hk : k < s.points.length := (List.getElem?_eq_some_iff.1 hp).1
  have front : ((s.points.take k).map fun q : Point => { q with valid := false }).length = k := by
    simp only [List.length_map, List.length_take]
    omega
  refine ⟨?_, fun {j q} hq validq => ?_⟩
  · obtain ⟨c, listed, extent, guards⟩ := h.points hp valid
    have same : (s.restore k).design = s.design.restore c.snapshot := by
      simp only [Session.restore, hp, extent]
    rw [same]
    exact listed.returned (guards.regular.restore _) guards.returns
  · -- A point that is still valid is the restored one or an older one.
    rw [points] at hq
    have old : k ≤ j := by
      refine Nat.le_of_not_lt fun hj => ?_
      rw [List.getElem?_append_left (by omega), List.getElem?_map] at hq
      obtain ⟨_, -, rfl⟩ := Option.map_eq_some_iff.1 hq
      cases validq
    have dropped : (s.restore k).points.drop (j + 1) = s.points.drop (j + 1) := by
      rw [points, List.drop_append, List.drop_eq_nil_of_le (by omega), List.nil_append, front,
        List.drop_drop]
      congr 1
      omega
    rw [List.getElem?_append_right (by omega), front, List.getElem?_drop,
      show k + (j - k) = j by omega] at hq
    obtain ⟨c, listed, extent, guards⟩ := h.points hq validq
    refine ⟨c, listed, extent, dropped ▸ guards.restore ?_⟩
    have := (List.getElem?_eq_some_iff.1 hq).1
    rw [List.length_drop]
    omega

/-- An orderly call keeps symbols listed, whether it succeeds or fails. -/
theorem Listed.step (h : s.Listed) {call : Call} (orderly : s.Orderly call) :
    (s.step call).Listed := by
  have hd := h.design
  rcases step_cases hd.toRegular orderly.1 with ⟨points, none, built | same⟩ | rfl | ⟨k, rfl⟩
  · exact h.of_points orderly.1 none points (built.listed hd)
  · exact h.of_points orderly.1 none points (hd.returned (regular_step hd.toRegular call) same)
  · exact h.snapshot
  · obtain ⟨p, hp, valid⟩ := orderly.2 k rfl
    exact h.restore hp valid

theorem Reachable.listed (h : s.Reachable Orderly) : s.Listed := by
  induction h with
  | start => exact listed_start
  | step _ orderly ih => exact ih.step orderly

/-- Whatever calls were made, each namespace lists exactly what is declared in it, and a name
is resolved to what goes by it, or refused if nothing does. -/
theorem symbolTable_of_reachable {s : Session} (reached : s.Reachable Orderly) :
    s.design.SymbolTable :=
  reached.listed.design.symbolTable

/-- A name that is refused since it is taken, and a restore after which another module gets the
number of one that is gone. The definition that names the old one is attached all the same. -/
def callsWithReuse : List Call := [
  .openNamespace "lib", .declareModule ⟨0⟩ "reg" TypeTable.bitInId [],
  .declareGenerator ⟨0⟩ "reg" [] [], .declareGenerator ⟨0⟩ "gen" [] [], .snapshot,
  .openNamespace "old", .declareModule ⟨1⟩ "reg" TypeTable.anyId [],
  .newDraft ⟨0⟩, .addInstance 0 "i" ⟨1⟩ [], .load false (.object [("top", .null)]), .restore 0,
  .openNamespace "new", .declareModule ⟨1⟩ "reg" TypeTable.bitOutId [], .attach 0]

theorem symbolTable_after_reuse :
    let d := (start.run callsWithReuse).design
    d.SymbolTable ∧ Edit.resolve "new" "reg" d = .ok (.module ⟨1⟩) d ∧
      ∀ t, Edit.resolve "old" "reg" d ≠ .ok t d := by
  intro d
  have table : d.SymbolTable := symbolTable_of_reachable (.run .start (by decide +kernel))
  refine ⟨table, (table.resolve _ _ _).2 (by decide +kernel), fun t found => ?_⟩
  have resolved : Edit.refusal? (Edit.resolve "old" "reg" d) = some (.missingSymbol "old" "reg") := by
    decide +kernel
  rw [found] at resolved
  cases resolved

end Session

end Netlist
