-- Sound designs. In a sound design every handle stands for something, types are built
-- from the leaves up, a symbol is where its module says it is, and every instance binds
-- what its target asks for. What is sound stays sound while the design grows.
import Netlist.Definition.Build
import Netlist.Proofs.Json.WellFormed
import Netlist.Proofs.Steps

namespace Netlist

/-! ## Sound parts -/

/-- The parts of a type come before it, and a record has no field twice. -/
def WireType.Sound (d : Design) (id : TypeId) : WireType → Prop
  | array element length => element.index < id.index ∧ length < UInt32.size
  | record fields => (Assoc.keys fields).Nodup ∧
      ∀ f ∈ fields, (d.text? f.1).isSome ∧ f.2.index < id.index
  | _ => True

/-- A map whose names have texts. -/
structure NameMap.Sound {α : Type} (d : Design) (m : NameMap α) : Prop where
  consistent : m.Consistent
  named : ∀ e ∈ m.toList, (d.text? e.1).isSome

/-- An integer argument fits 64 bits, and a type argument is a type of the design. -/
def Arg.Sound (d : Design) : Arg → Prop
  | int i => Json.fitsInt64 i = true
  | string _ => True
  | type id => (d.types.get? id).isSome

structure Args.Sound (d : Design) (args : Args) : Prop extends NameMap.Sound d args where
  values : ∀ e ∈ args.toList, e.2.Sound d

/-- Whether arguments bind exactly these parameters. -/
def Params.Fits (params : Params) (args : Args) : Prop := params.mismatch? args = none

/-- Only an instance of a generator has generator arguments, and they fit the generator. -/
def Target.Generated (d : Design) : Target → Option Args → Prop
  | module _, none => True
  | generator id, some args =>
    Args.Sound d args ∧ ∃ g, d.generators.get? id = some g ∧ g.genparams.Fits args
  | _, _ => False

structure Instance.Sound (d : Design) (i : Instance) : Prop where
  fits : ∃ params, d.configParams? i.target = some params ∧ params.Fits i.config
  config : Args.Sound d i.config
  genargs : i.target.Generated d i.genargs
  metadata : i.metadata.WellFormed

/-- An end begins at an instance or at the module itself, and its words have texts. -/
structure Definition.SoundEnd (d : Design) (x : Definition) (p : WirePath) : Prop where
  root : p.root = Design.selfName ∨ x.instances.contains p.root = true
  full : d.text? p.root ≠ some ""
  named : ∀ n ∈ p.root :: p.selectors, (d.text? n).isSome

structure Definition.Sound (d : Design) (x : Definition) : Prop where
  owner : (d.modules.get? x.owner).isSome
  instances : NameMap.Sound d x.instances
  instance_name : ∀ e ∈ x.instances.toList, e.2.name = e.1 ∧ e.1 ≠ Design.selfName
  instance_sound : ∀ e ∈ x.instances.toList, e.2.Sound d
  ends : ∀ c ∈ x.connections.toList, x.SoundEnd d c.first ∧ x.SoundEnd d c.second
  connection_metadata : ∀ c ∈ x.connections.toList, c.metadata.WellFormed
  unlinked : x.connections.toList.Pairwise fun c k => c.links k.first k.second = false
  implementations : x.implementations.WellFormed
  metadata : x.metadata.WellFormed

/-- A module knows its number and its namespace, which lists it by its name. -/
structure Module.Sound (d : Design) (id : ModuleId) (m : Module) : Prop where
  id_eq : m.id = id
  name : (d.text? m.name).isSome
  scope : ∃ ns, d.namespaces.get? m.scope = some ns ∧ (m.name, id) ∈ ns.modules.toList
  type : (d.types.get? m.type).isSome
  params : NameMap.Sound d m.params
  metadata : m.metadata.WellFormed
  definition : ∀ x, m.definition = some x → x.owner = id ∧ x.Sound d

structure Generator.Sound (d : Design) (id : GeneratorId) (g : Generator) : Prop where
  id_eq : g.id = id
  name : (d.text? g.name).isSome
  scope : ∃ ns, d.namespaces.get? g.scope = some ns ∧ (g.name, id) ∈ ns.generators.toList
  genparams : NameMap.Sound d g.genparams
  params : NameMap.Sound d g.params
  metadata : g.metadata.WellFormed

/-- A namespace lists things by their own names, and no name twice. -/
structure Namespace.Sound (d : Design) (id : NamespaceId) (ns : Namespace) : Prop where
  id_eq : ns.id = id
  name : (d.text? ns.name).isSome
  modules : ∀ e ∈ ns.modules.toList, ∃ m, d.modules.get? e.2 = some m ∧ m.name = e.1 ∧ m.scope = id
  generators : ∀ e ∈ ns.generators.toList,
    ∃ g, d.generators.get? e.2 = some g ∧ g.name = e.1 ∧ g.scope = id
  apart : ∀ n ∈ ns.modules.names, n ∉ ns.generators.names

namespace Design

structure Sound (d : Design) : Prop extends d.Regular where
  self : d.text? selfName = some selfWord
  any : d.types.get? TypeTable.anyId = some .any
  bitIn : d.types.get? TypeTable.bitInId = some .bitIn
  bitOut : d.types.get? TypeTable.bitOutId = some .bitOut
  typeSound : ∀ {id w}, d.types.get? id = some w → w.Sound d id
  namespaceSound : ∀ {id ns}, d.namespaces.get? id = some ns → ns.Sound d id
  moduleSound : ∀ {id m}, d.modules.get? id = some m → m.Sound d id
  generatorSound : ∀ {id g}, d.generators.get? id = some g → g.Sound d id

end Design

/-! ## What keeps parts sound -/

namespace Design

/-- Everything that stands for something goes on to stand for it, but definitions and
metadata may become others. -/
structure Keeps (c d : Design) : Prop where
  names : ∀ {n s}, c.text? n = some s → d.text? n = some s
  types : ∀ {id w}, c.types.get? id = some w → d.types.get? id = some w
  namespaces : ∀ {id ns}, c.namespaces.get? id = some ns →
    ∃ ns', d.namespaces.get? id = some ns' ∧ ns.Grows ns'
  modules : ∀ {id m}, c.modules.get? id = some m →
    ∃ m', d.modules.get? id = some m' ∧ m'.name = m.name ∧ m'.scope = m.scope ∧
      m'.params = m.params
  generators : ∀ {id g}, c.generators.get? id = some g →
    ∃ g', d.generators.get? id = some g' ∧ g'.name = g.name ∧ g'.scope = g.scope ∧
      g'.genparams = g.genparams ∧ g'.params = g.params

end Design

/-- A module that grows keeps everything but its definition. -/
theorem Module.Grows.fields {m m' : Module} (g : m.Grows m') :
    m'.name = m.name ∧ m'.scope = m.scope ∧ m'.type = m.type ∧ m'.params = m.params ∧
      m'.metadata = m.metadata := by
  rcases g with rfl | ⟨_, h⟩
  · exact ⟨rfl, rfl, rfl, rfl, rfl⟩
  · rw [h]
    exact ⟨rfl, rfl, rfl, rfl, rfl⟩

variable {c d : Design}

theorem Design.Grows.keeps (g : c.Grows d) : c.Keeps d where
  names := g.names
  types := g.types
  namespaces := g.namespaces
  modules h := by
    obtain ⟨m', hm', gm⟩ := g.modules h
    exact ⟨m', hm', gm.fields.1, gm.fields.2.1, gm.fields.2.2.2.1⟩
  generators h := ⟨_, g.generators h, rfl, rfl, rfl, rfl⟩

namespace Design.Keeps

theorem text_isSome (k : c.Keeps d) {n : Name} (h : (c.text? n).isSome) : (d.text? n).isSome := by
  obtain ⟨s, hs⟩ := Option.isSome_iff_exists.1 h
  exact Option.isSome_of_eq_some (k.names hs)

theorem type_isSome (k : c.Keeps d) {id : TypeId} (h : (c.types.get? id).isSome) :
    (d.types.get? id).isSome := by
  obtain ⟨w, hw⟩ := Option.isSome_iff_exists.1 h
  exact Option.isSome_of_eq_some (k.types hw)

theorem module_isSome (k : c.Keeps d) {id : ModuleId} (h : (c.modules.get? id).isSome) :
    (d.modules.get? id).isSome := by
  obtain ⟨m, hm⟩ := Option.isSome_iff_exists.1 h
  obtain ⟨m', hm', _⟩ := k.modules hm
  exact Option.isSome_of_eq_some hm'

theorem configParams (k : c.Keeps d) {t : Target} {params : Params}
    (h : c.configParams? t = some params) : d.configParams? t = some params := by
  cases t with
  | module id =>
    obtain ⟨m, hm, rfl⟩ := Option.map_eq_some_iff.1 h
    obtain ⟨m', hm', _, _, hp⟩ := k.modules hm
    simp only [configParams?, hm', Option.map_some, hp]
  | generator id =>
    obtain ⟨x, hx, rfl⟩ := Option.map_eq_some_iff.1 h
    obtain ⟨x', hx', _, _, _, hp⟩ := k.generators hx
    simp only [configParams?, hx', Option.map_some, hp]

/-- A module stays in the list of its namespace. -/
theorem listed_module (k : c.Keeps d) {scope : NamespaceId} {e : Name × ModuleId}
    (h : ∃ ns, c.namespaces.get? scope = some ns ∧ e ∈ ns.modules.toList) :
    ∃ ns, d.namespaces.get? scope = some ns ∧ e ∈ ns.modules.toList := by
  obtain ⟨ns, hns, mem⟩ := h
  obtain ⟨ns', hns', g⟩ := k.namespaces hns
  exact ⟨ns', hns', g.modules.subset mem⟩

theorem listed_generator (k : c.Keeps d) {scope : NamespaceId} {e : Name × GeneratorId}
    (h : ∃ ns, c.namespaces.get? scope = some ns ∧ e ∈ ns.generators.toList) :
    ∃ ns, d.namespaces.get? scope = some ns ∧ e ∈ ns.generators.toList := by
  obtain ⟨ns, hns, mem⟩ := h
  obtain ⟨ns', hns', g⟩ := k.namespaces hns
  exact ⟨ns', hns', g.generators.subset mem⟩

end Design.Keeps

theorem WireType.Sound.keep {id : TypeId} {w : WireType} (h : w.Sound c id) (k : c.Keeps d) :
    w.Sound d id := by
  cases w with
  | record fields => exact ⟨h.1, fun f hf => ⟨k.text_isSome (h.2 f hf).1, (h.2 f hf).2⟩⟩
  | array => exact h
  | any | bitIn | bitOut => trivial

theorem NameMap.Sound.keep {α : Type} {m : NameMap α} (h : NameMap.Sound c m) (k : c.Keeps d) :
    NameMap.Sound d m :=
  ⟨h.consistent, fun e he => k.text_isSome (h.named e he)⟩

theorem Arg.Sound.keep {a : Arg} (h : a.Sound c) (k : c.Keeps d) : a.Sound d := by
  cases a with
  | int i => exact h
  | string s => trivial
  | type id => exact k.type_isSome h

theorem Args.Sound.keep {args : Args} (h : Args.Sound c args) (k : c.Keeps d) :
    Args.Sound d args :=
  ⟨h.toSound.keep k, fun e he => (h.values e he).keep k⟩

theorem Target.Generated.keep {t : Target} {genargs : Option Args} (h : t.Generated c genargs)
    (k : c.Keeps d) : t.Generated d genargs := by
  cases t with
  | module id => cases genargs <;> exact h
  | generator id =>
    cases genargs with
    | none => exact h
    | some args =>
      obtain ⟨sound, x, hx, fits⟩ := h
      obtain ⟨x', hx', _, _, hp, _⟩ := k.generators hx
      exact ⟨sound.keep k, x', hx', hp ▸ fits⟩

theorem Instance.Sound.keep {i : Instance} (h : i.Sound c) (k : c.Keeps d) : i.Sound d where
  fits := by
    obtain ⟨params, hp, fits⟩ := h.fits
    exact ⟨params, k.configParams hp, fits⟩
  config := h.config.keep k
  genargs := h.genargs.keep k
  metadata := h.metadata

theorem Definition.SoundEnd.keep {x : Definition} {p : WirePath} (h : x.SoundEnd c p)
    (k : c.Keeps d) : x.SoundEnd d p where
  root := h.root
  full he := by
    obtain ⟨s, hs⟩ := Option.isSome_iff_exists.1 (h.named p.root List.mem_cons_self)
    have := (k.names hs).symm.trans he
    exact h.full (this ▸ hs)
  named n hn := k.text_isSome (h.named n hn)

theorem Definition.Sound.keep {x : Definition} (h : x.Sound c) (k : c.Keeps d) : x.Sound d :=
  { h with
    owner := k.module_isSome h.owner
    instances := h.instances.keep k
    instance_sound := fun e he => (h.instance_sound e he).keep k
    ends := fun l hl => ⟨(h.ends l hl).1.keep k, (h.ends l hl).2.keep k⟩ }

theorem Module.Sound.keep {id : ModuleId} {m : Module} (h : m.Sound c id) (k : c.Keeps d) :
    m.Sound d id :=
  { h with
    name := k.text_isSome h.name
    scope := k.listed_module h.scope
    type := k.type_isSome h.type
    params := h.params.keep k
    definition := fun x hx => ⟨(h.definition x hx).1, (h.definition x hx).2.keep k⟩ }

theorem Generator.Sound.keep {id : GeneratorId} {x : Generator} (h : x.Sound c id)
    (k : c.Keeps d) : x.Sound d id :=
  { h with
    name := k.text_isSome h.name
    scope := k.listed_generator h.scope
    genparams := h.genparams.keep k
    params := h.params.keep k }

theorem Namespace.Sound.keep {id : NamespaceId} {ns : Namespace} (h : ns.Sound c id)
    (k : c.Keeps d) : ns.Sound d id :=
  { h with
    name := k.text_isSome h.name
    modules := fun e he => by
      obtain ⟨m, hm, name, scope⟩ := h.modules e he
      obtain ⟨m', hm', name', scope', _⟩ := k.modules hm
      exact ⟨m', hm', name'.trans name, scope'.trans scope⟩
    generators := fun e he => by
      obtain ⟨x, hx, name, scope⟩ := h.generators e he
      obtain ⟨x', hx', name', scope', _⟩ := k.generators hx
      exact ⟨x', hx', name'.trans name, scope'.trans scope⟩ }

/-- A design stays sound if everything that is not as before is sound by itself. -/
theorem Design.Sound.of_keeps (h : c.Sound) (regular : d.Regular) (k : c.Keeps d)
    (types : ∀ {id w}, d.types.get? id = some w → c.types.get? id = some w ∨ w.Sound d id)
    (namespaces : ∀ {id ns}, d.namespaces.get? id = some ns →
      c.namespaces.get? id = some ns ∨ ns.Sound d id)
    (modules : ∀ {id m}, d.modules.get? id = some m → c.modules.get? id = some m ∨ m.Sound d id)
    (generators : ∀ {id g}, d.generators.get? id = some g →
      c.generators.get? id = some g ∨ g.Sound d id) : d.Sound :=
  { regular with
    self := k.names h.self
    any := k.types h.any
    bitIn := k.types h.bitIn
    bitOut := k.types h.bitOut
    typeSound := fun hw => (types hw).elim (fun hw => (h.typeSound hw).keep k) id
    namespaceSound := fun hns => (namespaces hns).elim (fun hns => (h.namespaceSound hns).keep k) id
    moduleSound := fun hm => (modules hm).elim (fun hm => (h.moduleSound hm).keep k) id
    generatorSound := fun hg => (generators hg).elim (fun hg => (h.generatorSound hg).keep k) id }

end Netlist
