-- A document tells its outline. The node of an argument says neither its kind nor that of the
-- target of its instance. Both are found again in the declarations, which the document tells
-- first: the kind of a target by where its name is listed, and that of an argument by the
-- parameter that it binds.
import Netlist.Proofs.Closed
import Netlist.Proofs.Saved.Designs
import Netlist.Proofs.Saved.Nodes

namespace Netlist

open Document Plain

/-! ## Nodes that say one thing only -/

namespace Document

/-- A member says one thing only, if its node does. -/
theorem Optionally.unique {α : Type} {ms : List (String × Json)} {key : String} {f : α → Json}
    {e a b : α} (h : Optionally ms key f e a) (k : Optionally ms key f e b)
    (inj : f a = f b → a = b) : a = b := by
  rcases h with ⟨absent, rfl⟩ | present
  · rcases k with ⟨-, rfl⟩ | present
    · rfl
    · cases absent.symm.trans present
  · rcases k with ⟨absent, -⟩ | present'
    · cases absent.symm.trans present
    · exact inj (Option.some.inj (present.symm.trans present'))

end Document

/-- Two optional values with one image are both absent, or both there. -/
theorem same_map_cases {α β : Type} {f : α → β} {a b : Option α} (same : a.map f = b.map f) :
    (a = none ∧ b = none) ∨ ∃ x y, a = some x ∧ b = some y ∧ f x = f y := by
  cases a with
  | none => exact .inl ⟨rfl, Option.map_eq_none_iff.1 same.symm⟩
  | some x =>
    obtain ⟨y, rfl, image⟩ := Option.map_eq_some_iff.1 same.symm
    exact .inr ⟨x, y, rfl, rfl, image.symm⟩

theorem Metadata.toJson_injective {md md' : Metadata} (same : md.toJson = md'.toJson) : md = md' :=
  congrArg Metadata.mk (Json.object.inj same)

theorem TypeTree.Sound.toJson_injective {t u : TypeTree String} (ht : t.Sound) (hu : u.Sound)
    (same : t.toJson = u.toJson) : t = u :=
  Except.ok.inj ((readType_toJson ht).symm.trans (same ▸ readType_toJson hu))

/-- The node of an argument says all but the kind. -/
theorem ArgTree.Sound.toJson_injective {a b : ArgTree} (ha : a.Sound) (hb : b.Sound)
    (kind : a.kind = b.kind) (same : a.toJson = b.toJson) : a = b := by
  have read : Plain.readArg b.kind "" "" a.toJson = .ok (some a) :=
    readArg_eq_ok_iff.2 ⟨kind, ha, rfl⟩
  have read' : Plain.readArg b.kind "" "" a.toJson = .ok (some b) :=
    readArg_eq_ok_iff.2 ⟨rfl, hb, same⟩
  exact Option.some.inj (Except.ok.inj (read.symm.trans read'))

namespace Outline

/-- Entries with the same nodes are the same, if each entry can be told by its node. -/
theorem entries_eq {α : Type} {f : α → Json} {P : String × α → Prop}
    (inj : ∀ {e k}, P e → P k → e.1 = k.1 → f e.2 = f k.2 → e.2 = k.2)
    {es ks : List (String × α)} (he : ∀ e ∈ es, P e) (hk : ∀ k ∈ ks, P k)
    (same : es.map (fun e => (e.1, f e.2)) = ks.map fun e => (e.1, f e.2)) : es = ks := by
  induction es generalizing ks with
  | nil => exact (List.map_eq_nil_iff.1 same.symm).symm
  | cons e rest ih =>
    cases ks with
    | nil => cases same
    | cons k others =>
      obtain ⟨here, there⟩ := List.cons.inj same
      obtain ⟨key, node⟩ := Prod.mk.inj here
      obtain ⟨pe, hes⟩ := List.forall_mem_cons.1 he
      obtain ⟨pk, hks⟩ := List.forall_mem_cons.1 hk
      rw [Prod.ext key (inj pe pk key node), ih hes hks there]

theorem paramsToJson_injective {ps qs : List (String × ParamKind)}
    (same : paramsToJson ps = paramsToJson qs) : ps = qs := by
  refine entries_eq (f := fun kind : ParamKind => Json.string kind.text) (P := fun _ => True)
    (fun {e k} _ _ _ node => ?_) (fun _ _ => trivial) (fun _ _ => trivial) (Json.object.inj same)
  have text := ParamKind.ofText?_eq_some_iff.2 (Json.string.inj node)
  exact Option.some.inj ((ParamKind.ofText?_eq_some_iff.2 rfl).symm.trans text)

theorem words_injective {p q : List String} (same : p.map Json.string = q.map Json.string) :
    p = q :=
  List.map_injective_iff.2 (fun _ _ => Json.string.inj) same

theorem pair_injective {p q : String × String}
    (same : Json.array [.string p.1, .string p.2] = .array [.string q.1, .string q.2]) : p = q := by
  obtain ⟨first, rest⟩ := List.cons.inj (Json.array.inj same)
  exact Prod.ext (Json.string.inj first) (Json.string.inj (List.cons.inj rest).1)

theorem Connection.toJson_injective {c k : Connection} (same : c.toJson = k.toJson) : c = k := by
  obtain ⟨ends, rest⟩ := List.cons.inj (Json.array.inj same)
  obtain ⟨ends', last⟩ := List.cons.inj rest
  have first := words_injective (Json.array.inj ends)
  have second := words_injective (Json.array.inj ends')
  have metadata : c.metadata = k.metadata := by
    cases hc : c.metadata.isEmpty <;> cases hk : k.metadata.isEmpty <;>
      simp only [hc, hk, if_true, Bool.false_eq_true, if_false] at last
    · exact Metadata.toJson_injective (List.cons.inj last).1
    · cases last
    · cases last
    · rw [metadata_of_isEmpty hc, metadata_of_isEmpty hk]
  obtain ⟨_, _, _⟩ := c
  rw [Connection.mk.injEq]
  exact ⟨first, second, metadata⟩

theorem Generator.toJson_injective {g k : Generator} (same : g.toJson = k.toJson) : g = k := by
  obtain ⟨ms, node, genparams, params, metadata⟩ := Generator.node g
  obtain ⟨ms', node', genparams', params', metadata'⟩ := Generator.node k
  cases Json.object.inj (node.symm.trans (same.trans node'))
  obtain ⟨_, _, _⟩ := g
  rw [Generator.mk.injEq]
  exact ⟨genparams.unique genparams' paramsToJson_injective,
    params.unique params' paramsToJson_injective,
    metadata.unique metadata' Metadata.toJson_injective⟩

/-! ## What instances can stand for -/

/-- What an instance has to know of the thing that it stands for. -/
structure Interface where
  kind : TargetKind
  genparams : List (String × ParamKind)
  params : List (String × ParamKind)

/-- What stands behind a namespace and a name, as far as instances know it. -/
abbrev Interfaces := String × String → Option Interface

end Outline

def Plain.Symbol.interface : Plain.Symbol → Outline.Interface
  | module m => ⟨.module, [], m.params⟩
  | generator g => ⟨.generator, g.genparams, g.params⟩

namespace Outline

def interface? (scopes : Scopes) : Interfaces := fun target =>
  (symbol? scopes target.1 target.2).map Symbol.interface

theorem Module.params_eq_of_toJson {m k : Module} (same : m.toJson = k.toJson) :
    m.params = k.params := by
  obtain ⟨ms, node, -, params, -⟩ := m.members
  obtain ⟨ms', node', -, params', -⟩ := k.members
  cases Json.object.inj (node.symm.trans (same.trans node'))
  exact params.unique params' paramsToJson_injective

theorem symbolIn?_of_toJson {ns k : Namespace} (same : ns.toJson = k.toJson) (name : String) :
    (symbolIn? ns name).map Symbol.interface = (symbolIn? k name).map Symbol.interface := by
  obtain ⟨ms, node, modules, generators⟩ := ns.members
  obtain ⟨ms', node', modules', generators'⟩ := k.members
  cases Json.object.inj (node.symm.trans (same.trans node'))
  have inModules := congrArg (Assoc.get? name) (modules.unique modules' Json.object.inj)
  have inGenerators := congrArg (Assoc.get? name) (generators.unique generators' Json.object.inj)
  rw [Assoc.get?_map, Assoc.get?_map] at inModules inGenerators
  unfold symbolIn?
  rcases same_map_cases inModules with ⟨hm, hk⟩ | ⟨m, m', hm, hk, node⟩
  · have generators := Option.map_injective (fun _ _ => Generator.toJson_injective) inGenerators
    rw [hm, hk, generators]
  · have params := Module.params_eq_of_toJson node
    rw [hm, hk]
    simp only [Option.map_some, Symbol.interface, params]

/-- The declarations are told by the nodes of the namespaces, whatever the definitions are. -/
theorem interface?_of_toJson {scopes scopes' : Scopes}
    (same : scopes.map (fun n => (n.1, n.2.toJson)) = scopes'.map fun n => (n.1, n.2.toJson)) :
    interface? scopes = interface? scopes' := by
  funext target
  have found := congrArg (Assoc.get? target.1) same
  rw [Assoc.get?_map, Assoc.get?_map] at found
  unfold interface? symbol?
  rcases same_map_cases found with ⟨hs, hs'⟩ | ⟨ns, ns', hs, hs', node⟩
  · rw [hs, hs']
  · rw [hs, hs']
    exact symbolIn?_of_toJson node target.2

/-! ## Outlines with arguments of known kinds -/

/-- Each argument is of the kind that its parameter is declared with. -/
def ArgsTyped (ps : List (String × ParamKind)) (args : List (String × ArgTree)) : Prop :=
  ∀ e ∈ args, Assoc.get? e.1 ps = some e.2.kind ∧ e.2.Sound

def Instance.Typed (env : Interfaces) (i : Instance) : Prop :=
  ∃ s, env i.target = some s ∧ s.kind = i.kind ∧ ArgsTyped s.params i.config ∧
    ∀ args, i.genargs = some args → ArgsTyped s.genparams args

def Definition.Typed (env : Interfaces) (d : Definition) : Prop :=
  ∀ e ∈ d.instances, e.2.Typed env

structure Module.Typed (env : Interfaces) (m : Module) : Prop where
  type : m.type.Sound
  definition : ∀ d, m.definition = some d → d.Typed env

def Namespace.Typed (env : Interfaces) (ns : Namespace) : Prop := ∀ e ∈ ns.modules, e.2.Typed env

/-- What the instances of the outline stand for is declared in the outline itself, and takes
arguments of the kinds that they have. -/
def Typed (o : Outline) : Prop := ∀ n ∈ o.namespaces, n.2.Typed (interface? o.namespaces)

/-! ## Documents tell their outlines -/

section

variable {env : Interfaces}

theorem ArgsTyped.eq_of_toJson {ps : List (String × ParamKind)}
    {args args' : List (String × ArgTree)} (h : ArgsTyped ps args) (h' : ArgsTyped ps args')
    (same : args.map (fun e => (e.1, e.2.toJson)) = args'.map fun e => (e.1, e.2.toJson)) :
    args = args' := by
  refine entries_eq (P := fun e : String × ArgTree => Assoc.get? e.1 ps = some e.2.kind ∧ e.2.Sound)
    (fun {e k} he hk key node => ?_) h h' same
  have kind := he.1.symm.trans ((congrArg (Assoc.get? · ps) key).trans hk.1)
  exact he.2.toJson_injective hk.2 (Option.some.inj kind) node

theorem Instance.Typed.toJson_injective {i j : Instance} (hi : i.Typed env) (hj : j.Typed env)
    (same : i.toJson = j.toJson) : i = j := by
  obtain ⟨s, interface, kind, config, genargs⟩ := hi
  obtain ⟨s', interface', kind', config', genargs'⟩ := hj
  obtain ⟨ms, node, ref, genargsNode, configNode, metadata⟩ := i.members
  obtain ⟨ms', node', ref', genargsNode', configNode', metadata'⟩ := j.members
  cases Json.object.inj (node.symm.trans (same.trans node'))
  have target : i.target = j.target := pair_injective (Option.some.inj (ref.symm.trans ref'))
  -- Both go by the same name, so they stand for things of one kind with the same parameters.
  rw [target, interface'] at interface
  cases interface
  have sameConfig := config.eq_of_toJson config' (configNode.unique configNode' Json.object.inj)
  have sameGenargs : i.genargs = j.genargs := by
    obtain ⟨hi, hj⟩ | ⟨args, args', hi, hj, node⟩ :=
      same_map_cases (genargsNode.symm.trans genargsNode')
    · rw [hi, hj]
    · rw [hi, hj, (genargs args hi).eq_of_toJson (genargs' args' hj) (Json.object.inj node)]
  obtain ⟨_, _, _, _, _⟩ := i
  rw [Instance.mk.injEq]
  exact ⟨kind.symm.trans kind', target, sameGenargs, sameConfig,
    metadata.unique metadata' Metadata.toJson_injective⟩

theorem Definition.Typed.toJson_injective {d k : Definition} (hd : d.Typed env) (hk : k.Typed env)
    (same : d.toJson = k.toJson) : d = k := by
  obtain ⟨ms, node, instances, connections, implementations, metadata⟩ := d.members
  obtain ⟨ms', node', instances', connections', implementations', metadata'⟩ := k.members
  cases Json.object.inj (node.symm.trans (same.trans node'))
  have sameInstances := entries_eq (P := fun e : String × Instance => e.2.Typed env)
    (fun he hk _ => he.toJson_injective hk) hd hk (instances.unique instances' Json.object.inj)
  have sameConnections := List.map_injective_iff.2 (fun _ _ => Connection.toJson_injective)
    (connections.unique connections' Json.array.inj)
  obtain ⟨_, _, _, _⟩ := d
  rw [Definition.mk.injEq]
  exact ⟨sameInstances, sameConnections,
    implementations.unique implementations' Metadata.toJson_injective,
    metadata.unique metadata' Metadata.toJson_injective⟩

theorem Module.Typed.toJson_injective {m k : Module} (hm : m.Typed env) (hk : k.Typed env)
    (same : m.toJson = k.toJson) : m = k := by
  obtain ⟨ms, node, type, params, metadata, definition⟩ := m.members
  obtain ⟨ms', node', type', params', metadata', definition'⟩ := k.members
  cases Json.object.inj (node.symm.trans (same.trans node'))
  have sameDefinition : m.definition = k.definition := by
    obtain ⟨hd, hd'⟩ | ⟨d, d', hd, hd', node⟩ :=
      same_map_cases (definition.symm.trans definition')
    · rw [hd, hd']
    · rw [hd, hd', (hm.definition d hd).toJson_injective (hk.definition d' hd') node]
  have sameType := hm.type.toJson_injective hk.type (Option.some.inj (type.symm.trans type'))
  obtain ⟨_, _, _, _⟩ := m
  rw [Module.mk.injEq]
  exact ⟨sameType, params.unique params' paramsToJson_injective,
    metadata.unique metadata' Metadata.toJson_injective, sameDefinition⟩

theorem Namespace.Typed.toJson_injective {ns k : Namespace} (hn : ns.Typed env) (hk : k.Typed env)
    (same : ns.toJson = k.toJson) : ns = k := by
  obtain ⟨ms, node, modules, generators⟩ := ns.members
  obtain ⟨ms', node', modules', generators'⟩ := k.members
  cases Json.object.inj (node.symm.trans (same.trans node'))
  have sameModules := entries_eq (P := fun e : String × Module => e.2.Typed env)
    (fun he hk _ => he.toJson_injective hk) hn hk (modules.unique modules' Json.object.inj)
  have sameGenerators := entries_eq (P := fun _ => True)
    (fun _ _ _ => Generator.toJson_injective) (fun _ _ => trivial) (fun _ _ => trivial)
    (generators.unique generators' Json.object.inj)
  obtain ⟨_, _⟩ := ns
  rw [Namespace.mk.injEq]
  exact ⟨sameModules, sameGenerators⟩

end

/-- Two outlines with the same document are the same. -/
theorem Typed.toJson_injective {o k : Outline} (ho : o.Typed) (hk : k.Typed)
    (same : o.toJson = k.toJson) : o = k := by
  obtain ⟨top, rest⟩ := List.cons.inj (Json.object.inj same)
  have sameTop : o.top = k.top := pair_injective (Prod.mk.inj top).2
  have nodes := Json.object.inj (Prod.mk.inj (List.cons.inj rest).1).2
  -- The declarations can be told before the definitions, which are told with them.
  have env := interface?_of_toJson nodes
  have sameNamespaces := entries_eq
    (P := fun n : String × Namespace => n.2.Typed (interface? o.namespaces))
    (fun he hk _ => he.toJson_injective hk) ho (env ▸ hk) nodes
  obtain ⟨_, _⟩ := o
  rw [Outline.mk.injEq]
  exact ⟨sameTop, sameNamespaces⟩

theorem Bound.typed {ps : List (String × ParamKind)} {args : List (String × ArgTree)}
    (h : Bound ps args) : ArgsTyped ps args := by
  intro e he
  have declared := h.declared e.1 (List.mem_map_of_mem he)
  obtain ⟨p, hp, key⟩ := List.mem_map.1 declared
  obtain ⟨a, found, kind, sound⟩ := h.bound p hp
  rw [key, (Assoc.get?_eq_some_iff h.nodup).2 he] at found
  cases found
  exact ⟨(Assoc.get?_eq_some_iff h.different).2 (kind ▸ key ▸ hp), sound⟩

end Outline

/-! ## Sound designs -/

namespace Design

variable {d : Design} {scopes : Plain.Scopes}

/-- What goes by a name is found by it in the outlines. -/
theorem Sound.denotes (h : d.Sound) (hs : d.outlineNamespaces? = some scopes) {t : Target}
    {q : String × String} (symbol : d.symbolText? t = some q) :
    ∃ s, Plain.symbol? scopes q.1 q.2 = some s ∧ d.Denotes q.1 q.2 t s := by
  obtain ⟨found, looked, iff⟩ := h.listed.lookup?_iff q.1 q.2
  obtain ⟨found', looked', denotes⟩ := h.lookup_iff hs q.1 q.2
  cases looked.symm.trans looked'
  rw [(iff t).2 symbol] at denotes
  generalize Plain.symbol? scopes q.1 q.2 = o at denotes
  cases denotes with
  | some denotes => exact ⟨_, rfl, denotes⟩

/-- What is found by a name in the outlines stands for something in the design. -/
theorem Sound.denoted (h : d.Sound) (hs : d.outlineNamespaces? = some scopes)
    {q : String × String} {s : Plain.Symbol} (found : Plain.symbol? scopes q.1 q.2 = some s) :
    ∃ t, d.Denotes q.1 q.2 t s := by
  obtain ⟨t, -, denotes⟩ := h.lookup_iff hs q.1 q.2
  rw [found] at denotes
  cases denotes with
  | some denotes => exact ⟨_, denotes⟩

theorem Sound.outlineInstance_typed (h : d.Sound) (hs : d.outlineNamespaces? = some scopes)
    {i : Instance} (hi : i.Sound d) {o : Outline.Instance} (ho : d.outlineInstance? i = some o) :
    o.Typed (Outline.interface? scopes) := by
  obtain ⟨kind, target, genargs, config, -⟩ := outlineInstance_eq_some_iff.1 ho
  obtain ⟨s, found, denotes⟩ := h.denotes hs target
  obtain ⟨params, hp, fits⟩ := hi.fits
  have generated := hi.genargs
  have interface : Outline.interface? scopes o.target = some s.interface :=
    congrArg (Option.map Plain.Symbol.interface) found
  generalize i.target = t at kind hp generated denotes
  cases denotes with
  | @module id om outline symbol =>
    obtain ⟨m, hm, -, params, -⟩ := outlineModule_eq_some_iff.1 outline
    rw [configParams?, hm] at hp
    cases hp
    have absent : o.genargs = none := by
      cases hg : i.genargs with
      | none => rw [hg] at genargs; exact (Option.some.inj genargs).symm
      | some args => rw [hg] at generated; exact generated.elim
    refine ⟨_, interface, kind, ?_, fun args given => by rw [absent] at given; cases given⟩
    exact (h.bound (h.moduleSound hm).params params hi.config config fits).typed
  | @generator id og outline symbol =>
    obtain ⟨g, hg, genparams, params, -⟩ := outlineGenerator_eq_some_iff.1 outline
    rw [configParams?, hg] at hp
    cases hp
    refine ⟨_, interface, kind,
      (h.bound (h.generatorSound hg).params params hi.config config fits).typed, ?_⟩
    intro args given
    cases hargs : i.genargs with
    | none => rw [hargs] at generated; exact generated.elim
    | some gs =>
      rw [hargs] at generated genargs
      obtain ⟨sound, g', hg', fits⟩ := generated
      cases hg.symm.trans hg'
      obtain ⟨args', outline, same⟩ := Option.map_eq_some_iff.1 genargs
      cases same.trans given
      exact (h.bound (h.generatorSound hg).genparams genparams sound outline fits).typed

theorem Sound.outlineModule_typed (h : d.Sound) (hs : d.outlineNamespaces? = some scopes)
    {id : ModuleId} {o : Outline.Module} (ho : d.outlineModule? id = some o) :
    o.Typed (Outline.interface? scopes) := by
  obtain ⟨m, hm, type, -, -, body⟩ := outlineModule_eq_some_iff.1 ho
  refine ⟨h.typeTree_sound type, fun r hr e he => ?_⟩
  obtain ⟨x, hx, outline⟩ := outlineBody_eq_some_iff.1 (hr ▸ body)
  have sound := ((h.moduleSound hm).definition x hx).2
  obtain ⟨i, hi, -, outline⟩ :=
    exists_of_forall₂ (outlineDefinition_eq_some_iff.1 outline).1.flip he
  obtain ⟨entry, mem, rfl⟩ := List.mem_map.1 hi
  exact h.outlineInstance_typed hs (sound.instance_sound entry mem) outline

/-- In the outline of a sound design every argument has the kind of its parameter. -/
theorem Sound.outline_typed (h : d.Sound) {top : ModuleId} {o : Outline}
    (ho : d.outline? top = some o) : o.Typed := by
  obtain ⟨-, hs⟩ := outline_eq_some_iff.1 ho
  intro n hn e he
  obtain ⟨ns, -, -, outline⟩ := exists_of_forall₂ (outlineNamespaces_eq_some_iff.1 hs).flip hn
  obtain ⟨modules, -⟩ := outlineNamespace_eq_some_iff.1 outline
  obtain ⟨id, -, -, outline⟩ := exists_of_forall₂ (outlineEntries_eq_some_iff.1 modules).flip he
  exact h.outlineModule_typed hs outline

/-- Sound designs with one document have one outline. -/
theorem Sound.outline_of_document {c : Design} (hc : c.Sound) (hd : d.Sound) {t u : ModuleId}
    (live : (c.modules.get? t).isSome) (same : c.document? t = d.document? u) :
    ∃ o, c.outline? t = some o ∧ d.outline? u = some o := by
  obtain ⟨o, ho⟩ := hc.exists_outline live
  have doc : d.document? u = some o.toJson :=
    same.symm.trans (congrArg (Option.map Outline.toJson) ho)
  obtain ⟨k, hk, toJson⟩ := Option.map_eq_some_iff.1 doc
  refine ⟨o, ho, ?_⟩
  rw [hk, (hd.outline_typed hk).toJson_injective (hc.outline_typed ho) toJson]

end Design

end Netlist
