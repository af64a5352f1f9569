-- Sound designs have sound outlines, if no instance in them stands for a generator.
import Netlist.Proofs.Mirror.Document
import Netlist.Proofs.Saved.Sound

namespace Netlist

variable {d : Design}

/-! ## Types and arguments -/

namespace Design

mutual

theorem Unfolds.treeSound (hd : d.Sound) : ∀ {id t}, d.Unfolds id t → t.Sound
  | _, _, .any _ | _, _, .bitIn _ | _, _, .bitOut _ => trivial
  | _, _, .array h ht => ⟨(hd.typeSound h).2, Unfolds.treeSound hd ht⟩
  | _, _, .record h hts => ⟨by
      have keys : List.Forall₂ (fun n s => d.text? n = some s) (Assoc.keys _) (Assoc.keys _) :=
        List.forall₂_map_left_iff.2 (List.forall₂_map_right_iff.2
          ((TypeTable.unfoldsFields_iff.1 hts).imp fun _ _ h => h.1))
      exact (nodup_iff_of_forall₂ (fun hn hk => hd.text_eq_iff hn hk) keys).1 (hd.typeSound h).1,
    UnfoldsFields.treeSound hd hts⟩

theorem UnfoldsFields.treeSound (hd : d.Sound) : ∀ {fields ts}, d.UnfoldsFields fields ts →
    TypeTree.SoundFields ts
  | _, _, .nil => trivial
  | _, _, .cons _ ht hts => ⟨Unfolds.treeSound hd ht, UnfoldsFields.treeSound hd hts⟩

end

theorem Sound.typeTree_sound (hd : d.Sound) {id : TypeId} {t : TypeTree String}
    (h : d.typeTree? id = some t) : t.Sound :=
  (hd.typeTree_eq_some_iff.1 h).treeSound hd

theorem Sound.argTree_sound (hd : d.Sound) {a : Arg} (ha : a.Sound d) {b : ArgTree}
    (h : d.argTree? a = some b) : b.kind = a.kind ∧ b.Sound := by
  cases a with
  | int i => cases h; exact ⟨rfl, ha⟩
  | string s => cases h; exact ⟨rfl, trivial⟩
  | type id =>
    obtain ⟨t, ht, rfl⟩ := Option.map_eq_some_iff.1 h
    exact ⟨rfl, hd.typeTree_sound ht⟩

theorem Sound.nodup_outlineParams (hd : d.Sound) {params : Params}
    (hp : NameMap.Sound d params) {ps : List (String × ParamKind)}
    (h : d.outlineParams? params = some ps) : (Assoc.keys ps).Nodup :=
  (hd.nodup_keys_iff h).1 hp.consistent.nodup

/-- Arguments that fit bind the parameters in the outline. -/
theorem Sound.bound (hd : d.Sound) {params : Params} {ps : List (String × ParamKind)}
    (hp : NameMap.Sound d params) (h : d.outlineParams? params = some ps) {config : Args}
    (hc : Args.Sound d config) {args : List (String × ArgTree)}
    (h' : d.outlineArgs? config = some args) (fits : params.Fits config) :
    Outline.Bound ps args := by
  obtain ⟨met, declared⟩ := (Params.fits_iff params config).1 fits
  refine ⟨hd.nodup_outlineParams hp h, (hd.nodup_keys_iff h').1 hc.consistent.nodup, ?_, ?_⟩
  · intro key hk
    obtain ⟨r, hr, rfl⟩ := List.mem_map.1 hk
    obtain ⟨e, he, text, -⟩ := exists_of_forall₂ (outlineEntries_eq_some_iff.1 h').flip hr
    have contained := declared e.1 (List.mem_map_of_mem he)
    rw [hp.consistent.contains_iff] at contained
    exact (hd.mem_keys_iff h text).1 contained
  · intro p hp'
    obtain ⟨e, he, text, kind⟩ := exists_of_forall₂ (outlineEntries_eq_some_iff.1 h).flip hp'
    obtain ⟨a, ha, same⟩ := met e he
    rw [hc.consistent.get?_eq] at ha
    have found := hd.get?_outlineEntries h' text
    rw [ha] at found
    generalize Assoc.get? p.1 args = o at found
    cases found with
    | @some _ b hb =>
      obtain ⟨kinds, sound⟩ := hd.argTree_sound (hc.values _ (Assoc.mem_of_get? ha)) hb
      exact ⟨b, rfl, by rw [kinds, same, Option.some.inj kind], sound⟩

/-! ## Definitions -/

/-- What a module is called by is the module in the outlines. -/
theorem Sound.signature?_module (hd : d.Sound) {scopes : Plain.Scopes}
    (hs : d.outlineNamespaces? = some scopes) {id : ModuleId} {target : String × String}
    (h : d.symbolText? (.module id) = some target) :
    ∃ m, d.outlineModule? id = some m ∧
      Plain.signature? scopes target = some (.module, m.params) := by
  obtain ⟨sid, n, ns, place, hns, hscope, hname⟩ := symbolText_eq_some_iff.1 h
  obtain ⟨m, hm, same⟩ := Option.map_eq_some_iff.1 place
  cases same
  obtain ⟨ns', hns', listed⟩ := (hd.moduleSound hm).scope
  cases hns.symm.trans hns'
  have all := (outlineNamespaces_eq_entries d _).1 hs
  have foundScope := hd.get?_outlineEntries all hscope
  rw [(Assoc.get?_eq_some_iff hd.nodup_namespaceEntries).2
    (mem_namespaceEntries.2 ⟨rfl, _, hns⟩)] at foundScope
  generalize hr : Assoc.get? target.1 scopes = o at foundScope
  cases foundScope with
  | @some _ r outline =>
    have found := hd.get?_outlineEntries (outlineNamespace_eq_some_iff.1 outline).1 hname
    rw [(Assoc.get?_eq_some_iff (hd.modules hns).nodup).2 listed] at found
    generalize hx : Assoc.get? target.2 r.modules = o at found
    cases found with
    | @some _ x outline =>
      refine ⟨x, outline, ?_⟩
      rw [Plain.signature?, Plain.symbol?, hr, Option.bind_some, Plain.symbolIn?, hx]
      rfl

variable {scopes : Plain.Scopes} {x : Definition} {r : Outline.Definition}

theorem Sound.outlineInstance_sound (hd : d.Sound) (hs : d.outlineNamespaces? = some scopes)
    {i : Instance} (hi : i.Sound d) {o : Outline.Instance} (ho : d.outlineInstance? i = some o)
    (only : o.kind = .module) : o.Sound (Plain.signature? scopes) := by
  obtain ⟨kind, target, genargs, config, metadata⟩ := outlineInstance_eq_some_iff.1 ho
  obtain ⟨params, hparams, fits⟩ := hi.fits
  have generated := hi.genargs
  generalize i.target = t at kind target hparams generated
  cases t with
  | generator id => cases kind.trans only
  | module id =>
    obtain ⟨m, hm, rfl⟩ := Option.map_eq_some_iff.1 hparams
    obtain ⟨om, outline, signature⟩ := hd.signature?_module hs target
    obtain ⟨m', hm', -, params, -⟩ := outlineModule_eq_some_iff.1 outline
    cases hm.symm.trans hm'
    have none : i.genargs = none := by
      cases hg : i.genargs with
      | none => rfl
      | some args => rw [hg] at generated; cases generated
    rw [none] at genargs
    refine ⟨only, (Option.some.inj genargs).symm, ⟨_, signature, ?_⟩, metadata ▸ hi.metadata⟩
    exact hd.bound (hd.moduleSound hm).params params hi.config config fits

/-- An end begins at the module or at an instance that is listed in the outline. -/
theorem Sound.endOf (hd : d.Sound) (hx : x.Sound d) (ho : d.outlineDefinition? x = some r)
    {p : WirePath} (hp : x.SoundEnd d p) {words : List String}
    (h : d.outlinePath? p = some words) : Plain.EndOf (Assoc.keys r.instances) words := by
  have texts := outlinePath_eq_some_iff.1 h
  cases texts with
  | @cons _ w _ _ text _ =>
  refine ⟨fun empty => hp.full ?_, ?_⟩
  · rw [text]
    exact congrArg some empty
  · refine hp.root.imp (hd.text_eq_iff text hd.self).1 fun contained => ?_
    rw [hx.instances.consistent.contains_iff] at contained
    exact (hd.mem_keys_iff (Document.outline_instances hx ho) text).1 contained

/-- Things that do not link still do not in the outline. -/
theorem Sound.unlinked (hd : d.Sound) {cs : List Connection} {rs : List Outline.Connection}
    (h : List.Forall₂ (fun c r => d.outlineConnection? c = some r) cs rs)
    (unlinked : cs.Pairwise fun c k => c.links k.first k.second = false) :
    rs.Pairwise fun c k => Plain.links c k.first k.second = false := by
  induction h with
  | nil => exact .nil
  | @cons c o cs rs hc rest ih =>
    obtain ⟨here, others⟩ := List.pairwise_cons.1 unlinked
    refine .cons (fun k hk => ?_) (ih others)
    obtain ⟨l, hl, outline⟩ := exists_of_forall₂ rest.flip hk
    obtain ⟨first, second, -⟩ := outlineConnection_eq_some_iff.1 hc
    obtain ⟨first', second', -⟩ := outlineConnection_eq_some_iff.1 outline
    have same : Plain.links o k.first k.second = c.links l.first l.second := by
      rw [Bool.eq_iff_iff]
      simp only [Connection.links, Plain.links, Definition.sameEnds, Bool.or_eq_true,
        Bool.and_eq_true, beq_iff_eq, Document.path_eq_iff hd first first',
        Document.path_eq_iff hd first second', Document.path_eq_iff hd second first',
        Document.path_eq_iff hd second second']
    rw [same]
    exact here l hl

theorem Sound.outlineDefinition_sound (hd : d.Sound) (hs : d.outlineNamespaces? = some scopes)
    (hx : x.Sound d) (ho : d.outlineDefinition? x = some r)
    (only : ∀ i ∈ r.instances, i.2.kind = .module) : r.Sound (Plain.signature? scopes) := by
  have instances := Document.outline_instances hx ho
  have listed := outlineEntries_eq_some_iff.1 instances
  obtain ⟨-, connections, implementations, metadata⟩ := outlineDefinition_eq_some_iff.1 ho
  refine
    { nodup := (hd.nodup_keys_iff instances).1 hx.instances.consistent.nodup
      named := fun e he => ?_
      instances := fun e he => ?_
      ends := fun c hc => ?_
      unlinked := hd.unlinked connections hx.unlinked
      connection_metadata := fun c hc => ?_
      implementations := implementations ▸ hx.implementations
      metadata := metadata ▸ hx.metadata }
  · obtain ⟨i, hi, text, -⟩ := exists_of_forall₂ listed.flip he
    exact fun self => (hx.instance_name i hi).2 ((hd.text_eq_iff text hd.self).2 self)
  · obtain ⟨i, hi, -, outline⟩ := exists_of_forall₂ listed.flip he
    exact hd.outlineInstance_sound hs (hx.instance_sound i hi) outline (only e he)
  · obtain ⟨k, hk, outline⟩ := exists_of_forall₂ connections.flip hc
    obtain ⟨first, second, -⟩ := outlineConnection_eq_some_iff.1 outline
    exact ⟨hd.endOf hx ho (hx.ends k hk).1 first, hd.endOf hx ho (hx.ends k hk).2 second⟩
  · obtain ⟨k, hk, outline⟩ := exists_of_forall₂ connections.flip hc
    obtain ⟨-, -, same⟩ := outlineConnection_eq_some_iff.1 outline
    exact same ▸ hx.connection_metadata k hk

/-! ## Modules, generators and namespaces -/

theorem Sound.outlineModule_sound (hd : d.Sound) (hs : d.outlineNamespaces? = some scopes)
    {id : ModuleId} {o : Outline.Module} (ho : d.outlineModule? id = some o)
    (only : ∀ r, o.definition = some r → ∀ i ∈ r.instances, i.2.kind = .module) :
    o.Sound (Plain.signature? scopes) := by
  obtain ⟨m, hm, type, params, metadata, body⟩ := outlineModule_eq_some_iff.1 ho
  have sound := hd.moduleSound hm
  refine ⟨hd.typeTree_sound type, hd.nodup_outlineParams sound.params params,
    metadata ▸ sound.metadata, fun r hr => ?_⟩
  obtain ⟨x, hx, outline⟩ := outlineBody_eq_some_iff.1 (hr ▸ body)
  exact hd.outlineDefinition_sound hs (sound.definition x hx).2 outline (only r hr)

theorem Sound.outlineGenerator_sound (hd : d.Sound) {id : GeneratorId} {o : Outline.Generator}
    (ho : d.outlineGenerator? id = some o) : o.Sound := by
  obtain ⟨g, hg, genparams, params, metadata⟩ := outlineGenerator_eq_some_iff.1 ho
  have sound := hd.generatorSound hg
  exact ⟨hd.nodup_outlineParams sound.genparams genparams,
    hd.nodup_outlineParams sound.params params, metadata ▸ sound.metadata⟩

/-- No name is listed twice in the outline of a namespace. -/
theorem Sound.nodup_outlineNamespace (hd : d.Sound) {id : NamespaceId} {ns : Namespace}
    (hns : d.namespaces.get? id = some ns) {o : Outline.Namespace}
    (ho : d.outlineNamespace? ns = some o) : o.names.Nodup := by
  obtain ⟨modules, generators⟩ := outlineNamespace_eq_some_iff.1 ho
  refine List.nodup_append.2 ⟨?_, ?_, ?_⟩
  · exact (hd.nodup_keys_iff modules).1 (hd.modules hns).nodup
  · exact (hd.nodup_keys_iff generators).1 (hd.generators hns).nodup
  · rintro name hm _ hg rfl
    obtain ⟨e, he, rfl⟩ := List.mem_map.1 hm
    obtain ⟨listed, hl, text, -⟩ := exists_of_forall₂ (outlineEntries_eq_some_iff.1 modules).flip he
    exact (hd.namespaceSound hns).apart listed.1 (List.mem_map_of_mem hl)
      ((hd.mem_keys_iff generators text).2 hg)

theorem Sound.outlineNamespace_sound (hd : d.Sound) (hs : d.outlineNamespaces? = some scopes)
    {id : NamespaceId} {ns : Namespace} (hns : d.namespaces.get? id = some ns)
    {o : Outline.Namespace} (ho : d.outlineNamespace? ns = some o)
    (only : ∀ e ∈ o.modules, ∀ r, e.2.definition = some r → ∀ i ∈ r.instances, i.2.kind = .module) :
    o.Sound (Plain.signature? scopes) := by
  obtain ⟨modules, generators⟩ := outlineNamespace_eq_some_iff.1 ho
  refine ⟨hd.nodup_outlineNamespace hns ho, fun e he => ?_, fun e he => ?_⟩
  · obtain ⟨_, -, -, outline⟩ := exists_of_forall₂ (outlineEntries_eq_some_iff.1 modules).flip he
    exact hd.outlineModule_sound hs outline (only e he)
  · obtain ⟨_, -, -, outline⟩ := exists_of_forall₂ (outlineEntries_eq_some_iff.1 generators).flip he
    exact hd.outlineGenerator_sound outline

end Design

/-! ## Whole designs -/

/-- Whether everything that is instantiated is a module. -/
def Outline.ModulesOnly (o : Outline) : Prop :=
  ∀ n ∈ o.namespaces, ∀ e ∈ n.2.modules, ∀ r, e.2.definition = some r →
    ∀ i ∈ r.instances, i.2.kind = .module

namespace Design

/-- Whether no definition in the design has an instance of a generator. -/
def ModulesOnly (d : Design) : Prop :=
  ∀ m ∈ d.modules.toList, ∀ x ∈ m.definition, ∀ i ∈ x.instances.values, i.target.kind = .module

instance (d : Design) : Decidable d.ModulesOnly :=
  inferInstanceAs (Decidable (∀ m ∈ d.modules.toList, ∀ x ∈ m.definition,
    ∀ i ∈ x.instances.values, i.target.kind = .module))

/-- The outline of a sound design is sound, if only modules are instantiated. -/
theorem Sound.outline_sound (hd : d.Sound) {top : ModuleId} {o : Outline}
    (ho : d.outline? top = some o) (only : o.ModulesOnly) : o.Sound := by
  obtain ⟨symbol, hs⟩ := outline_eq_some_iff.1 ho
  have all := (outlineNamespaces_eq_entries d _).1 hs
  obtain ⟨m, -, signature⟩ := hd.signature?_module hs symbol
  refine ⟨(hd.nodup_keys_iff all).1 hd.nodup_namespaceEntries, fun n hn => ?_, ⟨_, signature⟩⟩
  obtain ⟨⟨_, ns⟩, listed, -, outline⟩ :=
    exists_of_forall₂ (outlineEntries_eq_some_iff.1 all).flip hn
  obtain ⟨-, id, hns⟩ := mem_namespaceEntries.1 listed
  exact hd.outlineNamespace_sound hs hns outline (only n hn)

/-- The outline instantiates only modules if the design does. -/
theorem ModulesOnly.outline (only : d.ModulesOnly) {top : ModuleId} {o : Outline}
    (ho : d.outline? top = some o) : o.ModulesOnly := by
  obtain ⟨-, hs⟩ := outline_eq_some_iff.1 ho
  intro n hn e he r hr i hi
  obtain ⟨ns, -, -, outline⟩ := exists_of_forall₂ (outlineNamespaces_eq_some_iff.1 hs).flip hn
  obtain ⟨modules, -⟩ := outlineNamespace_eq_some_iff.1 outline
  obtain ⟨_, -, -, outline⟩ := exists_of_forall₂ (outlineEntries_eq_some_iff.1 modules).flip he
  obtain ⟨m, hm, -, -, -, body⟩ := outlineModule_eq_some_iff.1 outline
  obtain ⟨x, hx, outline⟩ := outlineBody_eq_some_iff.1 (hr ▸ body)
  obtain ⟨j, hj, -, outline⟩ := exists_of_forall₂ (outlineDefinition_eq_some_iff.1 outline).1.flip hi
  rw [← (outlineInstance_eq_some_iff.1 outline).1]
  exact only m (Table.mem_toList_iff.2 ⟨_, hm⟩) x hx j hj

end Design

end Netlist
