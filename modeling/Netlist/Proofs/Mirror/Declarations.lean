-- The first pass of a load: declaring what a document names mirrors adding it to the
-- outlines of the namespaces. Modules that were there before stay exactly as they are.
import Netlist.Proofs.Mirror.Bindings

namespace Netlist

namespace Design

/-! ## Designs that only got more declarations -/

/-- The design grew, and no module got a definition by it. -/
structure Extends (c d : Design) : Prop where
  grows : c.Grows d
  modules : ∀ {id m}, c.modules.get? id = some m → d.modules.get? id = some m

variable {b c d : Design}

theorem Extends.refl (d : Design) : d.Extends d := ⟨.refl d, id⟩

theorem Extends.trans (h : b.Extends c) (k : c.Extends d) : b.Extends d :=
  ⟨h.grows.trans k.grows, fun hm => k.modules (h.modules hm)⟩

theorem Interns.extends (h : c.Interns d) : c.Extends d :=
  ⟨h.grows, fun hm => by rw [h.modules]; exact hm⟩

instance : Trans Extends Extends Extends := ⟨Extends.trans⟩

instance : Trans Interns Extends Extends := ⟨fun h k => h.extends.trans k⟩

instance : Trans Extends Grows Grows := ⟨fun h k => h.grows.trans k⟩

theorem Extends.keeps (h : c.Extends d) : c.Keeps d := h.grows.keeps

section

variable (e : c.Extends d) (hd : d.Sound)
include e hd

theorem Extends.outlineModule {id : ModuleId} {r : Outline.Module}
    (h : c.outlineModule? id = some r) : d.outlineModule? id = some r := by
  rw [outlineModule_eq_some_iff] at h ⊢
  obtain ⟨m, hm, type, params, metadata, body⟩ := h
  exact ⟨m, e.modules hm, e.keeps.typeTree hd type, e.keeps.outlineParams params, metadata,
    e.keeps.outlineBody hd body⟩

omit hd in
theorem Extends.outlineGenerator {id : GeneratorId} {r : Outline.Generator}
    (h : c.outlineGenerator? id = some r) : d.outlineGenerator? id = some r := by
  rw [outlineGenerator_eq_some_iff] at h ⊢
  obtain ⟨g, hg, genparams, params, metadata⟩ := h
  exact ⟨g, e.grows.generators hg, e.keeps.outlineParams genparams, e.keeps.outlineParams params,
    metadata⟩

/-- What a namespace lists keeps its outline. -/
theorem Extends.outlineNamespace {ns : Namespace} {r : Outline.Namespace}
    (h : c.outlineNamespace? ns = some r) : d.outlineNamespace? ns = some r := by
  rw [outlineNamespace_eq_some_iff] at h ⊢
  exact ⟨e.keeps.outlineEntries (e.outlineModule hd) h.1,
    e.keeps.outlineEntries e.outlineGenerator h.2⟩

end

/-! ## Namespaces by name -/

/-- The namespaces, each under its name. -/
def namespaceEntries (d : Design) : List (Name × Namespace) :=
  d.namespaces.toList.map fun ns => (ns.name, ns)

theorem outlineNamespaces_eq_entries (d : Design) (r : Plain.Scopes) :
    d.outlineNamespaces? = some r ↔
      d.outlineEntries? d.outlineNamespace? d.namespaceEntries = some r := by
  rw [outlineNamespaces_eq_some_iff, outlineEntries_eq_some_iff, namespaceEntries,
    List.forall₂_map_left_iff]

theorem mem_namespaceEntries {n : Name} {ns : Namespace} :
    (n, ns) ∈ d.namespaceEntries ↔ ns.name = n ∧ ∃ id, d.namespaces.get? id = some ns := by
  simp only [namespaceEntries, List.mem_map, Prod.mk.injEq]
  constructor
  · rintro ⟨ns', h, rfl, rfl⟩
    exact ⟨rfl, Table.mem_toList_iff.1 h⟩
  · rintro ⟨rfl, h⟩
    exact ⟨ns, Table.mem_toList_iff.2 h, rfl, rfl⟩

/-- No two namespaces have one name. -/
theorem Regular.namespace_unique (h : d.Regular) {id id' : NamespaceId} {ns ns' : Namespace}
    (hns : d.namespaces.get? id = some ns) (hns' : d.namespaces.get? id' = some ns')
    (same : ns.name = ns'.name) : id = id' := by
  have first := (h.scopes ns.name id).2 ⟨ns, hns, rfl⟩
  have second := (h.scopes ns.name id').2 ⟨ns', hns', same.symm⟩
  exact Option.some.inj (first.symm.trans second)

theorem Regular.nodup_namespaceEntries (h : d.Regular) :
    (Assoc.keys d.namespaceEntries).Nodup := by
  rw [Assoc.keys, namespaceEntries, List.map_map, List.nodup_iff_pairwise_ne,
    List.pairwise_map, List.pairwise_iff_getElem]
  intro i j hi hj hij same
  have get : ∀ k (hk : k < d.namespaces.toList.length),
      d.namespaces.get? ⟨k⟩ = some d.namespaces.toList[k] := fun k hk => by
    rw [Table.get?_eq_toList]
    exact List.getElem?_eq_getElem hk
  have := h.namespace_unique (get i hi) (get j hj) same
  cases this
  exact absurd hij (Nat.lt_irrefl _)

/-- To change a namespace is to set the entry of its name. -/
theorem Regular.namespaceEntries_modify (h : d.Regular) {scope : NamespaceId} {ns : Namespace}
    (hns : d.namespaces.get? scope = some ns) {f : Namespace → Namespace}
    (name : ∀ ns, (f ns).name = ns.name) :
    { d with namespaces := d.namespaces.modify scope f }.namespaceEntries =
      Assoc.set ns.name (f ns) d.namespaceEntries := by
  rw [Assoc.set_eq_modify _ h.nodup_namespaceEntries
    (List.mem_map_of_mem (mem_namespaceEntries.2 ⟨rfl, scope, hns⟩))]
  refine List.ext_getElem? fun i => ?_
  simp only [namespaceEntries, Assoc.modify, List.getElem?_map, List.map_map]
  have at_i := Table.get?_modify d.namespaces scope ⟨i⟩ f
  rw [Table.get?_eq_toList, Table.get?_eq_toList] at at_i
  change (d.namespaces.modify scope f).toList[i]? = _ at at_i
  rw [at_i]
  cases hi : d.namespaces.toList[i]? with
  | none => simp
  | some ns' =>
    have get : d.namespaces.get? ⟨i⟩ = some ns' := by rw [Table.get?_eq_toList]; exact hi
    by_cases hs : scope = ⟨i⟩
    · subst hs
      rw [get] at hns
      cases hns
      simp [name]
    · have other : ns'.name ≠ ns.name := fun same => hs (h.namespace_unique hns get same.symm)
      simp [hs, other]

end Design

namespace Design

/-! ## A namespace while a document is read into it -/

/-- The namespace under this number has this outline now, among the others. -/
def Scoped (d : Design) (scope : NamespaceId) (name : String) (scopes : Plain.Scopes)
    (r : Outline.Namespace) : Prop :=
  d.outlineNamespaces? = some (Assoc.set name r scopes) ∧
    ∃ ns, d.namespaces.get? scope = some ns ∧ d.text? ns.name = some name

variable {c d : Design} {scope : NamespaceId} {name : String} {scopes : Plain.Scopes}
  {r r' : Outline.Namespace}

theorem Scoped.outline (h : d.Scoped scope name scopes r) (hd : d.Sound) :
    ∃ ns, d.namespaces.get? scope = some ns ∧ d.text? ns.name = some name ∧
      d.outlineNamespace? ns = some r := by
  obtain ⟨all, ns, hns, text⟩ := h
  refine ⟨ns, hns, text, ?_⟩
  have found := hd.get?_outlineEntries ((outlineNamespaces_eq_entries d _).1 all) text
  rw [Assoc.get?_set, if_pos rfl,
    (Assoc.get?_eq_some_iff hd.nodup_namespaceEntries).2 (mem_namespaceEntries.2 ⟨rfl, scope, hns⟩)]
    at found
  cases found with
  | some h => exact h

/-- The outlines stay while only names and types come. -/
theorem Interns.outlineNamespaces (i : c.Interns d) (hd : d.Sound)
    (h : c.outlineNamespaces? = some scopes) : d.outlineNamespaces? = some scopes := by
  rw [outlineNamespaces_eq_entries] at h ⊢
  rw [namespaceEntries, i.namespaces]
  exact i.keeps.outlineEntries (i.extends.outlineNamespace hd) h

theorem Scoped.interns (h : c.Scoped scope name scopes r) (i : c.Interns d) (hd : d.Sound) :
    d.Scoped scope name scopes r := by
  obtain ⟨all, ns, hns, text⟩ := h
  exact ⟨i.outlineNamespaces hd all, ns, i.namespaces ▸ hns, i.keeps.names text⟩

/-- The namespace has another outline when something is put in it. -/
theorem Scoped.update (h : c.Scoped scope name scopes r) (hc : c.Sound) (hd : d.Sound)
    (e : c.Extends d) {f : Namespace → Namespace}
    (table : d.namespaces = c.namespaces.modify scope f) (names : ∀ ns, (f ns).name = ns.name)
    (outline : ∀ ns, c.namespaces.get? scope = some ns → c.outlineNamespace? ns = some r →
      d.outlineNamespace? (f ns) = some r') : d.Scoped scope name scopes r' := by
  obtain ⟨ns, hns, text, hr⟩ := h.outline hc
  have all := (outlineNamespaces_eq_entries c _).1 h.1
  have entries : d.namespaceEntries = Assoc.set ns.name (f ns) c.namespaceEntries := by
    rw [← hc.namespaceEntries_modify hns names, namespaceEntries, table]
    rfl
  refine ⟨?_, f ns, ?_, by rw [names]; exact e.keeps.names text⟩
  · rw [outlineNamespaces_eq_entries, entries, ← Assoc.set_set name r]
    exact hd.outlineEntries_set (e.keeps.outlineEntries (e.outlineNamespace hd) all)
      (e.keeps.names text) (outline ns hns hr)
  · rw [table, Table.get?_modify, if_pos rfl, hns]
    rfl

/-- A name is taken in a namespace if its text is. -/
theorem hasSymbol_iff (hd : d.Sound) {id : NamespaceId} {ns : Namespace}
    (hns : d.namespaces.get? id = some ns) (hr : d.outlineNamespace? ns = some r) {n : Name}
    {s : String} (text : d.text? n = some s) :
    ns.hasSymbol n = true ↔ s ∈ Assoc.keys r.modules ∨ s ∈ Assoc.keys r.generators := by
  obtain ⟨modules, generators⟩ := outlineNamespace_eq_some_iff.1 hr
  rw [Namespace.hasSymbol, Bool.or_eq_true, (hd.modules hns).contains_iff,
    (hd.generators hns).contains_iff]
  exact or_congr (hd.mem_keys_iff modules text) (hd.mem_keys_iff generators text)

end Design

namespace Document

open Design Edit Mirrors

variable {d : Design} {scope : NamespaceId} {scopeName : String} {scopes : Plain.Scopes}
  {r : Outline.Namespace}

/-- A name is taken in a namespace and in its outline, or it is free in both. -/
theorem requireFree_cases (hd : d.Sound) (h : d.Scoped scope scopeName scopes r) {n : Name}
    {name : String} (text : d.text? n = some name) :
    requireFree scope n d = .error (.error (.duplicateSymbol scopeName name)) d ∧
        Plain.requireFree r scopeName name = .error (.ofGraph (.duplicateSymbol scopeName name)) ∨
      d.Free scope n ∧ Plain.requireFree r scopeName name = .ok () := by
  obtain ⟨ns, hns, nsText, hr⟩ := h.outline hd
  have taken := hasSymbol_iff hd hns hr text
  unfold Plain.requireFree
  cases hs : ns.hasSymbol n with
  | true =>
    refine Or.inl ⟨?_, if_pos (taken.1 hs)⟩
    rw [requireFree_apply, hns]
    simp [hs, nsText, text, Failure.ofOption]
  | false =>
    refine Or.inr ⟨⟨ns, hns, hs⟩, if_neg fun h => ?_⟩
    rw [taken.2 h] at hs
    cases hs

/-! ## Modules -/

/-- A module without a definition, which is known by its text. -/
structure Awaits (d : Design) (u : Undefined) (p : Plain.Pending) : Prop where
  node : u.node = p.node
  wellFormed : p.node.WellFormed
  symbol : d.symbolText? (.module u.id) = some (p.scope, p.name)
  undefined : ∃ m, d.modules.get? u.id = some m ∧ m.definition = none

/-- Modules that await their definitions, all different, and none of them in the older design. -/
structure Awaiting (c d : Design) (us : List Undefined) (ps : List Plain.Pending) : Prop where
  each : List.Forall₂ (Awaits d) us ps
  nodup : (us.map (·.id)).Nodup
  new : ∀ u ∈ us, c.modules.get? u.id = none

theorem Awaiting.nil (c d : Design) : Awaiting c d [] [] :=
  ⟨.nil, List.nodup_nil, fun u hu => by cases hu⟩

theorem Awaits.extend {c : Design} {u : Undefined} {p : Plain.Pending} (h : Awaits c u p)
    (e : c.Extends d) : Awaits d u p := by
  obtain ⟨m, hm, none⟩ := h.undefined
  exact ⟨h.node, h.wellFormed, e.keeps.symbolText h.symbol, m, e.modules hm, none⟩

theorem Awaiting.extend {b c : Design} {us : List Undefined} {ps : List Plain.Pending}
    (h : Awaiting b c us ps) (e : c.Extends d) : Awaiting b d us ps :=
  { h with each := h.each.imp fun _ _ h => h.extend e }

theorem Awaiting.append {b c : Design} {us vs : List Undefined} {ps qs : List Plain.Pending}
    (h : Awaiting b c us ps) (k : Awaiting c d vs qs) (e : b.Extends c) (e' : c.Extends d) :
    Awaiting b d (us ++ vs) (ps ++ qs) where
  each := List.rel_append (h.each.imp fun _ _ h => h.extend e') k.each
  nodup := by
    rw [List.map_append, List.nodup_append]
    refine ⟨h.nodup, k.nodup, fun id hid id' hid' same => ?_⟩
    subst same
    obtain ⟨u, hu, rfl⟩ := List.mem_map.1 hid
    obtain ⟨v, hv, same⟩ := List.mem_map.1 hid'
    obtain ⟨p, -, awaits⟩ := exists_of_forall₂ h.each hu
    obtain ⟨m, hm, -⟩ := awaits.undefined
    have := k.new v hv
    rw [same, hm] at this
    cases this
  new u hu := by
    rcases List.mem_append.1 hu with hu | hu
    · exact h.new u hu
    · cases hb : b.modules.get? u.id with
      | none => rfl
      | some m =>
        have := k.new u hu
        rw [e.modules hb] at this
        cases this

theorem extends_addModule {n : Name} (free : d.Free scope n) (type : TypeId) (params : Params)
    (metadata : Metadata) : d.Extends (d.addModule scope n type params metadata) :=
  ⟨grows_addModule free type params metadata, get?_push_of_get?⟩

/-- The namespace lists the new module last. -/
theorem scoped_addModule (h : d.Scoped scope scopeName scopes r) (hd : d.Sound) {n : Name}
    {name : String} (text : d.text? n = some name) (free : d.Free scope n) {type : TypeId}
    {t : TypeTree String} (ht : d.typeTree? type = some t) {params : Params}
    {ps : List (String × ParamKind)} (hp : SoundParams d params ps) {metadata : Metadata}
    (hd' : (d.addModule scope n type params metadata).Sound) :
    (d.addModule scope n type params metadata).Scoped scope scopeName scopes
      { r with modules := r.modules ++ [(name, ⟨t, ps, metadata, none⟩)] } := by
  have e := extends_addModule free type params metadata
  refine h.update hd hd' e (f := (·.addModule n d.modules.nextId)) rfl (fun _ => rfl)
    fun ns hns hr => ?_
  obtain ⟨modules, generators⟩ := outlineNamespace_eq_some_iff.1 hr
  refine outlineNamespace_eq_some_iff.2
    ⟨?_, e.keeps.outlineEntries e.outlineGenerator generators⟩
  rw [Namespace.addModule, NameMap.insert_of_fresh (free.contains hns).1, NameMap.toList_append]
  refine outlineEntries_append (e.keeps.outlineEntries (e.outlineModule hd') modules)
    (outlineEntries_singleton (e.keeps.names text) (outlineModule_eq_some_iff.2
      ⟨_, (Table.get?_push _ _ _).trans (if_pos rfl), ?_, ?_, rfl, rfl⟩))
  · exact e.keeps.typeTree hd' ht
  · exact e.keeps.outlineParams hp.2

/-- The new module awaits its definition. -/
theorem awaiting_addModule (h : d.Scoped scope scopeName scopes r) {n : Name} {name : String}
    (text : d.text? n = some name) (free : d.Free scope n) (type : TypeId) (params : Params)
    (metadata : Metadata) {node : Option Json} (wf : ∀ v ∈ node, v.WellFormed) :
    Awaiting d (d.addModule scope n type params metadata)
      (node.map (Undefined.mk d.modules.nextId)).toList
      (node.map (Plain.Pending.mk scopeName name)).toList := by
  cases node with
  | none => exact .nil _ _
  | some node =>
    have e := extends_addModule free type params metadata
    obtain ⟨-, ns, hns, nsText⟩ := h
    have new : (d.addModule scope n type params metadata).modules.get? d.modules.nextId =
        some ⟨d.modules.nextId, n, scope, type, params, metadata, none⟩ :=
      (Table.get?_push _ _ _).trans (if_pos rfl)
    have awaits : Awaits (d.addModule scope n type params metadata)
        ⟨d.modules.nextId, node⟩ ⟨scopeName, name, node⟩ := by
      refine ⟨rfl, wf node rfl, symbolText_eq_some_iff.2 ?_, _, new, rfl⟩
      refine ⟨scope, n, ns.addModule n d.modules.nextId, ?_, ?_, e.keeps.names nsText,
        e.keeps.names text⟩
      · rw [placeOf?, new]
        rfl
      · rw [Design.addModule, Table.get?_modify, if_pos rfl, hns]
        rfl
    refine ⟨.cons awaits .nil, by simp, fun u hu => ?_⟩
    rw [Option.map_some, Option.toList_some, List.mem_singleton] at hu
    subst hu
    exact Table.get?_eq_none_of_size_le (Nat.le_refl _)

theorem mirrors_addModule (sound : d.Sound) (h : d.Scoped scope scopeName scopes r)
    (name : String) {type : TypeId} {t : TypeTree String} (ht : d.typeTree? type = some t)
    {params : Params} {ps : List (String × ParamKind)} (hp : SoundParams d params ps)
    {metadata : Reading Metadata} (wf : ∀ {md}, metadata = .ok md → md.WellFormed)
    {node : Option Json} (wfNode : ∀ v ∈ node, v.WellFormed) :
    Mirrors Extends d
      (do
        let id ← (Edit.declareModule scope name type params).within .ofGraph
        Edit.setModuleMetadata id (← metadata)
        return (node.map (Undefined.mk id)).toList : Load (List Undefined))
      (do
        Plain.requireFree r scopeName name
        let md ← metadata
        return ({ r with modules := r.modules ++ [(name, ⟨t, ps, md, none⟩)] },
          (node.map (Plain.Pending.mk scopeName name)).toList))
      fun d' us x => d'.Scoped scope scopeName scopes x.1 ∧ Awaiting d d' us x.2 := by
  have i := interns_withName d name
  have sound₁ := sound.withName name
  have text := sound.text_withName name
  have h₁ := h.interns i sound₁
  rcases requireFree_cases sound₁ h₁ text with ⟨stopped, asked⟩ | ⟨free, asked⟩
  · rw [asked]
    refine .error (bind_of_error ?_) sound₁
    rw [within_apply, Edit.declareModule, bind_of_ok (intern_apply name d), bind_of_error stopped]
    rfl
  · rw [asked]
    have declared := within_of_ok (f := LoadError.ofGraph) (declareModule_of_free free type params)
    have type₁ := i.keeps.typeTree sound₁ ht
    have params₁ := hp.keep i.keeps
    have sound₂ {md : Metadata} (wf : md.WellFormed) := sound₁.addModule free
      (Option.isSome_of_eq_some text) (sound₁.typeTree_eq_some_iff.1 type₁).isSome params₁.1 wf
    cases hmd : metadata with
    | error e => exact .error (bind_of_ok declared) (sound₂ Metadata.wellFormed_empty)
    | ok md =>
      have annotated := setModuleMetadata_addModule (ε := LoadError) (d := d.withName name) scope
        (d.names.intern name).1 type params md
      have sound₂ := sound₂ (wf hmd)
      refine .ok ((bind_of_ok declared).trans (bind_of_ok annotated)) sound₂
        (i.extends.trans (extends_addModule free ..)) ⟨?_, ?_⟩
      · exact scoped_addModule h₁ sound₁ text free type₁ params₁ sound₂
      · exact { awaiting_addModule h₁ text free type params md wfNode with }

theorem mirrors_declareModule {scope : NamespaceId} {scopes : Plain.Scopes} (scopeName name : String)
    {node : Json} (wf : node.WellFormed) {d : Design} {r : Outline.Namespace} (sound : d.Sound)
    (h : d.Scoped scope scopeName scopes r) :
    Mirrors Extends d (declareModule scope scopeName name node)
      (Plain.declareModule scopeName name node r)
      fun d' us x => d'.Scoped scope scopeName scopes x.1 ∧ Awaiting d d' us x.2 := by
  unfold declareModule Plain.declareModule
  refine (Mirrors.reading sound _).bind fun {ms _ d₁} hms sound₁ i₁ same => ?_
  subst same
  refine (Mirrors.reading sound₁ _).bind fun {typeNode _ d₂} _ sound₂ i₂ same => ?_
  subst same
  refine (mirrors_readType typeNode sound₂).bind fun {type t d₃} _ sound₃ i₃ ht => ?_
  refine (mirrors_readParams? sound₃ ms _).bind fun {params ps d₄} _ sound₄ i₄ hp => ?_
  have i := ((i₁.trans i₂).trans i₃).trans i₄
  have type₄ := sound₄.typeTree_eq_some_iff.2 (ht.keep i₄.keeps)
  refine (mirrors_addModule sound₄ (h.interns i sound₄) name type₄ hp (fun hmd => ?_)
    fun v hv => ?_).mono id fun _ _ h => ⟨h.1, { h.2 with new := fun u hu => ?_ }⟩
  · exact wellFormed_readMetadata? (wellFormed_members wf hms) hmd
  · exact wellFormed_optional (wellFormed_members wf hms) hv
  · exact i.modules ▸ h.2.new u hu

theorem mirrors_declareModules {scope : NamespaceId} {scopes : Plain.Scopes} (scopeName : String)
    {ms : List (String × Json)} (wf : ∀ m ∈ ms, m.2.WellFormed) : ∀ {d : Design}
    {r : Outline.Namespace}, d.Sound → d.Scoped scope scopeName scopes r →
    Mirrors Extends d (declareModules scope scopeName ms) (Plain.declareModules scopeName ms r)
      fun d' us x => d'.Scoped scope scopeName scopes x.1 ∧ Awaiting d d' us x.2 := by
  induction ms with
  | nil => exact fun sound h => .pure sound ⟨h, .nil _ _⟩ (.refl _)
  | cons m rest ih =>
    intro d r sound h
    rw [List.forall_mem_cons] at wf
    refine (mirrors_declareModule scopeName m.1 wf.1 sound h).bind
      fun {us x d₁} _ sound₁ e₁ first => ?_
    refine (ih wf.2 sound₁ first.1).bind fun {vs y d₂} _ sound₂ e₂ more => ?_
    exact .pure sound₂ ⟨more.1, first.2.append more.2 e₁ e₂⟩ (.refl d₂)

/-! ## Generators -/

theorem extends_addGenerator {n : Name} (free : d.Free scope n) (genparams params : Params)
    (metadata : Metadata) : d.Extends (d.addGenerator scope n genparams params metadata) :=
  ⟨grows_addGenerator free genparams params metadata, id⟩

/-- The namespace lists the new generator last. -/
theorem scoped_addGenerator (h : d.Scoped scope scopeName scopes r) (hd : d.Sound) {n : Name}
    {name : String} (text : d.text? n = some name) (free : d.Free scope n)
    {genparams params : Params} {gs ps : List (String × ParamKind)}
    (hg : SoundParams d genparams gs) (hp : SoundParams d params ps) {metadata : Metadata}
    (hd' : (d.addGenerator scope n genparams params metadata).Sound) :
    (d.addGenerator scope n genparams params metadata).Scoped scope scopeName scopes
      { r with generators := r.generators ++ [(name, ⟨gs, ps, metadata⟩)] } := by
  have e := extends_addGenerator free genparams params metadata
  refine h.update hd hd' e (f := (·.addGenerator n d.generators.nextId)) rfl (fun _ => rfl)
    fun ns hns hr => ?_
  obtain ⟨modules, generators⟩ := outlineNamespace_eq_some_iff.1 hr
  refine outlineNamespace_eq_some_iff.2
    ⟨e.keeps.outlineEntries (e.outlineModule hd') modules, ?_⟩
  rw [Namespace.addGenerator, NameMap.insert_of_fresh (free.contains hns).2,
    NameMap.toList_append]
  exact outlineEntries_append (e.keeps.outlineEntries e.outlineGenerator generators)
    (outlineEntries_singleton (e.keeps.names text) (outlineGenerator_eq_some_iff.2
      ⟨_, (Table.get?_push _ _ _).trans (if_pos rfl), e.keeps.outlineParams hg.2,
        e.keeps.outlineParams hp.2, rfl⟩))

theorem mirrors_addGenerator (sound : d.Sound) (h : d.Scoped scope scopeName scopes r)
    (name : String) {genparams params : Params} {gs ps : List (String × ParamKind)}
    (hg : SoundParams d genparams gs) (hp : SoundParams d params ps)
    {metadata : Reading Metadata} (wf : ∀ {md}, metadata = .ok md → md.WellFormed) :
    Mirrors Extends d
      (do
        let id ← (Edit.declareGenerator scope name genparams params).within .ofGraph
        Edit.setGeneratorMetadata id (← metadata) : Load Unit)
      (do
        Plain.requireFree r scopeName name
        let md ← metadata
        return { r with generators := r.generators ++ [(name, ⟨gs, ps, md⟩)] })
      fun d' _ r' => d'.Scoped scope scopeName scopes r' := by
  have i := interns_withName d name
  have sound₁ := sound.withName name
  have text := sound.text_withName name
  have h₁ := h.interns i sound₁
  rcases requireFree_cases sound₁ h₁ text with ⟨stopped, asked⟩ | ⟨free, asked⟩
  · rw [asked]
    refine .error (bind_of_error ?_) sound₁
    rw [within_apply, Edit.declareGenerator, bind_of_ok (intern_apply name d), bind_of_error stopped]
    rfl
  · rw [asked]
    have declared := within_of_ok (f := LoadError.ofGraph)
      (declareGenerator_of_free free genparams params)
    have genparams₁ := hg.keep i.keeps
    have params₁ := hp.keep i.keeps
    have sound₂ {md : Metadata} (wf : md.WellFormed) := sound₁.addGenerator free
      (Option.isSome_of_eq_some text) genparams₁.1 params₁.1 wf
    cases hmd : metadata with
    | error e => exact .error (bind_of_ok declared) (sound₂ Metadata.wellFormed_empty)
    | ok md =>
      have annotated := setGeneratorMetadata_addGenerator (ε := LoadError) (d := d.withName name)
        scope (d.names.intern name).1 genparams params md
      have sound₂ := sound₂ (wf hmd)
      exact .ok ((bind_of_ok declared).trans annotated) sound₂
        (i.extends.trans (extends_addGenerator free ..))
        (scoped_addGenerator h₁ sound₁ text free genparams₁ params₁ sound₂)

theorem mirrors_declareGenerator {scope : NamespaceId} {scopes : Plain.Scopes}
    (scopeName name : String) {node : Json} (wf : node.WellFormed) {d : Design}
    {r : Outline.Namespace} (sound : d.Sound) (h : d.Scoped scope scopeName scopes r) :
    Mirrors Extends d (declareGenerator scope scopeName name node)
      (Plain.declareGenerator scopeName name node r)
      fun d' _ r' => d'.Scoped scope scopeName scopes r' := by
  unfold declareGenerator Plain.declareGenerator
  refine (Mirrors.reading sound _).bind fun {ms _ d₁} hms sound₁ i₁ same => ?_
  subst same
  refine (mirrors_readParams? sound₁ ms _).bind fun {genparams gs d₂} _ sound₂ i₂ hg => ?_
  refine (mirrors_readParams? sound₂ ms _).bind fun {params ps d₃} _ sound₃ i₃ hp => ?_
  have i := (i₁.trans i₂).trans i₃
  exact mirrors_addGenerator sound₃ (h.interns i sound₃) name (hg.keep i₃.keeps) hp
    fun hmd => wellFormed_readMetadata? (wellFormed_members wf hms) hmd

theorem mirrors_declareGenerators {scope : NamespaceId} {scopes : Plain.Scopes}
    (scopeName : String) {ms : List (String × Json)} (wf : ∀ m ∈ ms, m.2.WellFormed) :
    ∀ {d : Design} {r : Outline.Namespace}, d.Sound → d.Scoped scope scopeName scopes r →
    Mirrors Extends d (declareGenerators scope scopeName ms)
      (Plain.declareGenerators scopeName ms r)
      fun d' _ r' => d'.Scoped scope scopeName scopes r' := by
  induction ms with
  | nil => exact fun sound h => .pure sound h (.refl _)
  | cons m rest ih =>
    intro d r sound h
    rw [List.forall_mem_cons] at wf
    exact (mirrors_declareGenerator scopeName m.1 wf.1 sound h).bind
      fun _ sound₁ _ first => ih wf.2 sound₁ first

/-! ## Namespaces -/

theorem mirrors_declareModulesOf (sound : d.Sound) {name : String}
    (h : d.Scoped scope name scopes r) {ms : List (String × Json)}
    (wf : (Json.object ms).WellFormed) :
    Mirrors Extends d (declareModulesOf scope name ms) (Plain.declareModulesOf name ms r)
      fun d' us x => d'.Scoped scope name scopes x.1 ∧ Awaiting d d' us x.2 := by
  unfold declareModulesOf Plain.declareModulesOf
  cases hn : optional ms "modules" with
  | none => exact .pure sound ⟨h, .nil _ _⟩ (.refl d)
  | some node =>
    refine (Mirrors.reading sound _).bind fun {entries _ d₁} hes sound₁ i same => ?_
    subst same
    have nodes := (Json.wellFormed_object_iff.1 (wellFormed_members (wellFormed_optional wf hn) hes)).2
    exact (mirrors_declareModules name nodes sound₁ (h.interns i sound₁)).mono id
      fun _ _ h => ⟨h.1, { h.2 with new := fun u hu => i.modules ▸ h.2.new u hu }⟩

theorem mirrors_declareGeneratorsOf (sound : d.Sound) {name : String}
    (h : d.Scoped scope name scopes r) {ms : List (String × Json)}
    (wf : (Json.object ms).WellFormed) :
    Mirrors Extends d (declareGeneratorsOf scope name ms) (Plain.declareGeneratorsOf name ms r)
      fun d' _ r' => d'.Scoped scope name scopes r' := by
  unfold declareGeneratorsOf Plain.declareGeneratorsOf
  cases hn : optional ms "generators" with
  | none => exact .pure sound h (.refl d)
  | some node =>
    refine (Mirrors.reading sound _).bind fun {entries _ d₁} hes sound₁ i same => ?_
    subst same
    have nodes := (Json.wellFormed_object_iff.1 (wellFormed_members (wellFormed_optional wf hn) hes)).2
    exact mirrors_declareGenerators name nodes sound₁ (h.interns i sound₁)

theorem extends_addNamespace (d : Design) (n : Name) : d.Extends (d.addNamespace n) :=
  ⟨d.grows_addNamespace n, id⟩

/-- A new namespace is listed last, and nothing is in it. -/
theorem scoped_addNamespace {n : Name} {name : String} (sound : d.Sound)
    (h : d.outlineNamespaces? = some scopes) (text : d.text? n = some name)
    (fresh : d.scopes[n]? = none) : name ∉ Assoc.keys scopes ∧
      (d.addNamespace n).Scoped d.namespaces.nextId name scopes ⟨[], []⟩ := by
  have all := (outlineNamespaces_eq_entries d _).1 h
  have absent : name ∉ Assoc.keys scopes := by
    rw [← sound.mem_keys_iff all text, List.mem_map]
    rintro ⟨⟨k, ns⟩, mem, rfl⟩
    obtain ⟨same, id, hns⟩ := mem_namespaceEntries.1 mem
    rw [(sound.scopes k id).2 ⟨ns, hns, same⟩] at fresh
    cases fresh
  have e := extends_addNamespace d n
  have sound' := sound.addNamespace fresh (Option.isSome_of_eq_some text)
  refine ⟨absent, ?_, _, (Table.get?_push _ _ _).trans (if_pos rfl), text⟩
  rw [outlineNamespaces_eq_entries, Assoc.set_of_not_mem _ absent, namespaceEntries]
  rw [addNamespace, Table.toList_push, List.map_append]
  exact outlineEntries_append (e.keeps.outlineEntries (e.outlineNamespace sound') all)
    (outlineEntries_singleton text rfl)

/-- The namespace that is opened has the outline that it had, or none if it is new. -/
theorem openNamespace_scoped (sound : d.Sound) (h : d.outlineNamespaces? = some scopes)
    (name : String) : ∃ scope d', (openNamespace name : Load NamespaceId) d = .ok scope d' ∧
      d'.Sound ∧ d.Extends d' ∧
      d'.Scoped scope name scopes ((Assoc.get? name scopes).getD ⟨[], []⟩) := by
  have i := interns_withName d name
  have sound₁ := sound.withName name
  have text := sound.text_withName name
  have h₁ := i.outlineNamespaces sound₁ h
  rw [openNamespace_apply]
  cases hn : (d.withName name).scopes[(d.names.intern name).1]? with
  | some id =>
    obtain ⟨ns, hns, same⟩ := (sound₁.scopes _ id).1 hn
    have found := sound₁.get?_outlineEntries ((outlineNamespaces_eq_entries _ _).1 h₁) text
    rw [(Assoc.get?_eq_some_iff sound₁.nodup_namespaceEntries).2
      (mem_namespaceEntries.2 ⟨same, id, hns⟩)] at found
    cases hr : Assoc.get? name scopes with
    | none => rw [hr] at found; cases found
    | some r =>
      refine ⟨id, _, rfl, sound₁, i.extends, ?_, ns, hns, same ▸ text⟩
      rw [Option.getD_some, Assoc.set_of_get? hr]
      exact h₁
  | none =>
    obtain ⟨absent, listed⟩ := scoped_addNamespace sound₁ h₁ text hn
    rw [Assoc.get?_eq_none_iff.2 absent]
    exact ⟨_, _, rfl, sound₁.addNamespace hn (Option.isSome_of_eq_some text),
      i.extends.trans (extends_addNamespace _ _), listed⟩

theorem mirrors_declareNamespace (sound : d.Sound) (h : d.outlineNamespaces? = some scopes)
    (name : String) {node : Json} (wf : node.WellFormed) :
    Mirrors Extends d (declareNamespace name node)
      (Plain.declareNamespace name node ((Assoc.get? name scopes).getD ⟨[], []⟩))
      fun d' us x => d'.outlineNamespaces? = some (Assoc.set name x.1 scopes) ∧
        Awaiting d d' us x.2 := by
  obtain ⟨scope, d₁, opened, sound₁, e₁, listed⟩ := openNamespace_scoped sound h name
  unfold declareNamespace Plain.declareNamespace
  refine .after opened e₁ ?_
  cases node.isNull with
  | true => exact .pure sound₁ ⟨listed.1, .nil d d₁⟩ (.refl d₁)
  | false =>
    refine (Mirrors.reading sound₁ _).bind fun {ms _ d₂} hms sound₂ i₂ same => ?_
    subst same
    have wf' := wellFormed_members wf hms
    refine (mirrors_declareModulesOf sound₂ (listed.interns i₂ sound₂) wf').bind
      fun {us x d₃} _ sound₃ e₃ modules => ?_
    refine (mirrors_declareGeneratorsOf sound₃ modules.1 wf').bind
      fun {_ ns d₄} _ sound₄ e₄ generators => ?_
    refine .pure sound₄ ⟨generators.1, ?_⟩ (.refl d₄)
    exact ((Awaiting.nil d d₂).append modules.2 (e₁.trans i₂.extends) e₃).extend e₄

theorem mirrors_declareNamespaces {ms : List (String × Json)} (wf : ∀ m ∈ ms, m.2.WellFormed) :
    ∀ {d : Design} {scopes : Plain.Scopes}, d.Sound → d.outlineNamespaces? = some scopes →
    Mirrors Extends d (declareNamespaces ms) (Plain.declareNamespaces ms scopes)
      fun d' us x => d'.outlineNamespaces? = some x.1 ∧ Awaiting d d' us x.2 := by
  induction ms with
  | nil => exact fun sound h => .pure sound ⟨h, .nil _ _⟩ (.refl _)
  | cons m rest ih =>
    intro d scopes sound h
    rw [List.forall_mem_cons] at wf
    refine (mirrors_declareNamespace sound h m.1 wf.1).bind fun {us x d₁} _ sound₁ e₁ first => ?_
    refine (ih wf.2 sound₁ first.1).bind fun {vs y d₂} _ sound₂ e₂ more => ?_
    exact .pure sound₂ ⟨more.1, first.2.append more.2 e₁ e₂⟩ (.refl d₂)

end Document

end Netlist
