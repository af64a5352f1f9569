-- Two designs with one document differ in their numbers only. What the document shows in the
-- same way is taken for each other: names by their texts, types by their trees, and whatever
-- is declared by the names under which it goes.
import Netlist.Proofs.Renaming
import Netlist.Proofs.Saved.Injective

namespace Netlist

/-! ## Things that a document shows in the same way -/

/-- Things that are related one by one to the same list are related to each other. -/
theorem forall₂_join {α β γ : Type} {P : α → γ → Prop} {Q : β → γ → Prop} {R : α → β → Prop}
    {as : List α} {bs : List β} {cs : List γ} (h : List.Forall₂ P as cs) (k : List.Forall₂ Q bs cs)
    (join : ∀ {a b c}, a ∈ as → b ∈ bs → P a c → Q b c → R a b) : List.Forall₂ R as bs := by
  induction h generalizing bs with
  | nil => cases k; exact .nil
  | cons hp _ ih =>
    cases k with
    | cons hq others =>
      refine .cons (join List.mem_cons_self List.mem_cons_self hp hq) (ih others ?_)
      exact fun ha hb => join (List.mem_cons_of_mem _ ha) (List.mem_cons_of_mem _ hb)

/-- Optional values with one optional image are both absent, or both there and related. -/
theorem rel_of_optional {α β γ : Type} {F : Option α → Option (Option γ)}
    {G : Option β → Option (Option γ)} {f : α → Option γ} {g : β → Option γ} {R : α → β → Prop}
    {x : Option α} {y : Option β} {o : Option γ} (h : F x = some o) (k : G y = some o)
    (hF : F none = some none) (hG : G none = some none) (hf : ∀ a, F (some a) = (f a).map some)
    (hg : ∀ b, G (some b) = (g b).map some)
    (join : ∀ {a b c}, x = some a → y = some b → f a = some c → g b = some c → R a b) :
    Option.Rel R x y := by
  cases x with
  | none =>
    cases hF.symm.trans h
    cases y with
    | none => exact .none
    | some b =>
      obtain ⟨_, -, same⟩ := Option.map_eq_some_iff.1 ((hg b).symm.trans k)
      cases same
  | some a =>
    obtain ⟨c, image, rfl⟩ := Option.map_eq_some_iff.1 ((hf a).symm.trans h)
    cases y with
    | none => cases hG.symm.trans k
    | some b =>
      obtain ⟨c', image', same⟩ := Option.map_eq_some_iff.1 ((hg b).symm.trans k)
      cases same
      exact .some (join rfl rfl image image')

namespace Design

/-- No two types are shown as one tree. -/
theorem Sound.typeTree_injective {d : Design} (hd : d.Sound) {id id' : TypeId} {t : TypeTree String}
    (h : d.typeTree? id = some t) (h' : d.typeTree? id' = some t) : id = id' :=
  (hd.typeTree_eq_some_iff.1 h).id_unique hd.types hd.text_injective (hd.typeTree_eq_some_iff.1 h')

theorem Sound.scopeText_injective {d : Design} (hd : d.Sound) {id id' : NamespaceId} {s : String}
    (h : d.scopeText? id = some s) (h' : d.scopeText? id' = some s) : id = id' := by
  obtain ⟨ns, hns, text⟩ := Option.bind_eq_some_iff.1 h
  obtain ⟨ns', hns', text'⟩ := Option.bind_eq_some_iff.1 h'
  exact hd.namespace_unique hns hns' (hd.text_injective text text')

/-- No two things go by the same names. -/
theorem Listed.symbolText_unique {d : Design} (h : d.Listed) {t u : Target} {q : String × String}
    (ht : d.symbolText? t = some q) (hu : d.symbolText? u = some q) : t = u := by
  obtain ⟨found, -, iff⟩ := h.lookup?_iff q.1 q.2
  exact Option.some.inj (((iff t).2 ht).symm.trans ((iff u).2 hu))

variable {d : Design} {id : NamespaceId} {ns : Namespace} {s : String}

/-- A module that a namespace lists goes by the names under which it is listed. -/
theorem Sound.symbolText_of_module (hd : d.Sound) (hns : d.namespaces.get? id = some ns)
    (text : d.text? ns.name = some s) {e : Name × ModuleId} (he : e ∈ ns.modules.toList)
    {w : String} (name : d.text? e.1 = some w) : d.symbolText? (.module e.2) = some (s, w) := by
  obtain ⟨m, hm, same, scope⟩ := (hd.namespaceSound hns).modules e he
  refine symbolText_eq_some_iff.2 ⟨id, e.1, ns, ?_, hns, text, name⟩
  rw [placeOf?, hm, Option.map_some, same, scope]

theorem Sound.symbolText_of_generator (hd : d.Sound) (hns : d.namespaces.get? id = some ns)
    (text : d.text? ns.name = some s) {e : Name × GeneratorId} (he : e ∈ ns.generators.toList)
    {w : String} (name : d.text? e.1 = some w) :
    d.symbolText? (.generator e.2) = some (s, w) := by
  obtain ⟨g, hg, same, scope⟩ := (hd.namespaceSound hns).generators e he
  refine symbolText_eq_some_iff.2 ⟨id, e.1, ns, ?_, hns, text, name⟩
  rw [placeOf?, hg, Option.map_some, same, scope]

end Design

namespace Renaming

/-- Takes for each other what is shown in the same way. -/
def shown (c d : Design) : Renaming where
  takes {e} :=
    match e with
    | .name => SameLabel c.text? d.text?
    | .type => SameLabel c.typeTree? d.typeTree?
    | .scope => SameLabel c.scopeText? d.scopeText?
    | .module =>
      SameLabel (fun id => c.symbolText? (.module id)) fun id => d.symbolText? (.module id)
    | .generator =>
      SameLabel (fun id => c.symbolText? (.generator id)) fun id => d.symbolText? (.generator id)

variable {c d : Design}

theorem shown_once (hc : c.Sound) (hd : d.Sound) (e : Entity) :
    Relator.BiUnique ((shown c d).takes (e := e)) := by
  cases e with
  | name => exact biUnique_sameLabel hc.text_injective hd.text_injective
  | type => exact biUnique_sameLabel hc.typeTree_injective hd.typeTree_injective
  | scope => exact biUnique_sameLabel hc.scopeText_injective hd.scopeText_injective
  | module =>
    exact biUnique_sameLabel
      (fun ha hb => Target.module.inj (hc.listed.symbolText_unique ha hb))
      (fun ha hb => Target.module.inj (hd.listed.symbolText_unique ha hb))
  | generator =>
    exact biUnique_sameLabel
      (fun ha hb => Target.generator.inj (hc.listed.symbolText_unique ha hb))
      (fun ha hb => Target.generator.inj (hd.listed.symbolText_unique ha hb))

/-! ## What has one outline is the same -/

theorem sameEntries_of_outline {α β γ : Type} {f : α → Option γ} {g : β → Option γ}
    {R : α → β → Prop} {es : List (Name × α)} {ks : List (Name × β)} {l : List (String × γ)}
    (he : c.outlineEntries? f es = some l) (hk : d.outlineEntries? g ks = some l)
    (join : ∀ {e k} {b : String × γ}, e ∈ es → k ∈ ks → c.text? e.1 = some b.1 →
      d.text? k.1 = some b.1 → f e.2 = some b.2 → g k.2 = some b.2 → R e.2 k.2) :
    (shown c d).SameEntries R es ks :=
  forall₂_join (Design.outlineEntries_eq_some_iff.1 he) (Design.outlineEntries_eq_some_iff.1 hk)
    fun me mk h k => ⟨⟨_, h.1, k.1⟩, join me mk h.1 k.1 h.2 k.2⟩

theorem sameParams_of_outline {params params' : Params} {ps : List (String × ParamKind)}
    (h : c.outlineParams? params = some ps) (k : d.outlineParams? params' = some ps) :
    (shown c d).SameParams params params' :=
  sameEntries_of_outline h k fun _ _ _ _ h k => Option.some.inj (h.trans k.symm)

theorem sameArg_of_tree {a b : Arg} {t : ArgTree} (h : c.argTree? a = some t)
    (k : d.argTree? b = some t) : (shown c d).SameArg a b := by
  cases t with
  | int i =>
    rw [Design.argTree_eq_int_iff.1 h, Design.argTree_eq_int_iff.1 k]
    exact .int i
  | string s =>
    rw [Design.argTree_eq_string_iff.1 h, Design.argTree_eq_string_iff.1 k]
    exact .string s
  | type tree =>
    obtain ⟨id, rfl, ht⟩ := Design.argTree_eq_type_iff.1 h
    obtain ⟨id', rfl, ht'⟩ := Design.argTree_eq_type_iff.1 k
    exact .type ⟨tree, ht, ht'⟩

theorem sameArgs_of_outline {args args' : Args} {l : List (String × ArgTree)}
    (h : c.outlineArgs? args = some l) (k : d.outlineArgs? args' = some l) :
    (shown c d).SameArgs args args' :=
  sameEntries_of_outline h k fun _ _ _ _ h k => sameArg_of_tree h k

theorem sameGenargs_of_outline {args args' : Option Args}
    {l : Option (List (String × ArgTree))} (h : c.outlineGenargs? args = some l)
    (k : d.outlineGenargs? args' = some l) : Option.Rel (shown c d).SameArgs args args' :=
  rel_of_optional h k rfl rfl (fun _ => rfl) (fun _ => rfl) fun _ _ => sameArgs_of_outline

theorem sameTarget_of_symbolText {t u : Target} {q : String × String} (kind : t.kind = u.kind)
    (h : c.symbolText? t = some q) (k : d.symbolText? u = some q) :
    (shown c d).SameTarget t u := by
  cases t <;> cases u
  · exact .module ⟨q, h, k⟩
  · cases kind
  · cases kind
  · exact .generator ⟨q, h, k⟩

theorem sameInstance_of_outline {i j : Instance} {o : Outline.Instance}
    (name : (shown c d).takes i.name j.name) (h : c.outlineInstance? i = some o)
    (k : d.outlineInstance? j = some o) : (shown c d).SameInstance i j := by
  obtain ⟨kind, target, genargs, config, metadata⟩ := Design.outlineInstance_eq_some_iff.1 h
  obtain ⟨kind', target', genargs', config', metadata'⟩ := Design.outlineInstance_eq_some_iff.1 k
  exact ⟨name, sameTarget_of_symbolText (kind.trans kind'.symm) target target',
    sameArgs_of_outline config config', sameGenargs_of_outline genargs genargs',
    metadata.trans metadata'.symm⟩

theorem samePath_of_outline {p q : WirePath} {words : List String}
    (h : c.outlinePath? p = some words) (k : d.outlinePath? q = some words) :
    (shown c d).SamePath p q :=
  forall₂_join (Design.outlinePath_eq_some_iff.1 h) (Design.outlinePath_eq_some_iff.1 k)
    fun _ _ h k => ⟨_, h, k⟩

theorem sameConnection_of_outline {x y : Connection} {o : Outline.Connection}
    (h : c.outlineConnection? x = some o) (k : d.outlineConnection? y = some o) :
    (shown c d).SameConnection x y := by
  obtain ⟨first, second, metadata⟩ := Design.outlineConnection_eq_some_iff.1 h
  obtain ⟨first', second', metadata'⟩ := Design.outlineConnection_eq_some_iff.1 k
  exact ⟨samePath_of_outline first first', samePath_of_outline second second',
    metadata.trans metadata'.symm⟩

theorem sameDefinition_of_outline {x y : Definition} (hx : x.Sound c) (hy : y.Sound d)
    (owner : (shown c d).takes x.owner y.owner) {o : Outline.Definition}
    (h : c.outlineDefinition? x = some o) (k : d.outlineDefinition? y = some o) :
    (shown c d).SameDefinition x y := by
  obtain ⟨-, connections, implementations, metadata⟩ := Design.outlineDefinition_eq_some_iff.1 h
  obtain ⟨-, connections', implementations', metadata'⟩ := Design.outlineDefinition_eq_some_iff.1 k
  refine
    { owner
      instances := ?_
      connections := forall₂_join connections connections' fun _ _ => sameConnection_of_outline
      implementations := implementations.trans implementations'.symm
      metadata := metadata.trans metadata'.symm }
  refine sameEntries_of_outline (Document.outline_instances hx h) (Document.outline_instances hy k)
    fun {e e' b} he he' text text' => sameInstance_of_outline ⟨b.1, ?_, ?_⟩
  · rw [(hx.instance_name e he).1]
    exact text
  · rw [(hy.instance_name e' he').1]
    exact text'

/-- What goes by the same names goes by names that are taken for each other. -/
theorem samePlace {t u : Target} {q : String × String} (h : c.symbolText? t = some q)
    (k : d.symbolText? u = some q) {a b : NamespaceId × Name} (ha : c.placeOf? t = some a)
    (hb : d.placeOf? u = some b) : (shown c d).takes a.1 b.1 ∧ (shown c d).takes a.2 b.2 := by
  obtain ⟨_, _, ns, place, hns, scope, name⟩ := Design.symbolText_eq_some_iff.1 h
  obtain ⟨_, _, ns', place', hns', scope', name'⟩ := Design.symbolText_eq_some_iff.1 k
  cases ha.symm.trans place
  cases hb.symm.trans place'
  exact ⟨⟨q.1, Option.bind_eq_some_iff.2 ⟨ns, hns, scope⟩,
    Option.bind_eq_some_iff.2 ⟨ns', hns', scope'⟩⟩, ⟨q.2, name, name'⟩⟩

theorem sameBody_of_outline {x y : Option Definition} {o : Option Outline.Definition}
    (hx : ∀ a, x = some a → a.Sound c) (hy : ∀ b, y = some b → b.Sound d)
    (owner : ∀ a b, x = some a → y = some b → (shown c d).takes a.owner b.owner)
    (h : c.outlineBody? x = some o) (k : d.outlineBody? y = some o) :
    Option.Rel (shown c d).SameDefinition x y :=
  rel_of_optional h k rfl rfl (fun _ => rfl) (fun _ => rfl) fun ha hb =>
    sameDefinition_of_outline (hx _ ha) (hy _ hb) (owner _ _ ha hb)

theorem takes_scope {a b : NamespaceId} {ns k : Namespace} {s : String}
    (hns : c.namespaces.get? a = some ns) (hk : d.namespaces.get? b = some k)
    (text : c.text? ns.name = some s) (text' : d.text? k.name = some s) :
    (shown c d).takes a b :=
  ⟨s, Option.bind_eq_some_iff.2 ⟨ns, hns, text⟩, Option.bind_eq_some_iff.2 ⟨k, hk, text'⟩⟩

theorem sameNamespace_of_outline (hc : c.Sound) (hd : d.Sound) {a b : NamespaceId}
    {ns k : Namespace} (hns : c.namespaces.get? a = some ns) (hk : d.namespaces.get? b = some k)
    {s : String} (text : c.text? ns.name = some s) (text' : d.text? k.name = some s)
    {r : Outline.Namespace} (h : c.outlineNamespace? ns = some r)
    (h' : d.outlineNamespace? k = some r) : (shown c d).SameNamespace ns k := by
  obtain ⟨modules, generators⟩ := Design.outlineNamespace_eq_some_iff.1 h
  obtain ⟨modules', generators'⟩ := Design.outlineNamespace_eq_some_iff.1 h'
  refine ⟨?_, ⟨s, text, text'⟩, sameEntries_of_outline modules modules' ?_,
    sameEntries_of_outline generators generators' ?_⟩
  · rw [(hc.namespaceSound hns).id_eq, (hd.namespaceSound hk).id_eq]
    exact takes_scope hns hk text text'
  · intro e e' w he he' name name' _ _
    exact ⟨(s, w.1), hc.symbolText_of_module hns text he name,
      hd.symbolText_of_module hk text' he' name'⟩
  · intro e e' w he he' name name' _ _
    exact ⟨(s, w.1), hc.symbolText_of_generator hns text he name,
      hd.symbolText_of_generator hk text' he' name'⟩

/-! ## What is shown in the same way is the same -/

theorem sameType_of_shown (hc : c.Sound) (hd : d.Sound) {t u : TypeId}
    (same : (shown c d).takes t u) :
    ∃ w v, c.types.get? t = some w ∧ d.types.get? u = some v ∧ (shown c d).SameType w v := by
  obtain ⟨tree, ht, hu⟩ := same
  have part : ∀ {a b : TypeId} {s : TypeTree String}, c.Unfolds a s → d.Unfolds b s →
      (shown c d).takes a b := fun h k =>
    ⟨_, hc.typeTree_eq_some_iff.2 h, hd.typeTree_eq_some_iff.2 k⟩
  cases hc.typeTree_eq_some_iff.1 ht with
  | any h =>
    cases hd.typeTree_eq_some_iff.1 hu with
    | any k => exact ⟨_, _, h, k, .any⟩
  | bitIn h =>
    cases hd.typeTree_eq_some_iff.1 hu with
    | bitIn k => exact ⟨_, _, h, k, .bitIn⟩
  | bitOut h =>
    cases hd.typeTree_eq_some_iff.1 hu with
    | bitOut k => exact ⟨_, _, h, k, .bitOut⟩
  | array h element =>
    cases hd.typeTree_eq_some_iff.1 hu with
    | array k element' => exact ⟨_, _, h, k, .array (part element element') _⟩
  | record h fields =>
    cases hd.typeTree_eq_some_iff.1 hu with
    | record k fields' =>
      refine ⟨_, _, h, k, .record (forall₂_join (TypeTable.unfoldsFields_iff.1 fields)
        (TypeTable.unfoldsFields_iff.1 fields') ?_)⟩
      exact fun _ _ f f' => ⟨⟨_, f.1, f'.1⟩, part f.2 f'.2⟩

variable {scopes : Plain.Scopes} (hc : c.Sound) (hd : d.Sound)
  (hs : c.outlineNamespaces? = some scopes) (hs' : d.outlineNamespaces? = some scopes)
include hc hd hs hs'

theorem sameModule_of_shown {a b : ModuleId} (same : (shown c d).takes a b) :
    ∃ m k, c.modules.get? a = some m ∧ d.modules.get? b = some k ∧
      (shown c d).SameModule m k := by
  obtain ⟨q, ha, hb⟩ := same
  obtain ⟨s, found, denotes⟩ := hc.denotes hs ha
  obtain ⟨s', found', denotes'⟩ := hd.denotes hs' hb
  cases found.symm.trans found'
  cases denotes with
  | @module _ o outline _ =>
  cases denotes' with
  | @module _ _ outline' _ =>
  obtain ⟨m, hm, type, params, metadata, body⟩ := Design.outlineModule_eq_some_iff.1 outline
  obtain ⟨k, hk, type', params', metadata', body'⟩ := Design.outlineModule_eq_some_iff.1 outline'
  have sound := hc.moduleSound hm
  have sound' := hd.moduleSound hk
  have same : (shown c d).takes a b := ⟨q, ha, hb⟩
  obtain ⟨scope, name⟩ := samePlace ha hb (a := (m.scope, m.name)) (b := (k.scope, k.name))
    (congrArg (Option.map _) hm) (congrArg (Option.map _) hk)
  refine ⟨m, k, hm, hk, ?_, name, scope, ⟨_, type, type'⟩, sameParams_of_outline params params',
    metadata.trans metadata'.symm, sameBody_of_outline (fun x hx => (sound.definition x hx).2)
      (fun y hy => (sound'.definition y hy).2) (fun x y hx hy => ?_) body body'⟩
  · rw [sound.id_eq, sound'.id_eq]
    exact same
  · rw [(sound.definition x hx).1, (sound'.definition y hy).1]
    exact same

theorem sameGenerator_of_shown {a b : GeneratorId} (same : (shown c d).takes a b) :
    ∃ g k, c.generators.get? a = some g ∧ d.generators.get? b = some k ∧
      (shown c d).SameGenerator g k := by
  obtain ⟨q, ha, hb⟩ := same
  obtain ⟨s, found, denotes⟩ := hc.denotes hs ha
  obtain ⟨s', found', denotes'⟩ := hd.denotes hs' hb
  cases found.symm.trans found'
  cases denotes with
  | @generator _ o outline _ =>
  cases denotes' with
  | @generator _ _ outline' _ =>
  obtain ⟨g, hg, genparams, params, metadata⟩ := Design.outlineGenerator_eq_some_iff.1 outline
  obtain ⟨k, hk, genparams', params', metadata'⟩ := Design.outlineGenerator_eq_some_iff.1 outline'
  obtain ⟨scope, name⟩ := samePlace ha hb (a := (g.scope, g.name)) (b := (k.scope, k.name))
    (congrArg (Option.map _) hg) (congrArg (Option.map _) hk)
  refine ⟨g, k, hg, hk, ?_, name, scope, sameParams_of_outline genparams genparams',
    sameParams_of_outline params params', metadata.trans metadata'.symm⟩
  rw [(hc.generatorSound hg).id_eq, (hd.generatorSound hk).id_eq]
  exact ⟨q, ha, hb⟩

/-- What goes by some names in one design goes by them in the other one, and is of the same
kind there. -/
theorem exists_shown {t : Target} (live : (c.placeOf? t).isSome) :
    ∃ q u, u.kind = t.kind ∧ c.symbolText? t = some q ∧ d.symbolText? u = some q := by
  obtain ⟨q, ht⟩ := Option.isSome_iff_exists.1 (hc.listed.isSome_symbolText live)
  obtain ⟨s, found, denotes⟩ := hc.denotes hs ht
  obtain ⟨u, denotes'⟩ := hd.denoted hs' found
  exact ⟨q, u, denotes'.kind.trans denotes.kind.symm, ht, denotes'.symbolText⟩

theorem exists_module_shown {id : ModuleId} (live : (c.modules.get? id).isSome) :
    ∃ id', (shown c d).takes id id' := by
  obtain ⟨q, u, kind, ht, hu⟩ := exists_shown hc hd hs hs' (t := .module id)
    (Option.isSome_map.trans live)
  cases u with
  | module id' => exact ⟨id', q, ht, hu⟩
  | generator id' => cases kind

theorem exists_generator_shown {id : GeneratorId} (live : (c.generators.get? id).isSome) :
    ∃ id', (shown c d).takes id id' := by
  obtain ⟨q, u, kind, ht, hu⟩ := exists_shown hc hd hs hs' (t := .generator id)
    (Option.isSome_map.trans live)
  cases u with
  | module id' => cases kind
  | generator id' => exact ⟨id', q, ht, hu⟩

theorem sameNamespaces_of_outline :
    List.Forall₂ (shown c d).SameNamespace c.namespaces.toList d.namespaces.toList := by
  refine forall₂_join (Design.outlineNamespaces_eq_some_iff.1 hs)
    (Design.outlineNamespaces_eq_some_iff.1 hs') fun {ns k r} mem mem' said said' => ?_
  obtain ⟨a, hns⟩ := Table.mem_toList_iff.1 mem
  obtain ⟨b, hk⟩ := Table.mem_toList_iff.1 mem'
  exact sameNamespace_of_outline hc hd hns hk said.1 said'.1 said.2 said'.2

theorem sameNamespace_of_shown {a b : NamespaceId} (same : (shown c d).takes a b) :
    ∃ ns k, c.namespaces.get? a = some ns ∧ d.namespaces.get? b = some k ∧
      (shown c d).SameNamespace ns k := by
  obtain ⟨s, ha, hb⟩ := same
  obtain ⟨ns, hns, text⟩ := Option.bind_eq_some_iff.1 ha
  obtain ⟨k, hk, text'⟩ := Option.bind_eq_some_iff.1 hb
  obtain ⟨k', mem, agree⟩ := exists_of_forall₂ (sameNamespaces_of_outline hc hd hs hs')
    (Table.mem_toList_iff.2 ⟨a, hns⟩)
  refine ⟨ns, k, hns, hk, ?_⟩
  -- The namespace in the same place has the same name, so it is this one.
  obtain ⟨b', hk'⟩ := Table.mem_toList_iff.1 mem
  obtain ⟨s', named, named'⟩ := agree.name
  cases text.symm.trans named
  cases hd.namespace_unique hk hk' (hd.text_injective text' named')
  cases hk.symm.trans hk'
  exact agree

/-- Designs with one outline are the same up to what is shown. -/
theorem isomorphic_of_outline : (shown c d).Isomorphic c d where
  once := shown_once hc hd
  name := id
  type := sameType_of_shown hc hd
  scope := sameNamespace_of_shown hc hd hs hs'
  module := sameModule_of_shown hc hd hs hs'
  generator := sameGenerator_of_shown hc hd hs hs'
  namespaces := sameNamespaces_of_outline hc hd hs hs'
  modules :=
    ⟨fun _ live => exists_module_shown hc hd hs hs' live, fun _ live => by
      obtain ⟨id, q, hu, ht⟩ := exists_module_shown hd hc hs' hs live
      exact ⟨id, q, ht, hu⟩⟩
  generators :=
    ⟨fun _ live => exists_generator_shown hc hd hs hs' live, fun _ live => by
      obtain ⟨id, q, hu, ht⟩ := exists_generator_shown hd hc hs' hs live
      exact ⟨id, q, ht, hu⟩⟩

end Renaming

namespace Session

/-- Two designs have the same document if they differ in their numbers only, and only then. -/
theorem same_document_iff {s s' : Session} (reached : s.Reachable Careful)
    (reached' : s'.Reachable Careful) {top top' : ModuleId}
    (live : (s.design.modules.get? top).isSome) :
    s.design.document? top = s'.design.document? top' ↔
      ∃ r : Renaming, r.takes top top' ∧ r.Isomorphic s.design s'.design := by
  have hc := reached.sound_of_careful.design
  have hd := reached'.sound_of_careful.design
  constructor
  · intro same
    obtain ⟨o, ho, ho'⟩ := hc.outline_of_document hd live same
    obtain ⟨symbol, hs⟩ := Design.outline_eq_some_iff.1 ho
    obtain ⟨symbol', hs'⟩ := Design.outline_eq_some_iff.1 ho'
    exact ⟨.shown s.design s'.design, ⟨o.top, symbol, symbol'⟩,
      Renaming.isomorphic_of_outline hc hd hs hs'⟩
  · rintro ⟨r, tops, isomorphic⟩
    exact isomorphic.document hc hd tops

/-- An instance of a module and one of a generator, whose arguments are a type and a text. -/
def callsWithInstances : List Call := [
  .openNamespace "lib", .openNamespace "app", .intern "shape", .intern "label",
  .declareGenerator ⟨0⟩ "make" [(⟨3⟩, .type), (⟨4⟩, .string)] [],
  .array TypeTable.bitInId 8, .declareModule ⟨0⟩ "reg" ⟨3⟩ [],
  .declareModule ⟨1⟩ "main" TypeTable.bitOutId [],
  .newDraft ⟨1⟩, .addInstance 0 "r" ⟨0⟩ [],
  .addGeneratorInstance 0 "g" ⟨0⟩ [(⟨3⟩, .type ⟨3⟩), (⟨4⟩, .string "BitIn")] [], .attach 0]

/-- The same in another order, with a restore in between and a type that nothing uses. -/
def callsRenumbered : List Call := [
  .intern "label", .intern "shape", .array TypeTable.bitOutId 2, .array TypeTable.bitInId 8,
  .openNamespace "lib", .openNamespace "app", .snapshot,
  .declareModule ⟨1⟩ "gone" TypeTable.anyId [], .restore 0,
  .declareModule ⟨1⟩ "main" TypeTable.bitOutId [], .declareModule ⟨0⟩ "reg" ⟨4⟩ [],
  .declareGenerator ⟨0⟩ "make" [(⟨2⟩, .type), (⟨1⟩, .string)] [],
  .newDraft ⟨0⟩, .addInstance 0 "r" ⟨1⟩ [],
  .addGeneratorInstance 0 "g" ⟨0⟩ [(⟨2⟩, .type ⟨4⟩), (⟨1⟩, .string "BitIn")] [], .attach 0]

theorem same_document_when_renumbered :
    let c := (start.run callsWithInstances).design
    let d := (start.run callsRenumbered).design
    c.document? ⟨1⟩ = d.document? ⟨0⟩ ∧
      ∃ r : Renaming, r.takes (e := .module) ⟨1⟩ ⟨0⟩ ∧ r.Isomorphic c d := by
  intro c d
  have live : Reachable Live (start.run callsWithInstances) := .run .start (by decide +kernel)
  have live' : Reachable Live (start.run callsRenumbered) := .run .start (by decide +kernel)
  have same : c.document? ⟨1⟩ = d.document? ⟨0⟩ := by decide +kernel
  exact ⟨same, (same_document_iff live.careful live'.careful (by decide +kernel)).1 same⟩

end Session

end Netlist
