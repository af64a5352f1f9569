-- The document of a sound outline says this outline, arranged. Members that are left out
-- when they are empty say the same as if they were there.
import Netlist.Proofs.Saved.Sound

namespace Netlist

open Document Plain

/-! ## Members that may be left out -/

/-- The members that are there. -/
def present (ms : List (Option (String × Json))) : List (String × Json) := ms.filterMap id

theorem objectOf_eq (ms : List (Option (String × Json))) : Json.objectOf ms = .object (present ms) :=
  rfl

section

variable {key k : String} {v : Json} {rest : List (Option (String × Json))}

@[simp] theorem get?_present_nil : Assoc.get? key (present []) = none := rfl

@[simp] theorem get?_present_some : Assoc.get? key (present (some (k, v) :: rest)) =
    if k = key then some v else Assoc.get? key (present rest) := rfl

@[simp] theorem get?_present_unlessEmpty {empty : Bool} :
    Assoc.get? key (present (Json.unlessEmpty k empty v :: rest)) =
      if k = key ∧ empty = false then some v else Assoc.get? key (present rest) := by
  cases empty with
  | true => simp [present, Json.unlessEmpty]
  | false => simp [present, Json.unlessEmpty, Assoc.get?]

@[simp] theorem get?_present_map {α : Type} {f : α → Json} {o : Option α} :
    Assoc.get? key (present (o.map (fun a => (k, f a)) :: rest)) =
      if k = key then (o.map f).or (Assoc.get? key (present rest))
      else Assoc.get? key (present rest) := by
  cases o with
  | none => simp [present]
  | some a => simp [present, Assoc.get?]

end

/-- A member that is left out exactly when it is empty. -/
theorem optionally_of_get? {α : Type} {ms : List (String × Json)} {key : String} {f : α → Json}
    {e a : α} {b : Bool} (h : Assoc.get? key ms = if b = false then some (f a) else none)
    (he : b = true → a = e) (nonnull : (f a).isNull = false) : Optionally ms key f e a := by
  cases b with
  | true => exact Or.inl ⟨optional_eq_none_iff.2 (Or.inl h), he rfl⟩
  | false =>
    refine Or.inr (optional_eq_some_iff.2 ⟨h, fun null => ?_⟩)
    rw [null] at nonnull
    cases nonnull

theorem optional_of_get? {ms : List (String × Json)} {key : String} {o : Option Json}
    (h : Assoc.get? key ms = o) (nonnull : ∀ v ∈ o, v ≠ .null) : optional ms key = o := by
  cases o with
  | none => exact optional_eq_none_iff.2 (Or.inl h)
  | some v => exact optional_eq_some_iff.2 ⟨h, nonnull v rfl⟩

namespace Outline

theorem entriesToJson_eq {α : Type} (f : α → Json) (es : List (String × α)) :
    entriesToJson f es = .object (es.map fun e => (e.1, f e.2)) := rfl

theorem metadata_of_isEmpty {md : Metadata} (h : md.isEmpty = true) : md = ∅ :=
  congrArg Metadata.mk (List.isEmpty_iff.1 h)

/-! ## What the members of a document say -/

theorem Instance.members (i : Instance) : ∃ ms, i.toJson = .object ms ∧
    Assoc.get? "instref" ms = some (.array [.string i.target.1, .string i.target.2]) ∧
    Assoc.get? "genargs" ms = i.genargs.map argsToJson ∧
    Optionally ms "config" .object [] (i.config.map fun e => (e.1, e.2.toJson)) ∧
    Optionally ms "metadata" Metadata.toJson ∅ i.metadata := by
  refine ⟨_, objectOf_eq _, by simp, by simp [metadataMember], ?_, ?_⟩
  · refine optionally_of_get? (b := i.config.isEmpty) ?_ (fun empty => ?_) rfl
    · simp [metadataMember, argsToJson, entriesToJson_eq]
    · rw [List.isEmpty_iff.1 empty]
      rfl
  · exact optionally_of_get? (by simp [metadataMember]) metadata_of_isEmpty rfl

theorem Definition.members (d : Definition) : ∃ ms, d.toJson = .object ms ∧
    Optionally ms "instances" .object [] (d.instances.map fun e => (e.1, e.2.toJson)) ∧
    Optionally ms "connections" .array [] (d.connections.map Connection.toJson) ∧
    Optionally ms "implementations" Metadata.toJson ∅ d.implementations ∧
    Optionally ms "metadata" Metadata.toJson ∅ d.metadata := by
  refine ⟨_, objectOf_eq _, ?_, ?_, ?_, ?_⟩
  · refine optionally_of_get? (b := d.instances.isEmpty) ?_ (fun empty => ?_) rfl
    · simp [metadataMember, entriesToJson_eq]
    · rw [List.isEmpty_iff.1 empty]
      rfl
  · refine optionally_of_get? (b := d.connections.isEmpty) (by simp [metadataMember])
      (fun empty => ?_) rfl
    rw [List.isEmpty_iff.1 empty]
    rfl
  · exact optionally_of_get? (b := d.implementations.isEmpty) (by simp [metadataMember])
      metadata_of_isEmpty rfl
  · exact optionally_of_get? (b := d.metadata.isEmpty) (by simp [metadataMember])
      metadata_of_isEmpty rfl

theorem Module.members (m : Module) : ∃ ms, m.toJson = .object ms ∧
    Assoc.get? "type" ms = some m.type.toJson ∧
    Optionally ms "configparams" paramsToJson [] m.params ∧
    Optionally ms "metadata" Metadata.toJson ∅ m.metadata ∧
    optional ms "def" = m.definition.map Definition.toJson := by
  refine ⟨_, objectOf_eq _, by simp, ?_, ?_, ?_⟩
  · exact optionally_of_get? (b := m.params.isEmpty)
      (by simp [configparamsMember, metadataMember]) List.isEmpty_iff.1 rfl
  · exact optionally_of_get? (b := m.metadata.isEmpty)
      (by simp [configparamsMember, metadataMember]) metadata_of_isEmpty rfl
  · exact optional_of_get? (by simp [configparamsMember, metadataMember])
      (by simp [Definition.toJson, Json.objectOf])

theorem Namespace.members (ns : Namespace) : ∃ ms, ns.toJson = .object ms ∧
    Optionally ms "modules" .object [] (ns.modules.map fun e => (e.1, e.2.toJson)) ∧
    Optionally ms "generators" .object [] (ns.generators.map fun e => (e.1, e.2.toJson)) := by
  refine ⟨_, objectOf_eq _, ?_, ?_⟩
  · refine optionally_of_get? (b := ns.modules.isEmpty) ?_ (fun empty => ?_) rfl
    · simp [entriesToJson_eq]
    · rw [List.isEmpty_iff.1 empty]
      rfl
  · refine optionally_of_get? (b := ns.generators.isEmpty) ?_ (fun empty => ?_) rfl
    · simp [entriesToJson_eq]
    · rw [List.isEmpty_iff.1 empty]
      rfl

section

variable {env : Signatures}

/-! ## Instances and connections -/

theorem Instance.Sound.node {i : Instance} (h : i.Sound env) (strict : Bool) :
    InstanceNode strict env i.toJson (i.arrange env) := by
  obtain ⟨ps, signature, bound⟩ := h.binds
  obtain ⟨ms, node, instref, genargs, config, metadata⟩ := i.members
  rw [arrange, signature]
  refine ⟨ms, _, ps, node, instref, signature, h.kind, ?_, h.genargs, config,
    arrangeArgs_binds bound.bound, fun _ => ?_, metadata⟩
  · rw [genargs, h.genargs]
    rfl
  · rw [unknownKeys_eq_nil_iff, Assoc.keys_map]
    exact bound.declared

/-- Links that are all different stay as they are when they are put in one after another. -/
theorem foldl_link_of_unlinked {cs before : List Connection}
    (unlinked : (before ++ cs).Pairwise fun c k => links c k.first k.second = false)
    (wf : ∀ c ∈ cs, c.metadata.WellFormed) :
    cs.foldl (fun cs c => link cs c.first c.second c.metadata) before = before ++ cs := by
  induction cs generalizing before with
  | nil => simp
  | cons c rest ih =>
    obtain ⟨here, others⟩ := List.forall_mem_cons.1 wf
    have new : ∀ k ∈ before, links k c.first c.second = false := fun k hk =>
      (List.pairwise_append.1 unlinked).2.2 k hk c List.mem_cons_self
    have first : link before c.first c.second c.metadata = before ++ [c] := by
      rw [link, updateFirst_of_none new, Metadata.extend_empty here]
    rw [List.foldl_cons, first, ih (by simpa using unlinked) others]
    simp

theorem Definition.Sound.linkAll_eq {d : Definition} (h : d.Sound env) :
    linkAll d.connections = d.connections :=
  @foldl_link_of_unlinked d.connections [] h.unlinked h.connection_metadata

theorem Connection.node {instances : List String} {c : Connection} (first : EndOf instances c.first)
    (second : EndOf instances c.second) : ConnectionNode instances c.toJson c := by
  refine ⟨?_, first, second⟩
  unfold toJson
  cases empty : c.metadata.isEmpty with
  | true => exact Or.inl ⟨rfl, metadata_of_isEmpty empty⟩
  | false => exact Or.inr (Or.inr rfl)

/-! ## Definitions, modules and generators -/

theorem Definition.Sound.node {d : Definition} (h : d.Sound env) (strict : Bool) :
    DefinitionNode strict env d.toJson (d.arrange env) := by
  have keys : Assoc.keys (d.arrange env).instances = Assoc.keys d.instances :=
    Assoc.keys_map (Instance.arrange env) d.instances
  obtain ⟨ms, node, instances, connections, implementations, metadata⟩ := d.members
  refine ⟨ms, _, _, d.connections, node, instances, ?_, connections, ?_, h.linkAll_eq.symm,
    implementations, metadata⟩
  · refine List.forall₂_map_left_iff.2 (List.forall₂_map_right_iff.2 (List.forall₂_same.2 ?_))
    exact fun e he => ⟨rfl, h.named e he, (h.instances e he).node strict⟩
  · refine List.forall₂_map_left_iff.2 (List.forall₂_same.2 fun c hc => ?_)
    rw [keys]
    exact Connection.node (h.ends c hc).1 (h.ends c hc).2

theorem Module.Sound.node {m : Module} (h : m.Sound env) (strict : Bool) :
    ModuleNode (defined strict env) m.toJson (m.arrange env) := by
  obtain ⟨ms, node, type, params, metadata, definition⟩ := m.members
  refine ⟨ms, node, type, h.type, params, metadata, ?_⟩
  rw [definition]
  unfold defined arrange
  cases hd : m.definition with
  | none => exact .none
  | some d => exact .some ((h.definition d hd).node strict)

theorem Generator.node (g : Generator) : GeneratorNode g.toJson g := by
  refine ⟨_, objectOf_eq _, ?_, ?_, ?_⟩
  · exact optionally_of_get? (b := false) (by simp) (fun empty => by cases empty) rfl
  · exact optionally_of_get? (b := g.params.isEmpty)
      (by simp [configparamsMember, metadataMember]) List.isEmpty_iff.1 rfl
  · exact optionally_of_get? (b := g.metadata.isEmpty)
      (by simp [configparamsMember, metadataMember]) metadata_of_isEmpty rfl

/-! ## Namespaces and the document -/

theorem Namespace.Sound.node {ns : Namespace} (h : ns.Sound env) (strict : Bool) :
    NamespaceNode (defined strict env) ns.toJson (ns.arrange env) := by
  obtain ⟨ms, node, modules, generators⟩ := ns.members
  refine Or.inr ⟨ms, _, _, node, modules, generators, ?_, ?_⟩
  · refine List.forall₂_map_left_iff.2 (List.forall₂_map_right_iff.2 (List.forall₂_same.2 ?_))
    exact fun e he => ⟨rfl, (h.modules e he).node strict⟩
  · exact List.forall₂_map_left_iff.2 (List.forall₂_same.2 fun e he => ⟨rfl, Generator.node e.2⟩)

theorem Namespace.names_arrange (env : Signatures) (ns : Namespace) :
    (ns.arrange env).names = ns.names := by
  rw [names, names, arrange, Assoc.keys_map]

end

/-- Namespaces with new names come one after another. -/
theorem extend_of_nodup {nss scopes : Scopes} (h : (Assoc.keys scopes ++ Assoc.keys nss).Nodup) :
    extend scopes nss = scopes ++ nss := by
  induction nss generalizing scopes with
  | nil => simp [extend]
  | cons n rest ih =>
    obtain ⟨name, ns⟩ := n
    have new : name ∉ Assoc.keys scopes := fun hk =>
      (List.nodup_append.1 h).2.2 name hk name List.mem_cons_self rfl
    have here : join scopes name ns = scopes ++ [(name, ns)] := by
      rw [join, Assoc.set_of_not_mem _ new, scopeOf, Assoc.get?_eq_none_iff.2 new]
      rfl
    have step : extend scopes ((name, ns) :: rest) = extend (join scopes name ns) rest := rfl
    rw [step, here, ih (by simpa using h)]
    simp

/-- The document of a sound outline says this outline, with all arguments in order. -/
theorem Sound.node {o : Outline} (h : o.Sound) (strict : Bool) :
    DocumentNode strict [] o.toJson o.arrange := by
  obtain ⟨ps, top⟩ := h.top
  have signatures : signature? o.arrange.namespaces = signature? o.namespaces :=
    signature?_arrange _ _
  have keys : Assoc.keys o.arrange.namespaces = Assoc.keys o.namespaces := Assoc.keys_map _ _
  refine ⟨_, o.namespaces.map fun n => (n.1, n.2.toJson), o.arrange.namespaces, ps, rfl, rfl, rfl,
    ?_, ?_, ?_, by rw [signatures]; exact top⟩
  · rw [signatures]
    refine List.forall₂_map_left_iff.2 (List.forall₂_map_right_iff.2 (List.forall₂_same.2 ?_))
    exact fun n hn => ⟨rfl, (h.namespaces n hn).node strict⟩
  · intro n hn
    obtain ⟨k, hk, rfl⟩ := List.mem_map.1 hn
    refine ⟨?_, fun _ _ => nofun⟩
    rw [Namespace.names_arrange]
    exact (h.namespaces k hk).names
  · exact (@extend_of_nodup o.arrange.namespaces [] (keys.symm ▸ h.nodup)).symm

end Outline

end Netlist
