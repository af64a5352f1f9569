-- The bags of a design are its metadata and its implementations: the only values in it that
-- are not its own. Without doubles in them there are none in its document.
import Netlist.Proofs.Json.Tokens
import Netlist.Proofs.Saved.Designs

namespace Netlist

namespace Json

/-! ## Arrays and objects -/

theorem floatFree_array_iff {vs : List Json} :
    (array vs).floatFree = true ↔ ∀ v ∈ vs, v.floatFree = true := by
  rw [floatFree]
  induction vs with
  | nil => exact ⟨fun _ _ hv => (List.not_mem_nil hv).elim, fun _ => rfl⟩
  | cons v rest ih => rw [floatFreeItems_cons, ih, List.forall_mem_cons]

theorem floatFree_object_iff {ms : List (String × Json)} :
    (object ms).floatFree = true ↔ ∀ m ∈ ms, m.2.floatFree = true := by
  rw [floatFree]
  induction ms with
  | nil => exact ⟨fun _ _ hm => (List.not_mem_nil hm).elim, fun _ => rfl⟩
  | cons m rest ih =>
    obtain ⟨k, v⟩ := m
    rw [floatFreeMembers_cons, ih, List.forall_mem_cons]

/-- Of members that may be left out, only those that are there count. -/
theorem floatFree_objectOf {ms : List (Option (String × Json))}
    (h : ∀ o ∈ ms, ∀ m ∈ o, m.2.floatFree = true) : (objectOf ms).floatFree = true := by
  refine floatFree_object_iff.2 fun m hm => ?_
  obtain ⟨o, ho, there⟩ := List.mem_filterMap.1 hm
  exact h o ho m there

theorem floatFree_some {key : String} {v : Json} (h : v.floatFree = true) :
    ∀ m ∈ some (key, v), m.2.floatFree = true := by
  rintro _ ⟨⟩
  exact h

theorem floatFree_unlessEmpty {key : String} {empty : Bool} {v : Json}
    (h : v.floatFree = true) : ∀ m ∈ unlessEmpty key empty v, m.2.floatFree = true := by
  cases empty with
  | true => rintro _ ⟨⟩
  | false => exact floatFree_some h

theorem floatFree_map {α : Type} {key : String} {f : α → Json} {o : Option α}
    (h : ∀ a ∈ o, (f a).floatFree = true) :
    ∀ m ∈ o.map fun a => (key, f a), m.2.floatFree = true := by
  cases o with
  | none => rintro _ ⟨⟩
  | some a => exact floatFree_some (h a rfl)

theorem floatFree_strings (words : List String) :
    (array (words.map .string)).floatFree = true := by
  refine floatFree_array_iff.2 fun v hv => ?_
  obtain ⟨word, -, rfl⟩ := List.mem_map.1 hv
  rfl

end Json

/-! ## Bags -/

/-- Whether a bag holds no double. -/
def Metadata.FloatFree (m : Metadata) : Prop := m.toJson.floatFree = true

instance (m : Metadata) : Decidable m.FloatFree :=
  inferInstanceAs (Decidable (m.toJson.floatFree = true))

def Definition.bags (x : Definition) : List Metadata :=
  x.implementations :: x.metadata ::
    (x.instances.values.map (·.metadata) ++ x.connections.toList.map (·.metadata))

def Module.bags (m : Module) : List Metadata :=
  m.metadata :: m.definition.toList.flatMap Definition.bags

namespace Design

/-- Everything in a design that it holds for others and does not read. -/
def bags (d : Design) : List Metadata :=
  d.modules.toList.flatMap Module.bags ++ d.generators.toList.map (·.metadata)

def FloatFree (d : Design) : Prop := ∀ m ∈ d.bags, m.FloatFree

instance (d : Design) : Decidable d.FloatFree :=
  inferInstanceAs (Decidable (∀ m ∈ d.bags, m.FloatFree))

end Design

namespace Outline

def Definition.bags (x : Definition) : List Metadata :=
  x.implementations :: x.metadata ::
    (x.instances.map (·.2.metadata) ++ x.connections.map (·.metadata))

def Module.bags (m : Module) : List Metadata :=
  m.metadata :: m.definition.toList.flatMap Definition.bags

def Namespace.bags (ns : Namespace) : List Metadata :=
  ns.modules.flatMap (·.2.bags) ++ ns.generators.map (·.2.metadata)

def FloatFree (o : Outline) : Prop := ∀ n ∈ o.namespaces, ∀ m ∈ n.2.bags, m.FloatFree

end Outline

/-! ## Documents -/

mutual

theorem TypeTree.floatFree : ∀ t : TypeTree String, t.toJson.floatFree = true
  | .any | .bitIn | .bitOut => rfl
  | .array _ element => Json.floatFree_array_iff.2 (List.forall_mem_cons.2 ⟨rfl,
      List.forall_mem_cons.2 ⟨rfl, List.forall_mem_singleton.2 element.floatFree⟩⟩)
  | .record fields => Json.floatFree_array_iff.2 (List.forall_mem_cons.2 ⟨rfl,
      List.forall_mem_singleton.2 (TypeTree.floatFree_fields fields)⟩)

theorem TypeTree.floatFree_fields : ∀ ts : List (String × TypeTree String),
    (Json.array (TypeTree.fieldsToJson ts)).floatFree = true
  | [] => rfl
  | (_, t) :: rest => Json.floatFreeItems_cons.2 ⟨Json.floatFreeItems_cons.2 ⟨rfl,
      Json.floatFreeItems_cons.2 ⟨t.floatFree, rfl⟩⟩, TypeTree.floatFree_fields rest⟩

end

theorem ArgTree.floatFree (a : ArgTree) : a.toJson.floatFree = true := by
  cases a with
  | int i => rfl
  | string s => rfl
  | type t => exact t.floatFree

namespace Outline

open Json

theorem floatFree_entriesToJson {α : Type} {f : α → Json} {es : List (String × α)}
    (h : ∀ e ∈ es, (f e.2).floatFree = true) : (entriesToJson f es).floatFree = true := by
  refine floatFree_object_iff.2 fun m hm => ?_
  obtain ⟨e, he, rfl⟩ := List.mem_map.1 hm
  exact h e he

theorem floatFree_params (ps : List (String × ParamKind)) :
    (paramsToJson ps).floatFree = true :=
  floatFree_entriesToJson fun _ _ => rfl

theorem floatFree_args (args : List (String × ArgTree)) : (argsToJson args).floatFree = true :=
  floatFree_entriesToJson fun e _ => e.2.floatFree

theorem Instance.floatFree {i : Instance} (h : i.metadata.FloatFree) :
    i.toJson.floatFree = true :=
  floatFree_objectOf (List.forall_mem_cons.2 ⟨floatFree_some (floatFree_strings [_, _]),
    List.forall_mem_cons.2 ⟨floatFree_map fun args _ => floatFree_args args,
    List.forall_mem_cons.2 ⟨floatFree_unlessEmpty (floatFree_args i.config),
    List.forall_mem_singleton.2 (floatFree_unlessEmpty h)⟩⟩⟩)

theorem Connection.floatFree {c : Connection} (h : c.metadata.FloatFree) :
    c.toJson.floatFree = true := by
  unfold Connection.toJson
  refine floatFree_array_iff.2 fun v hv => ?_
  rcases List.mem_append.1 hv with hv | hv
  · rcases List.mem_pair.1 hv with rfl | rfl <;> exact floatFree_strings _
  · split at hv
    · cases hv
    · rw [List.mem_singleton.1 hv]
      exact h

theorem Definition.floatFree {x : Definition} (h : ∀ m ∈ x.bags, m.FloatFree) :
    x.toJson.floatFree = true := by
  obtain ⟨implementations, h⟩ := List.forall_mem_cons.1 h
  obtain ⟨metadata, h⟩ := List.forall_mem_cons.1 h
  obtain ⟨instances, connections⟩ := List.forall_mem_append.1 h
  have connections : (Json.array (x.connections.map Connection.toJson)).floatFree = true := by
    refine floatFree_array_iff.2 fun v hv => ?_
    obtain ⟨c, hc, rfl⟩ := List.mem_map.1 hv
    exact Connection.floatFree (connections _ (List.mem_map_of_mem hc))
  have instances := floatFree_entriesToJson fun i hi =>
    Instance.floatFree (instances _ (List.mem_map_of_mem hi))
  exact floatFree_objectOf (List.forall_mem_cons.2 ⟨floatFree_unlessEmpty instances,
    List.forall_mem_cons.2 ⟨floatFree_unlessEmpty connections,
    List.forall_mem_cons.2 ⟨floatFree_unlessEmpty implementations,
    List.forall_mem_singleton.2 (floatFree_unlessEmpty metadata)⟩⟩⟩)

theorem Module.floatFree {m : Module} (h : ∀ b ∈ m.bags, b.FloatFree) :
    m.toJson.floatFree = true := by
  obtain ⟨metadata, definition⟩ := List.forall_mem_cons.1 h
  have definition : ∀ x ∈ m.definition, x.toJson.floatFree = true := fun x hx =>
    Definition.floatFree fun b hb =>
      definition b (List.mem_flatMap.2 ⟨x, Option.mem_toList.2 hx, hb⟩)
  exact floatFree_objectOf (List.forall_mem_cons.2 ⟨floatFree_some m.type.floatFree,
    List.forall_mem_cons.2 ⟨floatFree_unlessEmpty (floatFree_params m.params),
    List.forall_mem_cons.2 ⟨floatFree_unlessEmpty metadata,
    List.forall_mem_singleton.2 (floatFree_map definition)⟩⟩⟩)

theorem Generator.floatFree {g : Generator} (h : g.metadata.FloatFree) :
    g.toJson.floatFree = true :=
  floatFree_objectOf (List.forall_mem_cons.2 ⟨floatFree_some (floatFree_params g.genparams),
    List.forall_mem_cons.2 ⟨floatFree_unlessEmpty (floatFree_params g.params),
    List.forall_mem_singleton.2 (floatFree_unlessEmpty h)⟩⟩)

theorem Namespace.floatFree {ns : Namespace} (h : ∀ b ∈ ns.bags, b.FloatFree) :
    ns.toJson.floatFree = true := by
  obtain ⟨modules, generators⟩ := List.forall_mem_append.1 h
  have modules := floatFree_entriesToJson fun m hm =>
    Module.floatFree fun b hb => modules b (List.mem_flatMap.2 ⟨m, hm, hb⟩)
  have generators := floatFree_entriesToJson fun g hg =>
    Generator.floatFree (generators _ (List.mem_map_of_mem hg))
  exact floatFree_objectOf (List.forall_mem_cons.2 ⟨floatFree_unlessEmpty modules,
    List.forall_mem_singleton.2 (floatFree_unlessEmpty generators)⟩)

/-- Only bags bring doubles into a document. -/
theorem FloatFree.toJson {o : Outline} (h : o.FloatFree) : o.toJson.floatFree = true := by
  have namespaces := floatFree_entriesToJson fun n hn => Namespace.floatFree (h n hn)
  exact floatFree_object_iff.2 (List.forall_mem_cons.2 ⟨floatFree_strings [_, _],
    List.forall_mem_singleton.2 namespaces⟩)

end Outline

/-! ## Outlines of designs -/

namespace Design

variable {d : Design}

theorem map_metadata_eq {α β : Type} {f : α → Metadata} {g : β → Metadata} {R : α → β → Prop}
    {xs : List α} {ys : List β} (h : List.Forall₂ R xs ys) (same : ∀ x y, R x y → f x = g y) :
    xs.map f = ys.map g := by
  rw [← List.forall₂_eq_eq_eq]
  exact List.forall₂_map_left_iff.2 (List.forall₂_map_right_iff.2 (h.imp same))

/-- An outline has the bags of what it outlines. -/
theorem bags_of_outlineDefinition {x : Definition} {r : Outline.Definition}
    (h : d.outlineDefinition? x = some r) : x.bags = r.bags := by
  obtain ⟨instances, connections, implementations, metadata⟩ := outlineDefinition_eq_some_iff.1 h
  have instances : x.instances.values.map (·.metadata) = r.instances.map (·.2.metadata) :=
    map_metadata_eq instances fun _ _ h => (outlineInstance_eq_some_iff.1 h.2).2.2.2.2
  have connections : x.connections.toList.map (·.metadata) = r.connections.map (·.metadata) :=
    map_metadata_eq connections fun _ _ h => (outlineConnection_eq_some_iff.1 h).2.2
  rw [Definition.bags, Outline.Definition.bags, instances, connections, implementations, metadata]

theorem bags_of_outlineModule {id : ModuleId} {r : Outline.Module}
    (h : d.outlineModule? id = some r) :
    ∃ m, d.modules.get? id = some m ∧ m.bags = r.bags := by
  obtain ⟨m, hm, -, -, metadata, body⟩ := outlineModule_eq_some_iff.1 h
  refine ⟨m, hm, ?_⟩
  rw [Module.bags, Outline.Module.bags, metadata]
  cases hx : m.definition with
  | none =>
    rw [hx] at body
    rw [← Option.some.inj body]
    rfl
  | some x =>
    rw [hx] at body
    obtain ⟨x', outline, same⟩ := Option.map_eq_some_iff.1 body
    rw [← same]
    exact congrArg (r.metadata :: · ++ []) (bags_of_outlineDefinition outline)

/-- A design without doubles has an outline without doubles. -/
theorem FloatFree.outline (free : d.FloatFree) {top : ModuleId} {o : Outline}
    (ho : d.outline? top = some o) : o.FloatFree := by
  obtain ⟨inModules, inGenerators⟩ := List.forall_mem_append.1 free
  obtain ⟨-, hs⟩ := outline_eq_some_iff.1 ho
  intro n hn
  obtain ⟨ns, -, -, outline⟩ := exists_of_forall₂ (outlineNamespaces_eq_some_iff.1 hs).flip hn
  obtain ⟨modules, generators⟩ := outlineNamespace_eq_some_iff.1 outline
  refine List.forall_mem_append.2 ⟨fun b hb => ?_, fun b hb => ?_⟩
  · obtain ⟨e, he, hb⟩ := List.mem_flatMap.1 hb
    obtain ⟨_, -, -, outline⟩ := exists_of_forall₂ (outlineEntries_eq_some_iff.1 modules).flip he
    obtain ⟨m, hm, same⟩ := bags_of_outlineModule outline
    exact inModules b (List.mem_flatMap.2 ⟨m, Table.mem_toList_iff.2 ⟨_, hm⟩, same ▸ hb⟩)
  · obtain ⟨e, he, rfl⟩ := List.mem_map.1 hb
    obtain ⟨_, -, -, outline⟩ := exists_of_forall₂ (outlineEntries_eq_some_iff.1 generators).flip he
    obtain ⟨g, hg, -, -, same⟩ := outlineGenerator_eq_some_iff.1 outline
    exact inGenerators _ (List.mem_map.2 ⟨g, Table.mem_toList_iff.2 ⟨_, hg⟩, same⟩)

end Design

end Netlist
