-- What the nodes of modules, generators and namespaces say. The first pass of reading asks
-- nothing of the node of a definition, so what is asked of it is left open here.
import Netlist.Proofs.Nodes.Definitions

namespace Netlist

/-! ## Names in a namespace -/

namespace Outline.Namespace

/-- Everything that is called something in the namespace. -/
def names (ns : Namespace) : List String := Assoc.keys ns.modules ++ Assoc.keys ns.generators

def append (ns more : Namespace) : Namespace :=
  ⟨ns.modules ++ more.modules, ns.generators ++ more.generators⟩

/-- Whether all names of what comes are different, and new in the namespace. -/
def Fresh (ns more : Namespace) : Prop := more.names.Nodup ∧ ∀ name ∈ more.names, name ∉ ns.names

def only (name : String) (m : Module) : Namespace := ⟨[(name, m)], []⟩

variable {a b ns : Namespace}

@[simp] theorem append_empty (ns : Namespace) : ns.append ⟨[], []⟩ = ns := by
  simp [append]

@[simp] theorem empty_append (ns : Namespace) : append ⟨[], []⟩ ns = ns := rfl

theorem append_assoc (ns a b : Namespace) : (ns.append a).append b = ns.append (a.append b) := by
  simp [append]

theorem mem_names_append {name : String} :
    name ∈ (a.append b).names ↔ name ∈ a.names ∨ name ∈ b.names := by
  simp only [names, append, List.map_append, List.mem_append]
  tauto

theorem names_append_perm (a b : Namespace) : (a.append b).names.Perm (a.names ++ b.names) := by
  simp only [names, append, List.map_append, List.append_assoc]
  refine List.Perm.append_left _ ?_
  rw [← List.append_assoc, ← List.append_assoc]
  exact List.Perm.append_right _ List.perm_append_comm

/-- What comes in two parts: the second one is new after the first one. -/
theorem fresh_append_iff : ns.Fresh (a.append b) ↔ ns.Fresh a ∧ (ns.append a).Fresh b := by
  unfold Fresh
  rw [(names_append_perm a b).nodup_iff, List.nodup_append]
  simp only [mem_names_append, not_or]
  constructor
  · rintro ⟨⟨ha, hb, apart⟩, new⟩
    exact ⟨⟨ha, fun n hn => new n (Or.inl hn)⟩, hb, fun n hn =>
      ⟨new n (Or.inr hn), fun hn' => apart n hn' n hn rfl⟩⟩
  · rintro ⟨⟨ha, new⟩, hb, new'⟩
    refine ⟨⟨ha, hb, fun n hn k hk same => (new' k hk).2 (same ▸ hn)⟩, fun n hn => ?_⟩
    exact hn.elim (new n) fun hn => (new' n hn).1

@[simp] theorem fresh_empty (ns : Namespace) : ns.Fresh ⟨[], []⟩ := by
  simp [Fresh, names]

theorem fresh_singleton_iff {name : String} (h : a.names = [name]) :
    ns.Fresh a ↔ name ∉ ns.names := by
  simp [Fresh, h]

end Outline.Namespace

/-! ## Entries -/

/-- The members of an object. Nothing else has any. -/
def Json.entries : Json → List (String × Json)
  | object ms => ms
  | _ => []

/-- A member of an object, null if it is absent. -/
def Json.entry (node : Json) (key : String) : Json := (Assoc.get? key node.entries).getD .null

namespace Plain

open Document Outline.Namespace

section

variable {ms : List (String × Json)} {key : String}

theorem entry_object (ms : List (String × Json)) (key : String) :
    (Json.object ms).entry key = (Assoc.get? key ms).getD .null := rfl

/-- An optional member that is null counts as one that is absent. -/
theorem optional_eq_none_iff_entry {node : Json} :
    optional node.entries key = none ↔ node.entry key = .null := by
  unfold Json.entry
  rw [optional_eq_none_iff]
  cases Assoc.get? key node.entries with
  | none => simp
  | some v => simp

theorem entry_of_absent (h : optional ms key = none) : (Json.object ms).entry key = .null :=
  (@optional_eq_none_iff_entry key (.object ms)).1 h

theorem entry_of_optional {v : Json} (h : optional ms key = some v) :
    (Json.object ms).entry key = v := by
  rw [entry_object, (optional_eq_some_iff.1 h).1]
  rfl

/-- The entry of an optional member is null, or it is what the member says. -/
theorem entry_of_optionally {α : Type} {toJson : α → Json} {e a : α}
    (h : Optionally ms key toJson e a) :
    (Json.object ms).entry key = .null ∧ a = e ∨ (Json.object ms).entry key = toJson a :=
  h.imp (fun ⟨absent, empty⟩ => ⟨entry_of_absent absent, empty⟩) entry_of_optional

/-- An optional object, with its members. -/
theorem entries_of_optionally {es : List (String × Json)} (h : Optionally ms key .object [] es) :
    ((Json.object ms).entry key).entries = es := by
  rcases entry_of_optionally h with ⟨null, rfl⟩ | there
  · rw [null, Json.entries]
    exact nofun
  · rw [there, Json.entries]

end

/-- Entries under the keys of their nodes, in the same order. -/
def Entries {α : Type} (R : Json → α → Prop) (ms : List (String × Json)) (xs : List (String × α)) :
    Prop :=
  List.Forall₂ (fun m x => x.1 = m.1 ∧ R m.2 x.2) ms xs

theorem Entries.keys {α : Type} {R : Json → α → Prop} {ms : List (String × Json)}
    {xs : List (String × α)} (h : Entries R ms xs) : Assoc.keys xs = Assoc.keys ms := by
  induction h with
  | nil => rfl
  | cons he _ ih => exact List.cons_eq_cons.2 ⟨he.1, ih⟩

/-! ## Modules and generators -/

/-- What is asked of the node of a definition. -/
abbrev Body := Option Json → Option Outline.Definition → Prop

/-- Nothing is asked, and nothing is read. -/
def unread : Body := fun _ x => x = none

/-- A definition, if there is a node for it. -/
def defined (strict : Bool) (env : Signatures) : Body := Option.Rel (DefinitionNode strict env)

def ModuleNode (body : Body) (node : Json) (m : Outline.Module) : Prop :=
  ∃ ms, node = .object ms ∧ Assoc.get? "type" ms = some m.type.toJson ∧ m.type.Sound ∧
    Optionally ms "configparams" Outline.paramsToJson [] m.params ∧
    Optionally ms "metadata" Metadata.toJson ∅ m.metadata ∧ body (optional ms "def") m.definition

def GeneratorNode (node : Json) (g : Outline.Generator) : Prop :=
  ∃ ms, node = .object ms ∧ Optionally ms "genparams" Outline.paramsToJson [] g.genparams ∧
    Optionally ms "configparams" Outline.paramsToJson [] g.params ∧
    Optionally ms "metadata" Metadata.toJson ∅ g.metadata

/-- The node of a namespace. A null namespace is empty. -/
def NamespaceNode (body : Body) (node : Json) (ns : Outline.Namespace) : Prop :=
  node = .null ∧ ns = ⟨[], []⟩ ∨
    ∃ ms modules generators, node = .object ms ∧ Optionally ms "modules" .object [] modules ∧
      Optionally ms "generators" .object [] generators ∧
      Entries (ModuleNode body) modules ns.modules ∧ Entries GeneratorNode generators ns.generators

/-- What a namespace lists, null or not. -/
theorem NamespaceNode.entries {body : Body} {node : Json} {ns : Outline.Namespace}
    (h : NamespaceNode body node ns) :
    Entries (ModuleNode body) (node.entry "modules").entries ns.modules ∧
      Entries GeneratorNode (node.entry "generators").entries ns.generators := by
  rcases h with ⟨rfl, rfl⟩ | ⟨ms, es, es', rfl, hes, hes', modules, generators⟩
  · exact ⟨.nil, .nil⟩
  · rw [entries_of_optionally hes, entries_of_optionally hes']
    exact ⟨modules, generators⟩

/-- The modules among these nodes whose definitions are still to be read. -/
def pendingModules (scope : String) (ms : List (String × Json)) : List Pending :=
  ms.filterMap fun m => (optional m.2.entries "def").map (Pending.mk scope m.1)

def pendingNodes (nodes : List (String × Json)) : List Pending :=
  nodes.flatMap fun n => pendingModules n.1 (n.2.entry "modules").entries

/-- Only modules that a namespace lists are pending, each under the node of its definition. -/
theorem exists_of_mem_pendingNodes {nodes : List (String × Json)} {p : Pending}
    (hp : p ∈ pendingNodes nodes) : ∃ n ∈ nodes, ∃ m ∈ (n.2.entry "modules").entries,
      p = ⟨n.1, m.1, m.2.entry "def"⟩ ∧ m.2.entry "def" ≠ .null := by
  obtain ⟨n, hn, hp⟩ := List.mem_flatMap.1 hp
  obtain ⟨m, hm, hp⟩ := List.mem_filterMap.1 hp
  obtain ⟨v, hv, rfl⟩ := Option.map_eq_some_iff.1 hp
  have definition : m.2.entry "def" = v := entry_of_optional hv
  exact ⟨n, hn, m, hm, by rw [definition], definition ▸ (optional_eq_some_iff.1 hv).2⟩

theorem requireFree_eq_ok_iff {ns : Outline.Namespace} {scope name : String} :
    requireFree ns scope name = .ok () ↔ name ∉ ns.names := by
  unfold requireFree names
  rw [List.mem_append]
  split <;> rename_i h
  · exact ⟨nofun, fun new => absurd h new⟩
  · exact ⟨fun _ => h, fun _ => rfl⟩

theorem declareModule_eq_ok_iff {scope name : String} {node : Json} (wf : node.WellFormed)
    {ns ns' : Outline.Namespace} {ps : List Pending} :
    declareModule scope name node ns = .ok (ns', ps) ↔
      ∃ m, ModuleNode unread node m ∧ ns.Fresh ⟨[(name, m)], []⟩ ∧
        ns' = ns.append ⟨[(name, m)], []⟩ ∧ ps = pendingModules scope [(name, node)] := by
  have pending (ms : List (String × Json)) : pendingModules scope [(name, .object ms)] =
      ((optional ms "def").map (Pending.mk scope name)).toList := by
    rw [pendingModules, List.filterMap_cons, List.filterMap_nil, Json.entries]
    cases optional ms "def" <;> rfl
  constructor
  · intro h
    obtain ⟨ms, hms, h⟩ := bind_eq_ok_iff.1 h
    obtain ⟨v, hv, h⟩ := bind_eq_ok_iff.1 h
    obtain ⟨t, ht, h⟩ := bind_eq_ok_iff.1 h
    obtain ⟨params, hp, h⟩ := bind_eq_ok_iff.1 h
    obtain ⟨_, free, h⟩ := bind_eq_ok_iff.1 h
    obtain ⟨md, hmd, h⟩ := bind_eq_ok_iff.1 h
    cases h
    obtain rfl := members_eq_ok hms
    obtain ⟨sound, rfl⟩ := readType_eq_ok_iff.1 ht
    refine ⟨⟨t, params, md, none⟩, ⟨ms, rfl, required_eq_ok_iff.1 hv, sound,
      (readParams?_eq_ok_iff wf).1 hp, readMetadata?_eq_ok_iff.1 hmd, rfl⟩,
      (fresh_singleton_iff rfl).2 (requireFree_eq_ok_iff.1 free), ?_, (pending ms).symm⟩
    simp [append]
  · rintro ⟨⟨t, params, md, _⟩, ⟨ms, rfl, hv, sound, hp, hmd, rfl⟩, free, rfl, rfl⟩
    rw [fresh_singleton_iff rfl] at free
    refine bind_eq_ok_iff.2 ⟨ms, rfl, bind_eq_ok_iff.2 ⟨_, required_eq_ok_iff.2 hv, ?_⟩⟩
    refine bind_eq_ok_iff.2 ⟨t, readType_toJson sound, ?_⟩
    refine bind_eq_ok_iff.2 ⟨params, (readParams?_eq_ok_iff wf).2 hp, ?_⟩
    refine bind_eq_ok_iff.2 ⟨(), requireFree_eq_ok_iff.2 free, ?_⟩
    refine bind_eq_ok_iff.2 ⟨md, readMetadata?_eq_ok_iff.2 hmd, ?_⟩
    rw [pending]
    simp [append]
    rfl

theorem Entries.cons_iff {α : Type} {R : Json → α → Prop} {name : String} {node : Json}
    {ms : List (String × Json)} {xs : List (String × α)} :
    Entries R ((name, node) :: ms) xs ↔ ∃ x rest, R node x ∧ Entries R ms rest ∧
      xs = (name, x) :: rest := by
  constructor
  · intro h
    cases h with
    | @cons _ e _ rest he h =>
    obtain ⟨_, x⟩ := e
    obtain ⟨rfl, he⟩ := he
    exact ⟨x, rest, he, h, rfl⟩
  · rintro ⟨x, rest, hx, h, rfl⟩
    exact .cons ⟨rfl, hx⟩ h

theorem declareModules_eq_ok_iff {scope : String} {ms : List (String × Json)}
    (wf : ∀ m ∈ ms, m.2.WellFormed) : ∀ {ns ns' : Outline.Namespace} {ps : List Pending},
    declareModules scope ms ns = .ok (ns', ps) ↔
      ∃ xs, Entries (ModuleNode unread) ms xs ∧ ns.Fresh ⟨xs, []⟩ ∧ ns' = ns.append ⟨xs, []⟩ ∧
        ps = pendingModules scope ms := by
  induction ms with
  | nil =>
    intro ns ns' ps
    constructor
    · intro h
      cases h
      exact ⟨[], .nil, fresh_empty ns, (append_empty ns).symm, rfl⟩
    · rintro ⟨xs, h, -, rfl, rfl⟩
      cases h
      rw [append_empty]
      rfl
  | cons m rest ih =>
    obtain ⟨name, node⟩ := m
    rw [List.forall_mem_cons] at wf
    intro ns ns' ps
    constructor
    · intro h
      obtain ⟨⟨_, _⟩, h₁, h⟩ := bind_eq_ok_iff.1 h
      obtain ⟨⟨_, _⟩, h₂, h⟩ := bind_eq_ok_iff.1 h
      cases h
      obtain ⟨m, said, free, rfl, rfl⟩ := (declareModule_eq_ok_iff wf.1).1 h₁
      obtain ⟨xs, more, free', rfl, rfl⟩ := (ih wf.2).1 h₂
      refine ⟨(name, m) :: xs, .cons ⟨rfl, said⟩ more, fresh_append_iff.2 ⟨free, free'⟩,
        append_assoc _ _ _, ?_⟩
      exact (List.filterMap_append (l := [(name, node)])).symm
    · rintro ⟨xs, said, free, rfl, rfl⟩
      obtain ⟨m, xs, first, more, rfl⟩ := Entries.cons_iff.1 said
      obtain ⟨free, free'⟩ := (fresh_append_iff (a := ⟨[(name, m)], []⟩) (b := ⟨xs, []⟩)).1 free
      refine bind_eq_ok_iff.2 ⟨_, (declareModule_eq_ok_iff wf.1).2 ⟨m, first, free, rfl, rfl⟩, ?_⟩
      refine bind_eq_ok_iff.2 ⟨_, (ih wf.2).2 ⟨xs, more, free', rfl, rfl⟩, ?_⟩
      rw [append_assoc]
      exact congrArg (fun ps => Except.ok (_, ps)) (List.filterMap_append (l := [(name, node)])).symm

theorem declareGenerator_eq_ok_iff {scope name : String} {node : Json} (wf : node.WellFormed)
    {ns ns' : Outline.Namespace} :
    declareGenerator scope name node ns = .ok ns' ↔
      ∃ g, GeneratorNode node g ∧ ns.Fresh ⟨[], [(name, g)]⟩ ∧
        ns' = ns.append ⟨[], [(name, g)]⟩ := by
  constructor
  · intro h
    obtain ⟨ms, hms, h⟩ := bind_eq_ok_iff.1 h
    obtain ⟨genparams, hg, h⟩ := bind_eq_ok_iff.1 h
    obtain ⟨params, hp, h⟩ := bind_eq_ok_iff.1 h
    obtain ⟨_, free, h⟩ := bind_eq_ok_iff.1 h
    obtain ⟨md, hmd, h⟩ := bind_eq_ok_iff.1 h
    cases h
    obtain rfl := members_eq_ok hms
    refine ⟨⟨genparams, params, md⟩, ⟨ms, rfl, (readParams?_eq_ok_iff wf).1 hg,
      (readParams?_eq_ok_iff wf).1 hp, readMetadata?_eq_ok_iff.1 hmd⟩,
      (fresh_singleton_iff rfl).2 (requireFree_eq_ok_iff.1 free), ?_⟩
    simp [append]
  · rintro ⟨⟨genparams, params, md⟩, ⟨ms, rfl, hg, hp, hmd⟩, free, rfl⟩
    rw [fresh_singleton_iff rfl] at free
    refine bind_eq_ok_iff.2 ⟨ms, rfl, ?_⟩
    refine bind_eq_ok_iff.2 ⟨genparams, (readParams?_eq_ok_iff wf).2 hg, ?_⟩
    refine bind_eq_ok_iff.2 ⟨params, (readParams?_eq_ok_iff wf).2 hp, ?_⟩
    refine bind_eq_ok_iff.2 ⟨(), requireFree_eq_ok_iff.2 free, ?_⟩
    refine bind_eq_ok_iff.2 ⟨md, readMetadata?_eq_ok_iff.2 hmd, ?_⟩
    simp [append]
    rfl

theorem declareGenerators_eq_ok_iff {scope : String} {ms : List (String × Json)}
    (wf : ∀ m ∈ ms, m.2.WellFormed) : ∀ {ns ns' : Outline.Namespace},
    declareGenerators scope ms ns = .ok ns' ↔
      ∃ xs, Entries GeneratorNode ms xs ∧ ns.Fresh ⟨[], xs⟩ ∧ ns' = ns.append ⟨[], xs⟩ := by
  induction ms with
  | nil =>
    intro ns ns'
    constructor
    · intro h
      cases h
      exact ⟨[], .nil, fresh_empty ns, (append_empty ns).symm⟩
    · rintro ⟨xs, h, -, rfl⟩
      cases h
      rw [append_empty]
      rfl
  | cons m rest ih =>
    obtain ⟨name, node⟩ := m
    rw [List.forall_mem_cons] at wf
    intro ns ns'
    constructor
    · intro h
      obtain ⟨_, h₁, h₂⟩ := bind_eq_ok_iff.1 h
      obtain ⟨g, said, free, rfl⟩ := (declareGenerator_eq_ok_iff wf.1).1 h₁
      obtain ⟨xs, more, free', rfl⟩ := (ih wf.2).1 h₂
      exact ⟨(name, g) :: xs, .cons ⟨rfl, said⟩ more, fresh_append_iff.2 ⟨free, free'⟩,
        append_assoc _ _ _⟩
    · rintro ⟨xs, said, free, rfl⟩
      obtain ⟨g, xs, first, more, rfl⟩ := Entries.cons_iff.1 said
      obtain ⟨free, free'⟩ := (fresh_append_iff (a := ⟨[], [(name, g)]⟩) (b := ⟨[], xs⟩)).1 free
      refine bind_eq_ok_iff.2 ⟨_, (declareGenerator_eq_ok_iff wf.1).2 ⟨g, first, free, rfl⟩, ?_⟩
      exact (ih wf.2).2 ⟨xs, more, free', by simp [append]⟩

/-! ## Namespaces -/

theorem declareModulesOf_eq_ok_iff {name : String} {ms : List (String × Json)}
    (wf : (Json.object ms).WellFormed) {ns ns' : Outline.Namespace} {ps : List Pending} :
    declareModulesOf name ms ns = .ok (ns', ps) ↔
      ∃ es xs, Optionally ms "modules" .object [] es ∧ Entries (ModuleNode unread) es xs ∧
        ns.Fresh ⟨xs, []⟩ ∧ ns' = ns.append ⟨xs, []⟩ ∧ ps = pendingModules name es := by
  have reads : declareModulesOf name ms ns =
      (optional ms "modules").elim (declareModules name [] ns) fun node =>
        members node s!"modules of {name}" >>= (declareModules name · ns) := by
    unfold declareModulesOf
    cases optional ms "modules" <;> rfl
  have all {es : List (String × Json)} (h : Optionally ms "modules" .object [] es) :=
    @declareModules_eq_ok_iff name es
      (Json.wellFormed_object_iff.1 (wellFormed_optionally wf h)).2 ns ns' ps
  rw [reads, optionally_eq_ok_iff members_eq_ok_iff (declareModules name · ns)]
  constructor
  · rintro ⟨es, hes, read⟩
    obtain ⟨xs, said⟩ := (all hes).1 read
    exact ⟨es, xs, hes, said⟩
  · rintro ⟨es, xs, hes, said⟩
    exact ⟨es, hes, (all hes).2 ⟨xs, said⟩⟩

theorem declareGeneratorsOf_eq_ok_iff {name : String} {ms : List (String × Json)}
    (wf : (Json.object ms).WellFormed) {ns ns' : Outline.Namespace} :
    declareGeneratorsOf name ms ns = .ok ns' ↔
      ∃ es xs, Optionally ms "generators" .object [] es ∧ Entries GeneratorNode es xs ∧
        ns.Fresh ⟨[], xs⟩ ∧ ns' = ns.append ⟨[], xs⟩ := by
  have reads : declareGeneratorsOf name ms ns =
      (optional ms "generators").elim (declareGenerators name [] ns) fun node =>
        members node s!"generators of {name}" >>= (declareGenerators name · ns) := by
    unfold declareGeneratorsOf
    cases optional ms "generators" <;> rfl
  have all {es : List (String × Json)} (h : Optionally ms "generators" .object [] es) :=
    @declareGenerators_eq_ok_iff name es
      (Json.wellFormed_object_iff.1 (wellFormed_optionally wf h)).2 ns ns'
  rw [reads, optionally_eq_ok_iff members_eq_ok_iff (declareGenerators name · ns)]
  constructor
  · rintro ⟨es, hes, read⟩
    obtain ⟨xs, said⟩ := (all hes).1 read
    exact ⟨es, xs, hes, said⟩
  · rintro ⟨es, xs, hes, said⟩
    exact ⟨es, hes, (all hes).2 ⟨xs, said⟩⟩

theorem declareNamespace_eq_ok_iff {name : String} {node : Json} (wf : node.WellFormed)
    {ns ns' : Outline.Namespace} {ps : List Pending} :
    declareNamespace name node ns = .ok (ns', ps) ↔
      ∃ more, NamespaceNode unread node more ∧ ns.Fresh more ∧ ns' = ns.append more ∧
        ps = pendingModules name (node.entry "modules").entries := by
  unfold declareNamespace
  by_cases null : node.isNull = true
  · obtain rfl : node = .null := by cases node <;> first | rfl | cases null
    rw [if_pos null]
    constructor
    · intro h
      cases h
      exact ⟨_, Or.inl ⟨rfl, rfl⟩, fresh_empty ns, (append_empty ns).symm, rfl⟩
    · rintro ⟨_, ⟨-, rfl⟩ | ⟨_, _, _, there, -⟩, -, rfl, rfl⟩
      · rw [append_empty]
        rfl
      · cases there
  · rw [if_neg null]
    constructor
    · intro h
      obtain ⟨ms, hms, h⟩ := bind_eq_ok_iff.1 h
      obtain ⟨⟨_, _⟩, h₁, h⟩ := bind_eq_ok_iff.1 h
      obtain ⟨_, h₂, h⟩ := bind_eq_ok_iff.1 h
      cases h
      obtain rfl := members_eq_ok hms
      obtain ⟨es, xs, hes, said, free, rfl, rfl⟩ := (declareModulesOf_eq_ok_iff wf).1 h₁
      obtain ⟨es', xs', hes', said', free', rfl⟩ := (declareGeneratorsOf_eq_ok_iff wf).1 h₂
      refine ⟨⟨xs, xs'⟩, Or.inr ⟨ms, es, es', rfl, hes, hes', said, said'⟩, ?_, ?_, ?_⟩
      · have both := fresh_append_iff.2 ⟨free, free'⟩
        simpa [append] using both
      · simp [append]
      · rw [entries_of_optionally hes]
    · rintro ⟨⟨xs, xs'⟩, ⟨rfl, -⟩ | ⟨ms, es, es', rfl, hes, hes', said, said'⟩, free, rfl, rfl⟩
      · exact absurd rfl null
      · have both : Outline.Namespace.mk xs xs' = append ⟨xs, []⟩ ⟨[], xs'⟩ := by simp [append]
        rw [both, fresh_append_iff] at free
        refine bind_eq_ok_iff.2 ⟨ms, rfl, ?_⟩
        refine bind_eq_ok_iff.2
          ⟨_, (declareModulesOf_eq_ok_iff wf).2 ⟨es, xs, hes, said, free.1, rfl, rfl⟩, ?_⟩
        refine bind_eq_ok_iff.2
          ⟨_, (declareGeneratorsOf_eq_ok_iff wf).2 ⟨es', xs', hes', said', free.2, rfl⟩, ?_⟩
        rw [both, append_assoc, entries_of_optionally hes]
        rfl

/-- The namespace of a name, empty if there is none. -/
def scopeOf (scopes : Scopes) (name : String) : Outline.Namespace :=
  (Assoc.get? name scopes).getD ⟨[], []⟩

/-- The namespaces with more in one of them, which is made if it is not there. -/
def join (scopes : Scopes) (name : String) (more : Outline.Namespace) : Scopes :=
  Assoc.set name ((scopeOf scopes name).append more) scopes

/-- The namespaces with everything that these declare. -/
def extend (scopes nss : Scopes) : Scopes := nss.foldl (fun acc n => join acc n.1 n.2) scopes

theorem scopeOf_join (scopes : Scopes) (name : String) (more : Outline.Namespace) (k : String) :
    scopeOf (join scopes name more) k =
      if name = k then (scopeOf scopes name).append more else scopeOf scopes k := by
  unfold join
  rw [scopeOf, Assoc.get?_set]
  split <;> rfl

theorem declareNamespaces_eq_ok_iff {nodes : List (String × Json)}
    (wf : (Json.object nodes).WellFormed) : ∀ {scopes scopes' : Scopes} {ps : List Pending},
    declareNamespaces nodes scopes = .ok (scopes', ps) ↔
      ∃ nss, Entries (NamespaceNode unread) nodes nss ∧
        (∀ n ∈ nss, (scopeOf scopes n.1).Fresh n.2) ∧ scopes' = extend scopes nss ∧
        ps = pendingNodes nodes := by
  rw [Json.wellFormed_object_iff] at wf
  induction nodes with
  | nil =>
    intro scopes scopes' ps
    constructor
    · intro h
      cases h
      exact ⟨[], .nil, nofun, rfl, rfl⟩
    · rintro ⟨nss, h, -, rfl, rfl⟩
      cases h
      rfl
  | cons n rest ih =>
    obtain ⟨name, node⟩ := n
    rw [List.map_cons, List.nodup_cons, List.forall_mem_cons] at wf
    obtain ⟨⟨new, nodup⟩, first, others⟩ := wf
    intro scopes scopes' ps
    -- What is declared here is not looked at again: the other namespaces have other names.
    have elsewhere {nss : Scopes} (said : Entries (NamespaceNode unread) rest nss)
        (more : Outline.Namespace) :
        (∀ n ∈ nss, (scopeOf (join scopes name more) n.1).Fresh n.2) ↔
          ∀ n ∈ nss, (scopeOf scopes n.1).Fresh n.2 := by
      refine forall₂_congr fun n hn => ?_
      have other : name ≠ n.1 := by
        rintro rfl
        have listed : n.1 ∈ Assoc.keys nss := List.mem_map_of_mem hn
        rw [said.keys] at listed
        exact new listed
      rw [scopeOf_join, if_neg other]
    constructor
    · intro h
      obtain ⟨⟨_, _⟩, h₁, h⟩ := bind_eq_ok_iff.1 h
      obtain ⟨⟨_, _⟩, h₂, h⟩ := bind_eq_ok_iff.1 h
      cases h
      obtain ⟨more, said, free, rfl, rfl⟩ := (declareNamespace_eq_ok_iff first).1 h₁
      obtain ⟨nss, saidRest, frees, rfl, rfl⟩ := (ih ⟨nodup, others⟩).1 h₂
      exact ⟨(name, more) :: nss, .cons ⟨rfl, said⟩ saidRest,
        List.forall_mem_cons.2 ⟨free, (elsewhere saidRest more).1 frees⟩, rfl, rfl⟩
    · rintro ⟨_, said, free, rfl, rfl⟩
      obtain ⟨more, nss, saidFirst, saidRest, rfl⟩ := Entries.cons_iff.1 said
      obtain ⟨free, frees⟩ := List.forall_mem_cons.1 free
      refine bind_eq_ok_iff.2
        ⟨_, (declareNamespace_eq_ok_iff first).2 ⟨more, saidFirst, free, rfl, rfl⟩, ?_⟩
      refine bind_eq_ok_iff.2 ⟨_, (ih ⟨nodup, others⟩).2
        ⟨nss, saidRest, (elsewhere saidRest more).2 frees, rfl, rfl⟩, ?_⟩
      rfl

end Plain

end Netlist
