-- The normal form of a document: what is saved after it was loaded into an empty design. It
-- says the same as the document did, without what the document said in vain, and it is its
-- own normal form.
import Netlist.Proofs.RoundTrip

namespace Netlist

/-! ## Normal forms -/

/-- The elements of an array. Nothing else has any. -/
def Json.elements : Json → List Json
  | array items => items
  | _ => []

/-- Whether a value holds nothing: null, or an array or an object that is empty. -/
def Json.isBlank : Json → Bool
  | null | array [] | object [] => true
  | _ => false

namespace Document

/-- An optional member as it is. It is dropped if it is blank. -/
def kept (node : Json) (key : String) : Option (String × Json) :=
  Json.unlessEmpty key (node.entry key).isBlank (node.entry key)

/-- The names of the parameters that a document declares for a module. -/
def declaredParams (doc : Json) : Json → List String
  | .array [.string scope, .string name] =>
    let modules := ((doc.entry "namespaces").entry scope).entry "modules"
    Assoc.keys ((modules.entry name).entry "configparams").entries
  | _ => []

/-- The arguments for these parameters, in the order of the parameters. -/
def normalConfig (params : List String) (config : List (String × Json)) : List (String × Json) :=
  params.filterMap fun key => (Assoc.get? key config).map (key, ·)

def normalInstance (doc node : Json) : Json :=
  let config := normalConfig (declaredParams doc (node.entry "instref")) (node.entry "config").entries
  Json.objectOf [
    some ("instref", node.entry "instref"),
    Json.unlessEmpty "config" config.isEmpty (.object config),
    kept node "metadata"]

def pathWords (node : Json) : List String := node.elements.filterMap Json.asString?

/-- The link that the node of a connection says. -/
def linkOf : Json → Outline.Connection
  | .array [a, b, metadata] => ⟨pathWords a, pathWords b, ⟨metadata.entries⟩⟩
  | .array [a, b] => ⟨pathWords a, pathWords b, ∅⟩
  | _ => ⟨[], [], ∅⟩

/-- The connections, of which no two are between the same ends: metadata of a later one is
put on top of that of the first one. -/
def normalConnections (nodes : List Json) : List Json :=
  (Plain.linkAll (nodes.map linkOf)).map Outline.Connection.toJson

def normalDefinition (doc node : Json) : Json :=
  let instances := (node.entry "instances").entries.map fun e => (e.1, normalInstance doc e.2)
  let connections := normalConnections (node.entry "connections").elements
  Json.objectOf [
    Json.unlessEmpty "instances" instances.isEmpty (.object instances),
    Json.unlessEmpty "connections" connections.isEmpty (.array connections),
    kept node "implementations",
    kept node "metadata"]

/-- A definition stays, even if there is nothing in it, unless it is null. -/
def normalModule (doc node : Json) : Json :=
  Json.objectOf [
    some ("type", node.entry "type"),
    kept node "configparams",
    kept node "metadata",
    (optional node.entries "def").map fun x => ("def", normalDefinition doc x)]

def normalGenerator (node : Json) : Json :=
  Json.objectOf [
    some ("genparams", .object (node.entry "genparams").entries),
    kept node "configparams",
    kept node "metadata"]

/-- A null namespace becomes an empty object. -/
def normalNamespace (doc node : Json) : Json :=
  let modules := (node.entry "modules").entries.map fun e => (e.1, normalModule doc e.2)
  let generators := (node.entry "generators").entries.map fun e => (e.1, normalGenerator e.2)
  Json.objectOf [
    Json.unlessEmpty "modules" modules.isEmpty (.object modules),
    Json.unlessEmpty "generators" generators.isEmpty (.object generators)]

/-- The document without what is unknown in it, without what is empty, with its members and
the arguments in a fixed order, and with its links put together. -/
def normalForm (doc : Json) : Json :=
  let namespaces := (doc.entry "namespaces").entries.map fun n => (n.1, normalNamespace doc n.2)
  .object [("top", doc.entry "top"), ("namespaces", .object namespaces)]

end Document

/-! ## Optional members -/

namespace Plain

open Document Outline

section

variable {ms : List (String × Json)} {key : String}

/-- A member that is kept is the one that is saved. -/
theorem kept_of_optionally {α : Type} {f : α → Json} {e a : α} {b : Bool}
    (h : Optionally ms key f e a) (blank : (f e).isBlank = true) (hb : (f a).isBlank = b) :
    Json.unlessEmpty key b (f a) = kept (.object ms) key := by
  rcases entry_of_optionally h with ⟨null, rfl⟩ | there
  · rw [kept, null, ← hb, blank]
    rfl
  · rw [kept, there, ← hb]

theorem isBlank_object (es : List (String × Json)) : (Json.object es).isBlank = es.isEmpty := by
  cases es <;> rfl

theorem isBlank_paramsToJson (ps : List (String × ParamKind)) :
    (paramsToJson ps).isBlank = ps.isEmpty := by
  cases ps <;> rfl

theorem isBlank_metadata (md : Metadata) : md.toJson.isBlank = md.isEmpty := isBlank_object _

theorem configparamsMember_eq {ps : List (String × ParamKind)}
    (h : Optionally ms "configparams" paramsToJson [] ps) :
    configparamsMember ps = kept (.object ms) "configparams" :=
  kept_of_optionally h rfl (isBlank_paramsToJson ps)

theorem unlessEmpty_metadata_eq {md : Metadata} (h : Optionally ms key Metadata.toJson ∅ md) :
    Json.unlessEmpty key md.isEmpty md.toJson = kept (.object ms) key :=
  kept_of_optionally h rfl (isBlank_metadata md)

end

theorem GeneratorNode.toJson_eq {node : Json} {g : Outline.Generator} (h : GeneratorNode node g) :
    g.toJson = normalGenerator node := by
  obtain ⟨ms, rfl, genparams, params, metadata⟩ := h
  have own : paramsToJson g.genparams = .object ((Json.object ms).entry "genparams").entries := by
    rcases entry_of_optionally genparams with ⟨null, empty⟩ | there
    · rw [null, empty]
      rfl
    · rw [there]
      rfl
  rw [Generator.toJson, normalGenerator, own, configparamsMember_eq params, metadataMember,
    unlessEmpty_metadata_eq metadata]

/-! ## Instances and connections -/

/-- The parameters of modules are those that the document declares for them. -/
def Declares (doc : Json) (env : Signatures) : Prop :=
  ∀ target ps, env target = some (.module, ps) →
    declaredParams doc (.array [.string target.1, .string target.2]) = Assoc.keys ps

section

variable {strict : Bool} {doc : Json} {env : Signatures}

theorem Binds.toJson_eq {config : List (String × Json)} {ps : List (String × ParamKind)}
    {args : List (String × ArgTree)} (h : Binds config ps args) :
    args.map (fun e => (e.1, e.2.toJson)) = normalConfig (Assoc.keys ps) config := by
  induction h with
  | nil => rfl
  | @cons p e _ _ he _ ih =>
    obtain ⟨same, -, -, found⟩ := he
    have step (l : List (String × ParamKind)) : normalConfig (Assoc.keys (p :: l)) config =
        (p.1, e.2.toJson) :: normalConfig (Assoc.keys l) config :=
      List.filterMap_cons_some (by rw [found]; rfl)
    rw [step, List.map_cons, ih, same]

theorem InstanceNode.toJson_eq {node : Json} {i : Outline.Instance} (declares : Declares doc env)
    (h : InstanceNode strict env node i) : i.toJson = normalInstance doc node := by
  obtain ⟨ms, config, ps, rfl, ref, signature, -, -, genargs, hconfig, binds, -, metadata⟩ := h
  have args : argsToJson i.config = .object (normalConfig (Assoc.keys ps) config) :=
    congrArg Json.object binds.toJson_eq
  have empty : i.config.isEmpty = (normalConfig (Assoc.keys ps) config).isEmpty := by
    rw [← binds.toJson_eq, List.isEmpty_map]
  have ref' : (Json.object ms).entry "instref" =
      .array [.string i.target.1, .string i.target.2] := by
    rw [entry_object, ref]
    rfl
  rw [Instance.toJson, normalInstance, metadataMember, unlessEmpty_metadata_eq metadata, genargs,
    args, empty, ref', declares _ ps signature, entries_of_optionally hconfig]
  rfl

theorem pathWords_pathToJson (path : List String) : pathWords (pathToJson path) = path := by
  unfold pathWords pathToJson Json.elements
  rw [List.filterMap_map]
  exact List.filterMap_some

theorem ConnectionNode.eq_linkOf {instances : List String} {node : Json} {c : Outline.Connection}
    (h : ConnectionNode instances node c) : c = linkOf node := by
  obtain ⟨first, second, md⟩ := c
  rcases h.1 with ⟨rfl, same⟩ | ⟨rfl, same⟩ | rfl
  · cases same
    rw [linkOf, pathWords_pathToJson, pathWords_pathToJson]
    rfl
  · cases same
    rw [linkOf, pathWords_pathToJson, pathWords_pathToJson]
    rfl
  · rw [linkOf, pathWords_pathToJson, pathWords_pathToJson]
    rfl

/-- Entries that say something are saved as their nodes' normal forms. -/
theorem Entries.toJson_eq {α : Type} {R : Json → α → Prop} {f : α → Json} {g : Json → Json}
    {ms : List (String × Json)} {xs : List (String × α)} (h : Entries R ms xs)
    (same : ∀ {node x}, R node x → f x = g node) :
    xs.map (fun e => (e.1, f e.2)) = ms.map fun e => (e.1, g e.2) := by
  induction h with
  | nil => rfl
  | @cons m e _ _ he _ ih => rw [List.map_cons, List.map_cons, ih, he.1, same he.2]

theorem InstanceNodes.entries {ms : List (String × Json)} {is : List (String × Outline.Instance)}
    (h : InstanceNodes strict env ms is) : Entries (InstanceNode strict env) ms is :=
  h.imp fun _ _ h => ⟨h.1.symm, h.2.2⟩

theorem elements_of_optionally {ms : List (String × Json)} {key : String} {nodes : List Json}
    (h : Optionally ms key .array [] nodes) : ((Json.object ms).entry key).elements = nodes := by
  rcases entry_of_optionally h with ⟨null, rfl⟩ | there
  · rw [null]
    rfl
  · rw [there]
    rfl

theorem DefinitionNode.toJson_eq {node : Json} {d : Outline.Definition}
    (declares : Declares doc env) (h : DefinitionNode strict env node d) :
    d.toJson = normalDefinition doc node := by
  obtain ⟨ms, entries, nodes, links, rfl, hentries, instances, hnodes, connections, same, hi, hmd⟩ := h
  have hinstances := instances.entries.toJson_eq fun h => h.toJson_eq declares
  have hlinks : links = nodes.map linkOf :=
    List.forall₂_eq_eq_eq ▸ List.forall₂_map_right_iff.2
      (connections.flip.imp fun _ _ (h : ConnectionNode _ _ _) => h.eq_linkOf)
  have hconnections : d.connections.map Connection.toJson = normalConnections nodes := by
    rw [same, hlinks]
    rfl
  unfold Definition.toJson normalDefinition metadataMember
  dsimp only
  rw [entries_of_optionally hentries, elements_of_optionally hnodes, ← hinstances, ← hconnections,
    unlessEmpty_metadata_eq hi, unlessEmpty_metadata_eq hmd, List.isEmpty_map, List.isEmpty_map]
  rfl

theorem ModuleNode.toJson_eq {node : Json} {m : Outline.Module} (declares : Declares doc env)
    (h : ModuleNode (defined strict env) node m) : m.toJson = normalModule doc node := by
  obtain ⟨ms, rfl, type, -, params, metadata, body⟩ := h
  have definition : m.definition.map Definition.toJson =
      (optional ms "def").map (normalDefinition doc) := by
    unfold defined at body
    generalize optional ms "def" = o at body
    generalize m.definition = x at body
    cases body with
    | none => rfl
    | some said => exact congrArg some (said.toJson_eq declares)
  have member : (m.definition.map fun d => ("def", d.toJson)) =
      (optional ms "def").map fun x => ("def", normalDefinition doc x) := by
    have := congrArg (Option.map (Prod.mk "def")) definition
    rwa [Option.map_map, Option.map_map] at this
  have type' : (Json.object ms).entry "type" = m.type.toJson := by
    rw [entry_object, type]
    rfl
  rw [Module.toJson, normalModule, configparamsMember_eq params, metadataMember,
    unlessEmpty_metadata_eq metadata, type', member]
  rfl

theorem NamespaceNode.toJson_eq {node : Json} {ns : Outline.Namespace}
    (declares : Declares doc env) (h : NamespaceNode (defined strict env) node ns) :
    ns.toJson = normalNamespace doc node := by
  rcases h with ⟨rfl, rfl⟩ | ⟨ms, es, es', rfl, hes, hes', modules, generators⟩
  · rfl
  · have hmodules := modules.toJson_eq fun h => h.toJson_eq declares
    have hgenerators := generators.toJson_eq fun h => h.toJson_eq
    unfold Namespace.toJson normalNamespace
    dsimp only
    rw [entries_of_optionally hes, entries_of_optionally hes', ← hmodules, ← hgenerators,
      List.isEmpty_map, List.isEmpty_map]
    rfl

end

/-! ## Documents -/

theorem Entries.get? {α : Type} {R : Json → α → Prop} {ms : List (String × Json)}
    {xs : List (String × α)} (h : Entries R ms xs) (key : String) :
    Option.Rel R (Assoc.get? key ms) (Assoc.get? key xs) := by
  induction h with
  | nil => exact .none
  | @cons m e _ _ he _ ih =>
    rw [Assoc.get?, Assoc.get?, he.1]
    split
    · exact .some he.2
    · exact ih

section

variable {strict : Bool} {doc : Json} {o : Outline}

/-- Into no namespaces, a document brings those that it lists. -/
theorem extend_nil {nss : Scopes} (nodup : (Assoc.keys nss).Nodup) : extend [] nss = nss :=
  extend_of_nodup (by exact nodup)

/-- What a document brings into no namespaces. -/
theorem DocumentNode.listed (wf : doc.WellFormed) (h : DocumentNode strict [] doc o) :
    doc.entry "top" = .array [.string o.top.1, .string o.top.2] ∧
      Entries (NamespaceNode (defined strict (signature? o.namespaces)))
        (doc.entry "namespaces").entries o.namespaces := by
  obtain ⟨ms, nodes, nss, ps, rfl, top, namespaces, said, -, same, -⟩ := h
  have nodup : (Assoc.keys nss).Nodup :=
    said.keys ▸ (Json.wellFormed_object_iff.1 (wf.member namespaces)).1
  rw [extend_nil nodup] at same
  rw [entry_object, entry_object, top, namespaces, same]
  exact ⟨rfl, same ▸ said⟩

/-- The document itself declares the parameters of its modules. -/
theorem DocumentNode.declares (wf : doc.WellFormed) (h : DocumentNode strict [] doc o) :
    Declares doc (signature? o.namespaces) := by
  rintro ⟨scope, name⟩ ps signature
  have hscope := (h.listed wf).2.get? scope
  rw [signature?, symbol?] at signature
  obtain ⟨symbol, hsymbol, same⟩ := Option.map_eq_some_iff.1 signature
  obtain ⟨ns, hns, hsymbol⟩ := Option.bind_eq_some_iff.1 hsymbol
  dsimp only at hns hsymbol
  rw [hns] at hscope
  generalize hn : Assoc.get? scope (doc.entry "namespaces").entries = node at hscope
  cases hscope with
  | @some node _ said =>
  rcases said with ⟨rfl, rfl⟩ | ⟨ms, es, es', rfl, hes, -, modules, -⟩
  · cases hsymbol
  have hname := modules.get? name
  rw [symbolIn?] at hsymbol
  cases hm : Assoc.get? name ns.modules with
  | none =>
    rw [hm] at hsymbol
    obtain ⟨g, -, rfl⟩ := Option.map_eq_some_iff.1 hsymbol
    cases same
  | some m =>
    rw [hm] at hsymbol hname
    cases hsymbol
    cases same
    generalize hv : Assoc.get? name es = v at hname
    cases hname with
    | @some v _ said =>
    obtain ⟨vs, rfl, -, -, params, -⟩ := said
    have scopeNode : (doc.entry "namespaces").entry scope = .object ms := by
      rw [Json.entry, hn]
      rfl
    have moduleNode : ((Json.object ms).entry "modules").entry name = .object vs := by
      rw [Json.entry, entries_of_optionally hes, hv]
      rfl
    rw [declaredParams]
    dsimp only
    rw [scopeNode, moduleNode]
    rcases entry_of_optionally params with ⟨null, empty⟩ | there
    · rw [null, Symbol.params, empty]
      rfl
    · rw [there]
      exact Assoc.keys_map (fun kind : ParamKind => Json.string kind.text) m.params

/-- What a document says is saved as the normal form of the document. -/
theorem DocumentNode.toJson_eq (wf : doc.WellFormed) (h : DocumentNode strict [] doc o) :
    o.toJson = normalForm doc := by
  obtain ⟨top, namespaces⟩ := h.listed wf
  have entries := namespaces.toJson_eq fun said => said.toJson_eq (h.declares wf)
  rw [Outline.toJson, normalForm, top, ← entries]
  rfl

/-- Every instance of the outline comes from a node of an instance. -/
theorem DocumentNode.exists_instanceNode (wf : doc.WellFormed) (h : DocumentNode strict [] doc o)
    {n : String × Outline.Namespace} (hn : n ∈ o.namespaces) {m : String × Outline.Module}
    (hm : m ∈ n.2.modules) {d : Outline.Definition} (hd : m.2.definition = some d)
    {i : String × Outline.Instance} (hi : i ∈ d.instances) :
    ∃ node, InstanceNode strict (signature? o.namespaces) node i.2 := by
  obtain ⟨_, -, -, said⟩ := exists_of_forall₂ (h.listed wf).2.flip hn
  rcases said with ⟨-, empty⟩ | ⟨ms, es, es', -, -, -, modules, -⟩
  · rw [empty] at hm
    cases hm
  obtain ⟨_, -, -, ⟨ns, -, -, -, -, -, body⟩⟩ := exists_of_forall₂ modules.flip hm
  unfold defined at body
  rw [hd] at body
  generalize optional ns "def" = v at body
  cases body with
  | some said =>
    obtain ⟨_, _, _, _, -, -, instances, -⟩ := said
    obtain ⟨e, -, -, -, said⟩ := exists_of_forall₂ instances.flip hi
    exact ⟨e.2, said⟩

theorem DocumentNode.modulesOnly (wf : doc.WellFormed) (h : DocumentNode strict [] doc o) :
    o.ModulesOnly := fun _ hn _ hm _ hd _ hi => by
  obtain ⟨_, _, _, _, -, -, -, kind, -⟩ := h.exists_instanceNode wf hn hm hd hi
  exact kind

/-- Arguments are read in the order of the parameters. -/
theorem DocumentNode.arranged (wf : doc.WellFormed) (h : DocumentNode strict [] doc o) :
    o.Arranged := fun _ hn _ hm _ hd _ hi kind ps signature => by
  obtain ⟨_, _, _, ps', -, -, signature', -, -, -, -, binds, -⟩ := h.exists_instanceNode wf hn hm hd hi
  cases signature'.symm.trans signature
  rw [← List.forall₂_eq_eq_eq]
  exact List.forall₂_map_left_iff.2 (List.forall₂_map_right_iff.2 (binds.flip.imp fun _ _ h => h.1))

end

end Plain

/-! ## Loading and saving -/

namespace Document

/-- What comes out of a load into an empty design was read plainly. -/
theorem documentNode_of_load {strict : Bool} {doc : Json} (wf : doc.WellFormed) {top : ModuleId}
    {warnings : List Diagnostic} {d : Design}
    (loaded : load strict doc .empty = .ok (top, warnings) d) :
    d.Sound ∧ ∃ o, d.outline? top = some o ∧ Plain.DocumentNode strict [] doc o := by
  cases read : Plain.read strict doc [] with
  | error e =>
    obtain ⟨d', failed⟩ := load_of_read_error Design.sound_empty Design.outlineNamespaces_empty wf read
    cases loaded.symm.trans failed
  | ok result =>
    obtain ⟨o, w⟩ := result
    obtain ⟨top', d', ran, sound, -, outline⟩ :=
      load_of_read_ok Design.sound_empty Design.outlineNamespaces_empty wf read
    cases loaded.symm.trans ran
    exact ⟨sound, o, outline, (Plain.read_eq_ok_iff wf (by exact List.nodup_nil)).1 ⟨_, read⟩⟩

/-- A document that loads into an empty design is saved as its normal form, which loads again
without a warning, strictly or not, as the same design, and is saved as it is. -/
theorem loaded_document_normalizes {strict : Bool} {doc : Json} (wf : doc.WellFormed)
    {top : ModuleId} {warnings : List Diagnostic} {d : Design}
    (loaded : load strict doc .empty = .ok (top, warnings) d) :
    d.document? top = some (normalForm doc) ∧
      ∀ strict', ∃ top' d', load strict' (normalForm doc) .empty = .ok (top', []) d' ∧
        d'.outline? top' = d.outline? top ∧ d'.document? top' = some (normalForm doc) := by
  obtain ⟨hd, o, outline, said⟩ := documentNode_of_load wf loaded
  have sound := hd.outline_sound outline (said.modulesOnly wf)
  have saved : ∀ {d : Design} {top : ModuleId}, d.outline? top = some o →
      d.document? top = some (normalForm doc) := fun h => by
    rw [Design.document?, h, ← said.toJson_eq wf]
    rfl
  refine ⟨saved outline, fun strict' => ?_⟩
  obtain ⟨top', d', again, -, outline'⟩ := load_toJson sound strict'
  rw [(said.arranged wf).arrange_eq sound] at outline'
  rw [said.toJson_eq wf] at again
  exact ⟨top', d', again, outline'.trans outline.symm, saved outline'⟩

/-- A document with an unknown member, members that are null or empty, an argument that nothing
asks for, and a connection that comes twice. -/
def untidyDocument : Json :=
  .object [
    ("namespaces", .object [
      ("none", .null),
      ("lib", .object [
        ("note", .bool true),
        ("modules", .object [
          ("leaf", .object [
            ("configparams", .object [("a", .string "Int"), ("b", .string "Int")]),
            ("metadata", .object []),
            ("type", .string "BitIn")]),
          ("main", .object [
            ("type", .string "Any"),
            ("def", .object [
              ("instances", .object [("i", .object [
                ("config", .object [("b", .int 2), ("c", .int 3), ("a", .int 1)]),
                ("instref", .array [.string "lib", .string "leaf"])])]),
              ("connections", .array [
                .array [.array [.string "self"], .array [.string "i"], .object [("x", .int 1)]],
                .array [.array [.string "i"], .array [.string "self"], .object [("x", .int 2)]]])])])])])]),
    ("top", .array [.string "lib", .string "main"])]

theorem untidy_document_normalizes : ∃ top warnings d,
    load false untidyDocument .empty = .ok (top, warnings) d ∧
      d.document? top = some (normalForm untidyDocument) ∧
      ∀ strict', ∃ top' d', load strict' (normalForm untidyDocument) .empty = .ok (top', []) d' ∧
        d'.outline? top' = d.outline? top ∧
        d'.document? top' = some (normalForm untidyDocument) := by
  have accepted : (match load false untidyDocument .empty with
      | .ok _ _ => true
      | .error _ _ => false) = true := by decide +kernel
  split at accepted
  · rename_i answer d loaded
    exact ⟨answer.1, answer.2, d, loaded, loaded_document_normalizes (by decide +kernel) loaded⟩
  · cases accepted

example : normalForm untidyDocument = .object [
    ("top", .array [.string "lib", .string "main"]),
    ("namespaces", .object [
      ("none", .object []),
      ("lib", .object [
        ("modules", .object [
          ("leaf", .object [
            ("type", .string "BitIn"),
            ("configparams", .object [("a", .string "Int"), ("b", .string "Int")])]),
          ("main", .object [
            ("type", .string "Any"),
            ("def", .object [
              ("instances", .object [("i", .object [
                ("instref", .array [.string "lib", .string "leaf"]),
                ("config", .object [("a", .int 1), ("b", .int 2)])])]),
              ("connections", .array [
                .array [.array [.string "self"], .array [.string "i"],
                  .object [("x", .int 2)]]])])])])])])] := by
  rfl

end Document

end Netlist
