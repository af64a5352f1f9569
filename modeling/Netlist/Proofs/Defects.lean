-- What errors of a load tell of. Each kind of error names a defect of the document, which is
-- described by the shape and the references of the document alone. One lemma for each reader
-- finds the defect behind whatever error the reader stops at.
import Netlist.Proofs.Accepted
import Netlist.Proofs.Nodes.Errors

namespace Netlist

namespace Document

open Json (Optional)
open Plain (Scopes scopeOf)

/-! ## What a document lists -/

/-- The member of a namespace that lists what is of this kind. -/
def listKey : TargetKind → String
  | .module => "modules"
  | .generator => "generators"

/-- The members that declare parameters. -/
def paramKeys : TargetKind → List String
  | .module => ["configparams"]
  | .generator => ["genparams", "configparams"]

/-- A document that has this node for something of this kind. -/
def HasNode (doc : Json) (kind : TargetKind) (scope name : String) (node : Json) : Prop :=
  Assoc.get? name (((doc.entry "namespaces").entry scope).entry (listKey kind)).entries =
    some node

/-- The node of an instance, in the definition of a module that the document lists. -/
def HasInstance (doc node : Json) : Prop :=
  ∃ scope name module i, HasNode doc .module scope name module ∧
    (i, node) ∈ ((module.entry "def").entry "instances").entries

/-- Names that stand for something of this kind with these parameters, which is either there
already or one that the document itself listed. -/
def StandsFor (scopes : Scopes) (doc : Json) (scope name : String) :
    TargetKind → List (String × ParamKind) → Prop
  | .module, params => Refers scopes doc scope name params
  | .generator, params =>
    (∃ g, Assoc.get? name (scopeOf scopes scope).generators = some g ∧ params = g.params) ∨
      ∃ node, HasNode doc .generator scope name node ∧ params = declared node

/-- Names that stand for nothing. -/
def Unresolved (scopes : Scopes) (doc : Json) (scope name : String) : Prop :=
  ∀ kind params, ¬ StandsFor scopes doc scope name kind params

/-- A name that the document listed although it is taken, or listed as a module and as a
generator. -/
def DeclaredTwice (scopes : Scopes) (doc : Json) (scope name : String) : Prop :=
  (∃ kind node, HasNode doc kind scope name node ∧ name ∈ (scopeOf scopes scope).names) ∨
    ∃ node node', HasNode doc .module scope name node ∧ HasNode doc .generator scope name node'

/-! ## Defects -/

/-- What is wrong with a document, if this is the error of its load. -/
inductive Defect (strict : Bool) (scopes : Scopes) (doc : Json) : LoadError → Prop
  /-- The type of a module is given, and it is no node of a type. -/
  | type {scope name : String} {node v : Json} (text : String)
    (listed : HasNode doc .module scope name node)
    (given : Assoc.get? "type" node.entries = some v) (invalid : ¬ ValidType v) :
    Defect strict scopes doc (.type text)
  | param {kind : TargetKind} {scope name key : String} {node : Json} (text : String)
    (listed : HasNode doc kind scope name node) (asked : key ∈ paramKeys kind)
    (invalid : ¬ Optional ValidParams node key) : Defect strict scopes doc (.param text)
  /-- An instance of something that is there, with arguments that do not fit its parameters, or
  in a strict load with an argument for no parameter. -/
  | arg {scope name : String} {kind : TargetKind} {params : List (String × ParamKind)}
    {node : Json} (text : String) (listed : HasInstance doc node)
    (ref : node.entry "instref" = .array [.string scope, .string name])
    (target : StandsFor scopes doc scope name kind params)
    (misfit : ¬ Fits params (node.entry "config") ∨
      strict = true ∧ ∃ key, Undeclared params (node.entry "config") key) :
    Defect strict scopes doc (.arg text)
  | notImplemented {scope name : String} {params : List (String × ParamKind)} {node : Json}
    (text : String) (listed : HasInstance doc node)
    (genargs : (Assoc.get? "genargs" node.entries).isSome)
    (ref : node.entry "instref" = .array [.string scope, .string name])
    (target : StandsFor scopes doc scope name .generator params)
    (fits : Fits params (node.entry "config"))
    (known : strict = true → ∀ key, ¬ Undeclared params (node.entry "config") key) :
    Defect strict scopes doc (.notImplemented text)
  | declaredTwice {scope name : String} (twice : DeclaredTwice scopes doc scope name) :
    Defect strict scopes doc (.symbol (GraphError.duplicateSymbol scope name).message)
  | missingTarget {scope name : String} {node : Json} (listed : HasInstance doc node)
    (ref : node.entry "instref" = .array [.string scope, .string name])
    (nothing : Unresolved scopes doc scope name) :
    Defect strict scopes doc (.symbol (GraphError.missingSymbol scope name).message)
  | missingTop {scope name : String}
    (top : doc.entry "top" = .array [.string scope, .string name])
    (nothing : Unresolved scopes doc scope name) :
    Defect strict scopes doc (.symbol (GraphError.missingSymbol scope name).message)
  /-- Everything else, which is about the shape of the document. -/
  | structural (text : String) : Defect strict scopes doc (.structural text)

end Document

open Document

/-! ## What names stand for in the second pass -/

namespace Plain

open LoadError (Of)

/-- Signatures that tell of each name what it stands for. -/
structure Tells (scopes : Scopes) (doc : Json) (env : Signatures) : Prop where
  target : ∀ {scope name kind params}, env (scope, name) = some (kind, params) →
    StandsFor scopes doc scope name kind params
  unresolved : ∀ {scope name}, env (scope, name) = none → Unresolved scopes doc scope name

section

variable {scopes nss : Scopes} {nodes : List (String × Json)} {body : Body} {doc : Json}

/-- What the generators of a namespace are, when everything is declared. -/
theorem standsFor_generator_iff (listed : doc.entry "namespaces" = .object nodes)
    (said : Entries (NamespaceNode body) nodes nss) (different : (Assoc.keys nss).Nodup)
    (fresh : ∀ n ∈ nss, (scopeOf scopes n.1).Fresh n.2) {scope name : String}
    {params : List (String × ParamKind)} : StandsFor scopes doc scope name .generator params ↔
      ∃ g, Assoc.get? name (scopeOf (extend scopes nss) scope).generators = some g ∧
        params = g.params := by
  unfold StandsFor HasNode
  rw [scopeOf_extend different, listed]
  refine (refers_append_iff (R := GeneratorNode) (fun _ _ => GeneratorNode.declared_eq)
    ((entries_scopeOf said scope).2.get? name) ?_).symm
  exact fun new old => (fresh_scopeOf fresh scope).2 name (List.mem_append_right _ new)
    (List.mem_append_right _ old)

theorem tells_extend (listed : doc.entry "namespaces" = .object nodes)
    (said : Entries (NamespaceNode body) nodes nss) (different : (Assoc.keys nss).Nodup)
    (fresh : ∀ n ∈ nss, (scopeOf scopes n.1).Fresh n.2) :
    Tells scopes doc (signature? (extend scopes nss)) := by
  have knows := knows_extend listed said different fresh
  have generators {scope name : String} {params : List (String × ParamKind)} :=
    @standsFor_generator_iff scopes nss nodes body doc listed said different fresh scope name params
  refine ⟨fun {scope name kind params} h => ?_, fun {scope name} h kind params stands => ?_⟩
  · cases kind with
    | module => exact (knows scope name params).1 h
    | generator =>
      exact generators.2 (signature?_eq_generator_iff.1 h).2
  · cases kind with
    | module =>
      rw [(knows scope name params).2 stands] at h
      cases h
    | generator =>
      have listed := generators.1 stands
      cases hm : Assoc.get? name (scopeOf (extend scopes nss) scope).modules with
      | some m => cases h.symm.trans (signature?_eq_module_iff.2 ⟨m, hm, rfl⟩)
      | none => cases h.symm.trans (signature?_eq_generator_iff.2 ⟨hm, listed⟩)

end

/-! ## Declarations -/

section

variable {strict : Bool} {scopes : Scopes} {doc : Json}

/-- A structural error needs no other defect. -/
theorem OnlyFails.structural {α : Type} {x : Reading α} (h : OnlyFails (Of .structural) x) :
    OnlyFails (Defect strict scopes doc) x := by
  refine h.mono ?_
  rintro _ ⟨text, rfl⟩
  exact .structural text

theorem requireFree_fails {ns : Outline.Namespace} {scope name : String}
    (twice : name ∈ ns.names → DeclaredTwice scopes doc scope name) :
    OnlyFails (Defect strict scopes doc) (requireFree ns scope name) := by
  unfold requireFree
  split
  · rename_i taken
    exact .throw (.declaredTwice (twice (List.mem_append.2 taken)))
  · exact .pure _

/-- Parameters in the node of a declaration. -/
theorem readParams?_defect {kind : TargetKind} {scope name key : String}
    {ms : List (String × Json)} (listed : HasNode doc kind scope name (.object ms))
    (asked : key ∈ paramKeys kind) (wf : (Json.object ms).WellFormed) :
    OnlyFails (Defect strict scopes doc) (readParams? ms key) := by
  refine (readParams?_fails wf).mono ?_
  rintro _ ⟨⟨text, rfl⟩, invalid⟩
  exact .param text listed asked invalid

theorem declareModule_fails {scope name : String} {node : Json} {ns : Outline.Namespace}
    (listed : HasNode doc .module scope name node) (wf : node.WellFormed)
    (twice : name ∈ ns.names → DeclaredTwice scopes doc scope name) :
    OnlyFails (Defect strict scopes doc) (declareModule scope name node ns) := by
  refine members_fails.structural.bind fun ms hms => ?_
  obtain rfl := members_eq_ok hms
  refine required_fails.structural.bind fun v hv => ?_
  refine (readType_fails.mono ?_).bind fun _ _ => ?_
  · rintro _ ⟨⟨text, rfl⟩, invalid⟩
    exact .type text listed (required_eq_ok_iff.1 hv) invalid
  refine (readParams?_defect listed (by decide) wf).bind fun _ _ => ?_
  refine (requireFree_fails twice).bind fun _ _ => ?_
  exact readMetadata?_fails.structural.bind fun _ _ => .pure _

theorem declareGenerator_fails {scope name : String} {node : Json} {ns : Outline.Namespace}
    (listed : HasNode doc .generator scope name node) (wf : node.WellFormed)
    (twice : name ∈ ns.names → DeclaredTwice scopes doc scope name) :
    OnlyFails (Defect strict scopes doc) (declareGenerator scope name node ns) := by
  refine members_fails.structural.bind fun ms hms => ?_
  obtain rfl := members_eq_ok hms
  refine (readParams?_defect listed (by decide) wf).bind fun _ _ => ?_
  refine (readParams?_defect listed (by decide) wf).bind fun _ _ => ?_
  refine (requireFree_fails twice).bind fun _ _ => ?_
  exact readMetadata?_fails.structural.bind fun _ _ => .pure _

theorem mem_names_of_ne {ns more : Outline.Namespace} {name k : String} (only : more.names = [name])
    (other : k ≠ name) (h : k ∈ (ns.append more).names) : k ∈ ns.names := by
  rw [Outline.Namespace.mem_names_append, only, List.mem_singleton] at h
  exact h.resolve_right other

/-- Modules that are declared one after another. What was declared before has other names, so
only the old names and the other kind can take a name. -/
theorem declareModules_fails {scope : String} {ms : List (String × Json)} {ns : Outline.Namespace}
    (listed : ∀ m ∈ ms, HasNode doc .module scope m.1 m.2) (wf : (Json.object ms).WellFormed)
    (twice : ∀ m ∈ ms, m.1 ∈ ns.names → DeclaredTwice scopes doc scope m.1) :
    OnlyFails (Defect strict scopes doc) (declareModules scope ms ns) := by
  rw [Json.wellFormed_object_iff] at wf
  induction ms generalizing ns with
  | nil => exact .pure _
  | cons m rest ih =>
    obtain ⟨name, node⟩ := m
    rw [List.map_cons, List.nodup_cons, List.forall_mem_cons] at wf
    rw [List.forall_mem_cons] at listed twice
    obtain ⟨⟨new, nodup⟩, wf, others⟩ := wf
    refine (declareModule_fails listed.1 wf twice.1).bind fun r hr => ?_
    refine (ih listed.2 ⟨nodup, others⟩ fun m hm taken => ?_).bind fun _ _ => .pure _
    obtain ⟨x, -, -, same, -⟩ := (declareModule_eq_ok_iff wf).1 hr
    rw [same] at taken
    refine twice.2 m hm (mem_names_of_ne rfl (fun same => ?_) taken)
    exact new (List.mem_map.2 ⟨m, hm, same⟩)

theorem declareGenerators_fails {scope : String} {ms : List (String × Json)}
    {ns : Outline.Namespace} (listed : ∀ m ∈ ms, HasNode doc .generator scope m.1 m.2)
    (wf : (Json.object ms).WellFormed)
    (twice : ∀ m ∈ ms, m.1 ∈ ns.names → DeclaredTwice scopes doc scope m.1) :
    OnlyFails (Defect strict scopes doc) (declareGenerators scope ms ns) := by
  rw [Json.wellFormed_object_iff] at wf
  induction ms generalizing ns with
  | nil => exact .pure _
  | cons m rest ih =>
    obtain ⟨name, node⟩ := m
    rw [List.map_cons, List.nodup_cons, List.forall_mem_cons] at wf
    rw [List.forall_mem_cons] at listed twice
    obtain ⟨⟨new, nodup⟩, wf, others⟩ := wf
    refine (declareGenerator_fails listed.1 wf twice.1).bind fun r hr => ?_
    refine ih listed.2 ⟨nodup, others⟩ fun m hm taken => ?_
    obtain ⟨x, -, -, same⟩ := (declareGenerator_eq_ok_iff wf).1 hr
    rw [same] at taken
    refine twice.2 m hm (mem_names_of_ne rfl (fun same => ?_) taken)
    exact new (List.mem_map.2 ⟨m, hm, same⟩)

/-! ## Namespaces -/

theorem entry_of_mem {node : Json} (wf : node.WellFormed) {m : String × Json}
    (hm : m ∈ node.entries) : node.entry m.1 = m.2 := by
  have nodup : (Assoc.keys node.entries).Nodup := nodup_entries wf
  rw [Json.entry, (Assoc.get?_eq_some_iff nodup).2 hm]
  rfl

/-- What the node of a namespace of a document lists. -/
theorem hasNode_of_mem (kind : TargetKind) {node : Json} {scope : String}
    (here : (doc.entry "namespaces").entry scope = node) (wf : node.WellFormed)
    {m : String × Json} (hm : m ∈ (node.entry (listKey kind)).entries) :
    HasNode doc kind scope m.1 m.2 := by
  rw [HasNode, here]
  exact (Assoc.get?_eq_some_iff (nodup_entries (wellFormed_entry wf _))).2 hm

/-- The members that are read where a namespace lists what is of one kind. -/
theorem hasNode_of_members (kind : TargetKind) {scope what : String}
    {ms es : List (String × Json)} {v : Json}
    (here : (doc.entry "namespaces").entry scope = .object ms)
    (wf : (Json.object ms).WellFormed) (hv : optional ms (listKey kind) = some v)
    (hes : members v what = .ok es) :
    (Json.object es).WellFormed ∧ ∀ m ∈ es, HasNode doc kind scope m.1 m.2 := by
  have same := (entry_of_optional hv).trans (members_eq_ok hes)
  refine ⟨same ▸ wellFormed_entry wf (listKey kind), fun m hm => ?_⟩
  exact hasNode_of_mem kind here wf (by rw [same]; exact hm)

theorem declareModulesOf_fails {scope : String} {ms : List (String × Json)}
    {ns : Outline.Namespace} (here : (doc.entry "namespaces").entry scope = .object ms)
    (wf : (Json.object ms).WellFormed) (old : ns = scopeOf scopes scope) :
    OnlyFails (Defect strict scopes doc) (declareModulesOf scope ms ns) := by
  unfold declareModulesOf
  split
  · rename_i v hv
    refine members_fails.structural.bind fun es hes => ?_
    obtain ⟨wfs, listed⟩ := hasNode_of_members .module here wf hv hes
    refine declareModules_fails listed wfs fun m hm taken => ?_
    exact Or.inl ⟨.module, m.2, listed m hm, old ▸ taken⟩
  · exact .pure _

/-- After the modules of a namespace, a generator can have the name of one of them. -/
theorem declareGeneratorsOf_fails {scope : String} {ms es : List (String × Json)}
    {xs : List (String × Outline.Module)}
    (here : (doc.entry "namespaces").entry scope = .object ms) (wf : (Json.object ms).WellFormed)
    (modules : Optionally ms "modules" .object [] es) (said : Entries (ModuleNode unread) es xs) :
    OnlyFails (Defect strict scopes doc)
      (declareGeneratorsOf scope ms ((scopeOf scopes scope).append ⟨xs, []⟩)) := by
  unfold declareGeneratorsOf
  split
  · rename_i v hv
    refine members_fails.structural.bind fun gs hgs => ?_
    obtain ⟨wfs, listed⟩ := hasNode_of_members .generator here wf hv hgs
    refine declareGenerators_fails listed wfs fun m hm taken => ?_
    rcases Outline.Namespace.mem_names_append.1 taken with taken | taken
    · exact Or.inl ⟨.generator, m.2, listed m hm, taken⟩
    · have module : m.1 ∈ Assoc.keys es := by
        rw [← said.keys]
        simpa [Outline.Namespace.names] using taken
      obtain ⟨e, he, name⟩ := List.mem_map.1 module
      have first := hasNode_of_mem .module here wf
        (by rw [listKey, entries_of_optionally modules]; exact he)
      exact Or.inr ⟨e.2, m.2, name ▸ first, listed m hm⟩
  · exact .pure _

theorem declareNamespace_fails {scope : String} {node : Json} {ns : Outline.Namespace}
    (here : (doc.entry "namespaces").entry scope = node) (wf : node.WellFormed)
    (old : ns = scopeOf scopes scope) :
    OnlyFails (Defect strict scopes doc) (declareNamespace scope node ns) := by
  unfold declareNamespace
  split
  · exact .pure _
  refine members_fails.structural.bind fun ms hms => ?_
  obtain rfl := members_eq_ok hms
  refine (declareModulesOf_fails here wf old).bind fun r hr => ?_
  obtain ⟨es, xs, modules, said, -, same, -⟩ := (declareModulesOf_eq_ok_iff wf).1 hr
  refine OnlyFails.bind ?_ fun _ _ => .pure _
  rw [same, old]
  exact declareGeneratorsOf_fails here wf modules said

theorem declareNamespaces_fails {nodes : List (String × Json)} {now : Scopes}
    (here : ∀ n ∈ nodes, (doc.entry "namespaces").entry n.1 = n.2)
    (wf : (Json.object nodes).WellFormed)
    (old : ∀ n ∈ nodes, scopeOf now n.1 = scopeOf scopes n.1) :
    OnlyFails (Defect strict scopes doc) (declareNamespaces nodes now) := by
  rw [Json.wellFormed_object_iff] at wf
  induction nodes generalizing now with
  | nil => exact .pure _
  | cons n rest ih =>
    obtain ⟨name, node⟩ := n
    rw [List.map_cons, List.nodup_cons, List.forall_mem_cons] at wf
    rw [List.forall_mem_cons] at here old
    obtain ⟨⟨new, nodup⟩, wf, others⟩ := wf
    refine (declareNamespace_fails here.1 wf old.1).bind fun r _ => ?_
    refine (ih here.2 ⟨nodup, others⟩ fun n hn => ?_).bind fun _ _ => .pure _
    have other : name ≠ n.1 := fun same => new (List.mem_map.2 ⟨n, hn, same.symm⟩)
    rw [scopeOf, Assoc.get?_set, if_neg other]
    exact old.2 n hn

/-! ## Definitions -/

theorem requireSymbol_fails {now : Scopes} {scope name : String}
    (missing : symbol? now scope name = none →
      Defect strict scopes doc (.symbol (GraphError.missingSymbol scope name).message)) :
    OnlyFails (Defect strict scopes doc) (requireSymbol now scope name) := by
  unfold requireSymbol
  split
  · exact .pure _
  · rename_i h
    exact .throw (missing h)

theorem signature?_of_symbol? {now : Scopes} {scope name : String} {s : Symbol}
    (h : symbol? now scope name = some s) :
    signature? now (scope, name) = some (s.kind, s.params) := by
  rw [signature?, h]
  rfl

theorem readInstance_fails {now : Scopes} (tells : Tells scopes doc (signature? now))
    {owner name : String} {node : Json} (listed : HasInstance doc node)
    {before : List (String × Outline.Instance)} :
    OnlyFails (Defect strict scopes doc) (readInstance strict now owner name node before) := by
  refine members_fails.structural.bind fun ms hms => ?_
  obtain rfl := members_eq_ok hms
  refine required_fails.structural.bind fun v hv => ?_
  refine symbolPair_fails.structural.bind fun pair hpair => ?_
  obtain ⟨scope, ref⟩ := pair
  have named : (Json.object ms).entry "instref" = .array [.string scope, .string ref] := by
    rw [entry_object, required_eq_ok_iff.1 hv, symbolPair_eq_ok_iff.1 hpair]
    rfl
  refine (requireSymbol_fails fun h => ?_).bind fun s hs => ?_
  · exact .missingTarget listed named (tells.unresolved (by rw [signature?, h]; rfl))
  have target := tells.target (signature?_of_symbol? (requireSymbol_eq_ok_iff.1 hs))
  refine (readArgs_fails.mono ?_).bind fun r hr => ?_
  · rintro _ ⟨⟨text, rfl⟩, misfit⟩
    exact .arg text listed named target misfit
  obtain ⟨fits, known⟩ := exists_readArgs_iff.1 ⟨r, hr⟩
  refine OnlyFails.bind ?_ fun _ _ => requireNew_fails.structural.bind fun _ _ =>
    readMetadata?_fails.structural.bind fun _ _ => .pure _
  unfold requireModule
  split
  · exact .pure _
  · exact .throw (.structural _)
  · rename_i kind genargs
    rw [kind] at target
    exact .throw (.notImplemented _ listed genargs named target fits known)
  · exact .throw (.structural _)

theorem readInstances_fails {now : Scopes} (tells : Tells scopes doc (signature? now))
    {owner : String} {ms : List (String × Json)} (listed : ∀ m ∈ ms, HasInstance doc m.2)
    (before : List (String × Outline.Instance)) :
    OnlyFails (Defect strict scopes doc) (readInstances strict now owner ms before) := by
  induction ms generalizing before with
  | nil => exact .pure _
  | cons m rest ih =>
    rw [List.forall_mem_cons] at listed
    exact (readInstance_fails tells listed.1).bind fun r _ =>
      (ih listed.2 r.1).bind fun _ _ => .pure _

/-- A pending definition is that of a module that the document lists. -/
def InDocument (doc : Json) (p : Pending) : Prop :=
  ∃ module, HasNode doc .module p.scope p.name module ∧ module.entry "def" = p.node

theorem readDefinition_fails {now : Scopes} (tells : Tells scopes doc (signature? now))
    {p : Pending} (here : InDocument doc p) :
    OnlyFails (Defect strict scopes doc) (readDefinition strict now p) := by
  obtain ⟨module, listed, same⟩ := here
  refine members_fails.structural.bind fun ms hms => ?_
  refine OnlyFails.bind ?_ fun r _ => readConnectionsOf_fails.structural.bind fun _ _ =>
    readMetadata?_fails.structural.bind fun _ _ =>
      readMetadata?_fails.structural.bind fun _ _ => .pure _
  unfold readInstancesOf
  split
  · rename_i v hv
    refine members_fails.structural.bind fun es hes => ?_
    refine readInstances_fails tells (fun m hm => ?_) []
    refine ⟨p.scope, p.name, module, m.1, listed, ?_⟩
    rw [same, members_eq_ok hms, entry_of_optional hv, members_eq_ok hes]
    exact hm
  · exact .pure _

theorem readDefinitions_fails {now : Scopes} (tells : Tells scopes doc (signature? now))
    {ps : List Pending} (here : ∀ p ∈ ps, InDocument doc p) :
    OnlyFails (Defect strict scopes doc) (readDefinitions strict now ps) := by
  induction ps with
  | nil => exact .pure _
  | cons p rest ih =>
    rw [List.forall_mem_cons] at here
    exact (readDefinition_fails tells here.1).bind fun _ _ =>
      (ih here.2).bind fun _ _ => .pure _

/-! ## The document -/

theorem inDocument_of_pendingNodes {nodes : List (String × Json)}
    (listed : doc.entry "namespaces" = .object nodes) (wf : (Json.object nodes).WellFormed) :
    ∀ p ∈ pendingNodes nodes, InDocument doc p := by
  intro p hp
  obtain ⟨n, hn, m, hm, rfl, -⟩ := exists_of_mem_pendingNodes hp
  have here : (doc.entry "namespaces").entry n.1 = n.2 := listed ▸ entry_of_mem wf hn
  exact ⟨m.2, hasNode_of_mem .module here (wellFormed_entries wf hn) hm, rfl⟩

theorem requireTop_fails {now : Scopes} (tells : Tells scopes doc (signature? now))
    {scope name : String} (top : doc.entry "top" = .array [.string scope, .string name]) :
    OnlyFails (Defect strict scopes doc) (requireTop now scope name) := by
  refine (requireSymbol_fails fun h => ?_).bind fun s _ => ?_
  · exact .missingTop top (tells.unresolved (by rw [signature?, h]; rfl))
  · split
    · exact .pure _
    · exact .throw (.structural _)

/-- Whatever error a reading stops at, the document has the defect that the error tells of. -/
theorem read_fails (wf : doc.WellFormed) :
    OnlyFails (Defect strict scopes doc) (read strict doc scopes) := by
  refine members_fails.structural.bind fun ms hms => ?_
  obtain rfl := members_eq_ok hms
  refine required_fails.structural.bind fun v hv => ?_
  refine symbolPair_fails.structural.bind fun pair hpair => ?_
  refine required_fails.structural.bind fun w hw => ?_
  refine members_fails.structural.bind fun nodes hnodes => ?_
  obtain ⟨scope, name⟩ := pair
  have top : (Json.object ms).entry "top" = .array [.string scope, .string name] := by
    rw [entry_object, required_eq_ok_iff.1 hv, symbolPair_eq_ok_iff.1 hpair]
    rfl
  have listed : (Json.object ms).entry "namespaces" = .object nodes := by
    rw [entry_object, required_eq_ok_iff.1 hw, members_eq_ok hnodes]
    rfl
  have wfNodes : (Json.object nodes).WellFormed := listed ▸ wellFormed_entry wf "namespaces"
  refine (declareNamespaces_fails ?_ wfNodes fun _ _ => rfl).bind fun r hr => ?_
  · rw [listed]
    exact fun n hn => entry_of_mem wfNodes hn
  obtain ⟨now, pending⟩ := r
  obtain ⟨nss, said, fresh, rfl, rfl⟩ := (declareNamespaces_eq_ok_iff wfNodes).1 hr
  have different : (Assoc.keys nss).Nodup :=
    said.keys ▸ (Json.wellFormed_object_iff.1 wfNodes).1
  have tells := tells_extend listed said different fresh
  have here := inDocument_of_pendingNodes listed wfNodes
  refine (readDefinitions_fails tells here).bind fun _ _ => ?_
  exact (requireTop_fails tells top).bind fun _ _ => .pure _

end

end Plain

end Netlist
