-- Valid documents, described by their shape and their references alone, without any order
-- in which they would be checked. Nodes are valid if they say something.
import Netlist.Proofs.Live
import Netlist.Proofs.NormalForm

namespace Netlist

/-! ## Shapes -/

namespace Json

def IsObject (v : Json) : Prop := ∃ ms, v = .object ms

def IsArray (v : Json) : Prop := ∃ items, v = .array items

/-- A member that is absent or null, or else is as it should be. -/
def Optional (shape : Json → Prop) (node : Json) (key : String) : Prop :=
  node.entry key = .null ∨ shape (node.entry key)

end Json

namespace Document

open Json (IsObject IsArray Optional)
open Plain (Scopes scopeOf)

/-! ## Types and parameters -/

/-- The node of a type. A record has no field twice. -/
inductive ValidType : Json → Prop
  | any : ValidType (.string "Any")
  | bitIn : ValidType (.string "BitIn")
  | bitOut : ValidType (.string "BitOut")
  | array {length : Nat} {element : Json} (fits : length < UInt32.size)
    (valid : ValidType element) : ValidType (.array [.string "Array", .nat length, element])
  | record {fields : List (String × Json)} (nodup : (Assoc.keys fields).Nodup)
    (valid : ∀ f ∈ fields, ValidType f.2) :
    ValidType (.array [.string "Record", .array (fields.map fun f => .array [.string f.1, f.2])])

/-- Declarations of parameters: an object of the names of kinds. -/
def ValidParams (node : Json) : Prop :=
  ∃ ms, node = .object ms ∧
    ∀ m ∈ ms, m.2 = .string "Int" ∨ m.2 = .string "String" ∨ m.2 = .string "Type"

/-- The node of an argument for a parameter of this kind. -/
def ValidArg : ParamKind → Json → Prop
  | .int, node => ∃ i, node = .int i ∧ Json.fitsInt64 i = true
  | .string, node => ∃ s, node = .string s
  | .type, node => ValidType node

/-! ## References -/

/-- The parameters that the node of a module declares. -/
def declared (node : Json) : List (String × ParamKind) :=
  (node.entry "configparams").entries.filterMap fun m =>
    (m.2.asString?.bind ParamKind.ofText?).map (m.1, ·)

/-- Names that refer to a module with these parameters, which is either there already or one
that the document itself declares. -/
def Refers (scopes : Scopes) (doc : Json) (scope name : String)
    (params : List (String × ParamKind)) : Prop :=
  (∃ m, Assoc.get? name (scopeOf scopes scope).modules = some m ∧ params = m.params) ∨
    ∃ node, Assoc.get? name (((doc.entry "namespaces").entry scope).entry "modules").entries =
      some node ∧ params = declared node

/-! ## Definitions -/

section

variable (strict : Bool) (scopes : Scopes) (doc : Json)

/-- The node of an instance of a module. It binds every parameter of the module, and if it is
read strictly then nothing else. -/
structure ValidInstance (node : Json) : Prop where
  object : node.IsObject
  target : ∃ scope name params,
    node.entry "instref" = .array [.string scope, .string name] ∧
    Refers scopes doc scope name params ∧
    (∀ p ∈ params, ∃ v, Assoc.get? p.1 (node.entry "config").entries = some v ∧ ValidArg p.2 v) ∧
    (strict = true → ∀ key ∈ Assoc.keys (node.entry "config").entries, key ∈ Assoc.keys params)
  config : Optional IsObject node "config"
  genargs : Assoc.get? "genargs" node.entries = none
  metadata : Optional IsObject node "metadata"

/-- The node of a wire path that begins at one of these instances, or at the module itself. -/
def ValidPath (instances : List String) (node : Json) : Prop :=
  ∃ (root : String) (selectors : List String),
    node = .array (.string root :: selectors.map .string) ∧ root ≠ "" ∧
      (root = "self" ∨ root ∈ instances)

/-- The node of a connection: two paths, and metadata that may be left out. -/
def ValidConnection (instances : List String) (node : Json) : Prop :=
  ∃ a b, ValidPath instances a ∧ ValidPath instances b ∧
    (node = .array [a, b] ∨ ∃ metadata, node = .array [a, b, metadata] ∧
      (metadata = .null ∨ metadata.IsObject))

structure ValidDefinition (node : Json) : Prop where
  object : node.IsObject
  instances : Optional IsObject node "instances"
  named : ∀ e ∈ (node.entry "instances").entries, e.1 ≠ "self"
  instances_valid : ∀ e ∈ (node.entry "instances").entries, ValidInstance strict scopes doc e.2
  connections : Optional IsArray node "connections"
  connections_valid : ∀ c ∈ (node.entry "connections").elements,
    ValidConnection (Assoc.keys (node.entry "instances").entries) c
  implementations : Optional IsObject node "implementations"
  metadata : Optional IsObject node "metadata"

/-! ## Declarations -/

/-- The node of a module up to its definition. -/
structure ValidInterface (node : Json) : Prop where
  object : node.IsObject
  type : ValidType (node.entry "type")
  configparams : Optional ValidParams node "configparams"
  metadata : Optional IsObject node "metadata"

structure ValidModule (node : Json) : Prop extends ValidInterface node where
  definition : Optional (ValidDefinition strict scopes doc) node "def"

structure ValidGenerator (node : Json) : Prop where
  object : node.IsObject
  genparams : Optional ValidParams node "genparams"
  configparams : Optional ValidParams node "configparams"
  metadata : Optional IsObject node "metadata"

/-- The node of a namespace of such modules. What it declares is new in the namespace, and no
module in it is called like a generator. -/
structure ValidNamespace (module : Json → Prop) (scope : String) (node : Json) : Prop where
  object : node = .null ∨ node.IsObject
  modules : Optional IsObject node "modules"
  generators : Optional IsObject node "generators"
  modules_valid : ∀ e ∈ (node.entry "modules").entries, module e.2
  generators_valid : ∀ e ∈ (node.entry "generators").entries, ValidGenerator e.2
  modules_new : ∀ e ∈ (node.entry "modules").entries, e.1 ∉ (scopeOf scopes scope).names
  generators_new : ∀ e ∈ (node.entry "generators").entries, e.1 ∉ (scopeOf scopes scope).names
  apart : ∀ e ∈ (node.entry "modules").entries,
    e.1 ∉ Assoc.keys (node.entry "generators").entries

end

/-- A document that is valid for a design in which there are these namespaces. -/
structure Valid (strict : Bool) (scopes : Scopes) (doc : Json) : Prop where
  object : doc.IsObject
  top : ∃ scope name params, doc.entry "top" = .array [.string scope, .string name] ∧
    Refers scopes doc scope name params
  namespaces : (doc.entry "namespaces").IsObject
  namespaces_valid : ∀ n ∈ (doc.entry "namespaces").entries,
    ValidNamespace scopes (ValidModule strict scopes doc) n.1 n.2

/-! ## Valid values say something -/

mutual

theorem validType_toJson : ∀ {t : TypeTree String}, t.Sound → ValidType t.toJson
  | .any, _ => .any
  | .bitIn, _ => .bitIn
  | .bitOut, _ => .bitOut
  | .array _ _, h => .array h.1 (validType_toJson h.2)
  | .record ts, h => by
    have valid := @ValidType.record (ts.map fun f => (f.1, f.2.toJson))
      (by rw [Assoc.keys_map]; exact h.1) fun f hf => by
        obtain ⟨g, hg, rfl⟩ := List.mem_map.1 hf
        exact validType_fields h.2 g hg
    rw [TypeTree.toJson, TypeTree.fieldsToJson_eq]
    rwa [List.map_map] at valid

theorem validType_fields : ∀ {ts : List (String × TypeTree String)}, TypeTree.SoundFields ts →
    ∀ f ∈ ts, ValidType f.2.toJson
  | (_, _) :: _, h, _, hf => by
    rcases List.mem_cons.1 hf with rfl | hf
    · exact validType_toJson h.1
    · exact validType_fields h.2 _ hf

end

theorem validType_iff {node : Json} :
    ValidType node ↔ ∃ t : TypeTree String, t.Sound ∧ node = t.toJson := by
  constructor
  · intro h
    induction h with
    | any => exact ⟨.any, trivial, rfl⟩
    | bitIn => exact ⟨.bitIn, trivial, rfl⟩
    | bitOut => exact ⟨.bitOut, trivial, rfl⟩
    | @array n _ fits _ ih =>
      obtain ⟨t, sound, rfl⟩ := ih
      exact ⟨.array n t, ⟨fits, sound⟩, rfl⟩
    | @record fields nodup _ ih =>
      have trees : ∃ ts : List (String × TypeTree String), List.Forall₂
          (fun f t => t.1 = f.1 ∧ t.2.Sound ∧ f.2 = t.2.toJson) fields ts :=
        exists_forall₂ fun f hf => by
          obtain ⟨t, sound, same⟩ := ih f hf
          exact ⟨(f.1, t), rfl, sound, same⟩
      obtain ⟨ts, hts⟩ := trees
      have keys : Assoc.keys ts = Assoc.keys fields :=
        List.forall₂_eq_eq_eq ▸ List.forall₂_map_left_iff.2
          (List.forall₂_map_right_iff.2 (hts.flip.imp fun _ _ h => h.1))
      refine ⟨.record ts, ⟨keys ▸ nodup, TypeTree.soundFields_iff.2 fun t ht => ?_⟩, ?_⟩
      · obtain ⟨f, -, -, sound, -⟩ := exists_of_forall₂ hts.flip ht
        exact sound
      · have nodes : fields.map (fun f => Json.array [.string f.1, f.2]) =
            ts.map fun f => .array [.string f.1, f.2.toJson] :=
          List.forall₂_eq_eq_eq ▸ List.forall₂_map_left_iff.2 (List.forall₂_map_right_iff.2
            (hts.imp fun _ _ h => by rw [h.1, h.2.2]))
        rw [TypeTree.toJson, TypeTree.fieldsToJson_eq, nodes]
  · rintro ⟨t, sound, rfl⟩
    exact validType_toJson sound

theorem validArg_iff {kind : ParamKind} {node : Json} :
    ValidArg kind node ↔ ∃ a : ArgTree, a.kind = kind ∧ a.Sound ∧ node = a.toJson := by
  constructor
  · intro h
    cases kind with
    | int =>
      obtain ⟨i, rfl, fits⟩ := h
      exact ⟨.int i, rfl, fits, rfl⟩
    | string =>
      obtain ⟨s, rfl⟩ := h
      exact ⟨.string s, rfl, trivial, rfl⟩
    | type =>
      obtain ⟨t, sound, rfl⟩ := validType_iff.1 h
      exact ⟨.type t, rfl, sound, rfl⟩
  · rintro ⟨a, rfl, sound, rfl⟩
    cases a with
    | int i => exact ⟨i, rfl, sound⟩
    | string s => exact ⟨s, rfl⟩
    | type t => exact validType_toJson sound

theorem validParams_iff {node : Json} :
    ValidParams node ↔ ∃ ps, node = Outline.paramsToJson ps := by
  have kinds {v : Json} : v = .string "Int" ∨ v = .string "String" ∨ v = .string "Type" ↔
      ∃ kind : ParamKind, v = .string kind.text := by
    constructor
    · rintro (rfl | rfl | rfl)
      · exact ⟨.int, rfl⟩
      · exact ⟨.string, rfl⟩
      · exact ⟨.type, rfl⟩
    · rintro ⟨kind, rfl⟩
      cases kind <;> simp [ParamKind.text]
  constructor
  · rintro ⟨ms, rfl, valid⟩
    obtain ⟨ps, hps⟩ := exists_forall₂ (R := fun (m : String × Json) (p : String × ParamKind) =>
      m = (p.1, .string p.2.text)) (l := ms) fun m hm => by
        obtain ⟨kind, hk⟩ := kinds.1 (valid m hm)
        exact ⟨(m.1, kind), by rw [← hk]⟩
    refine ⟨ps, congrArg Json.object ?_⟩
    exact List.forall₂_eq_eq_eq ▸ List.forall₂_map_right_iff.2 hps
  · rintro ⟨ps, rfl⟩
    refine ⟨_, rfl, fun m hm => kinds.2 ?_⟩
    obtain ⟨p, -, rfl⟩ := List.mem_map.1 hm
    exact ⟨p.2, rfl⟩

/-! ## Optional members -/

open Plain in
theorem exists_optionally_iff {α : Type} {f : α → Json} {e : α} {shape : Json → Prop}
    (h : ∀ {v}, shape v ↔ ∃ a, v = f a) {ms : List (String × Json)} {key : String} :
    (∃ a, Optionally ms key f e a) ↔ Json.Optional shape (.object ms) key := by
  constructor
  · rintro ⟨a, said⟩
    rcases entry_of_optionally said with ⟨null, -⟩ | there
    · exact Or.inl null
    · exact Or.inr (h.2 ⟨a, there⟩)
  · intro valid
    cases ho : optional ms key with
    | none => exact ⟨e, Or.inl ⟨ho, rfl⟩⟩
    | some v =>
      rw [Json.Optional, entry_of_optional ho] at valid
      obtain ⟨a, rfl⟩ := h.1 (valid.resolve_left (optional_eq_some_iff.1 ho).2)
      exact ⟨a, Or.inr ho⟩

section

variable {ms : List (String × Json)} {key : String}

theorem exists_metadata_iff : (∃ md, Optionally ms key Metadata.toJson ∅ md) ↔
    Optional IsObject (.object ms) key := by
  refine exists_optionally_iff fun {v} => ?_
  exact ⟨fun ⟨es, h⟩ => ⟨⟨es⟩, h⟩, fun ⟨md, h⟩ => ⟨md.entries, h⟩⟩

theorem exists_params_iff : (∃ ps, Optionally ms key Outline.paramsToJson [] ps) ↔
    Optional ValidParams (.object ms) key :=
  exists_optionally_iff validParams_iff

theorem exists_object_iff : (∃ es, Optionally ms key .object [] es) ↔
    Optional IsObject (.object ms) key :=
  exists_optionally_iff Iff.rfl

theorem exists_array_iff : (∃ vs, Optionally ms key .array [] vs) ↔
    Optional IsArray (.object ms) key :=
  exists_optionally_iff Iff.rfl

end

/-! ## Definitions -/

open Plain

theorem get?_of_entry {ms : List (String × Json)} {key : String} {v : Json}
    (h : (Json.object ms).entry key = v) (nonnull : v ≠ .null) : Assoc.get? key ms = some v := by
  rw [entry_object] at h
  cases hv : Assoc.get? key ms with
  | none => rw [hv] at h; exact absurd h.symm nonnull
  | some w => rw [hv] at h; exact congrArg some h

theorem exists_binds_iff {config : List (String × Json)} {ps : List (String × ParamKind)} :
    (∃ args, Binds config ps args) ↔
      ∀ p ∈ ps, ∃ v, Assoc.get? p.1 config = some v ∧ ValidArg p.2 v := by
  constructor
  · rintro ⟨args, binds⟩ p hp
    obtain ⟨e, -, -, kind, sound, found⟩ := exists_of_forall₂ binds hp
    exact ⟨_, found, validArg_iff.2 ⟨e.2, kind, sound, rfl⟩⟩
  · intro valid
    refine exists_forall₂ fun p hp => ?_
    obtain ⟨v, found, valid⟩ := valid p hp
    obtain ⟨a, kind, sound, rfl⟩ := validArg_iff.1 valid
    exact ⟨(p.1, a), rfl, kind, sound, found⟩

/-- Signatures of modules that are those that names refer to. -/
def Knows (scopes : Scopes) (doc : Json) (env : Signatures) : Prop :=
  ∀ scope name params, env (scope, name) = some (.module, params) ↔
    Refers scopes doc scope name params

section

variable {strict : Bool} {scopes : Scopes} {doc : Json} {env : Signatures} {node : Json}

theorem exists_instanceNode_iff (knows : Knows scopes doc env) :
    (∃ i, InstanceNode strict env node i) ↔ ValidInstance strict scopes doc node := by
  constructor
  · rintro ⟨i, ms, config, ps, rfl, ref, signature, -, genargs, -, hconfig, binds, known, hmd⟩
    have entries := entries_of_optionally hconfig
    refine ⟨⟨ms, rfl⟩, ⟨i.target.1, i.target.2, ps, ?_, (knows _ _ _).1 signature, ?_, ?_⟩,
      exists_object_iff.1 ⟨_, hconfig⟩, genargs, exists_metadata_iff.1 ⟨_, hmd⟩⟩
    · rw [entry_object, ref]
      rfl
    · rw [entries]
      exact exists_binds_iff.1 ⟨_, binds⟩
    · rw [entries]
      exact fun h => unknownKeys_eq_nil_iff.1 (known h)
  · rintro ⟨⟨ms, rfl⟩, ⟨scope, name, ps, ref, refers, bound, known⟩, hconfig, genargs, hmd⟩
    obtain ⟨config, hconfig⟩ := exists_object_iff.2 hconfig
    obtain ⟨md, hmd⟩ := exists_metadata_iff.2 hmd
    rw [entries_of_optionally hconfig] at bound known
    obtain ⟨args, binds⟩ := exists_binds_iff.2 bound
    exact ⟨⟨.module, (scope, name), none, args, md⟩, ms, config, ps, rfl, get?_of_entry ref nofun,
      (knows _ _ _).2 refers, rfl, genargs, rfl, hconfig, binds,
      fun h => unknownKeys_eq_nil_iff.2 (known h), hmd⟩

theorem validPath_iff {instances : List String} :
    ValidPath instances node ↔ ∃ path, node = pathToJson path ∧ EndOf instances path := by
  constructor
  · rintro ⟨root, selectors, rfl, full, known⟩
    exact ⟨root :: selectors, rfl, full, known⟩
  · rintro ⟨path, rfl, full, known⟩
    cases path with
    | nil => exact absurd rfl full
    | cons root selectors => exact ⟨root, selectors, rfl, full, known⟩

theorem exists_connectionNode_iff {instances : List String} :
    (∃ c, ConnectionNode instances node c) ↔ ValidConnection instances node := by
  constructor
  · rintro ⟨c, said, first, second⟩
    refine ⟨pathToJson c.first, pathToJson c.second, validPath_iff.2 ⟨_, rfl, first⟩,
      validPath_iff.2 ⟨_, rfl, second⟩, ?_⟩
    rcases said with ⟨rfl, -⟩ | ⟨rfl, -⟩ | rfl
    · exact Or.inl rfl
    · exact Or.inr ⟨_, rfl, Or.inl rfl⟩
    · exact Or.inr ⟨_, rfl, Or.inr ⟨_, rfl⟩⟩
  · rintro ⟨a, b, ha, hb, said⟩
    obtain ⟨first, rfl, first_end⟩ := validPath_iff.1 ha
    obtain ⟨second, rfl, second_end⟩ := validPath_iff.1 hb
    rcases said with rfl | ⟨_, rfl, rfl | ⟨md, rfl⟩⟩
    · exact ⟨⟨first, second, ∅⟩, Or.inl ⟨rfl, rfl⟩, first_end, second_end⟩
    · exact ⟨⟨first, second, ∅⟩, Or.inr (Or.inl ⟨rfl, rfl⟩), first_end, second_end⟩
    · exact ⟨⟨first, second, ⟨md⟩⟩, Or.inr (Or.inr rfl), first_end, second_end⟩

theorem exists_entries_iff {α : Type} {R : Json → α → Prop} {ms : List (String × Json)} :
    (∃ xs, Entries R ms xs) ↔ ∀ m ∈ ms, ∃ x, R m.2 x := by
  constructor
  · rintro ⟨xs, h⟩ m hm
    obtain ⟨e, -, -, said⟩ := exists_of_forall₂ h hm
    exact ⟨e.2, said⟩
  · intro valid
    refine exists_forall₂ fun m hm => ?_
    obtain ⟨x, said⟩ := valid m hm
    exact ⟨(m.1, x), rfl, said⟩

theorem exists_instanceNodes_iff {ms : List (String × Json)} :
    (∃ is, InstanceNodes strict env ms is) ↔
      ∀ m ∈ ms, m.1 ≠ Design.selfWord ∧ ∃ i, InstanceNode strict env m.2 i := by
  constructor
  · rintro ⟨is, h⟩ m hm
    obtain ⟨e, -, -, other, said⟩ := exists_of_forall₂ h hm
    exact ⟨other, e.2, said⟩
  · intro valid
    refine exists_forall₂ fun m hm => ?_
    obtain ⟨other, i, said⟩ := valid m hm
    exact ⟨(m.1, i), rfl, other, said⟩

theorem exists_definitionNode_iff (knows : Knows scopes doc env) :
    (∃ d, DefinitionNode strict env node d) ↔ ValidDefinition strict scopes doc node := by
  constructor
  · rintro ⟨d, ms, entries, nodes, links, rfl, hentries, instances, hnodes, connections, -, hi, hmd⟩
    have listed := exists_instanceNodes_iff.1 ⟨_, instances⟩
    refine
      { object := ⟨ms, rfl⟩
        instances := exists_object_iff.1 ⟨_, hentries⟩
        named := fun e he => ?_
        instances_valid := fun e he => ?_
        connections := exists_array_iff.1 ⟨_, hnodes⟩
        connections_valid := fun c hc => ?_
        implementations := exists_metadata_iff.1 ⟨_, hi⟩
        metadata := exists_metadata_iff.1 ⟨_, hmd⟩ }
    · rw [entries_of_optionally hentries] at he
      exact (listed e he).1
    · rw [entries_of_optionally hentries] at he
      exact (exists_instanceNode_iff knows).1 (listed e he).2
    · rw [elements_of_optionally hnodes] at hc
      rw [entries_of_optionally hentries, ← instances.entries.keys]
      obtain ⟨k, -, said⟩ := exists_of_forall₂ connections hc
      exact exists_connectionNode_iff.1 ⟨k, said⟩
  · intro valid
    obtain ⟨ms, rfl⟩ := valid.object
    obtain ⟨entries, hentries⟩ := exists_object_iff.2 valid.instances
    obtain ⟨nodes, hnodes⟩ := exists_array_iff.2 valid.connections
    obtain ⟨implementations, hi⟩ := exists_metadata_iff.2 valid.implementations
    obtain ⟨md, hmd⟩ := exists_metadata_iff.2 valid.metadata
    obtain ⟨-, -, named, valid_instances, -, valid_connections, -, -⟩ := valid
    rw [entries_of_optionally hentries] at named valid_instances valid_connections
    rw [elements_of_optionally hnodes] at valid_connections
    obtain ⟨is, instances⟩ := exists_instanceNodes_iff.2 fun e he =>
      ⟨named e he, (exists_instanceNode_iff knows).2 (valid_instances e he)⟩
    obtain ⟨links, connections⟩ := exists_forall₂ (R := ConnectionNode (Assoc.keys is))
      (l := nodes) fun c hc => by
        rw [instances.entries.keys]
        exact exists_connectionNode_iff.2 (valid_connections c hc)
    exact ⟨⟨is, linkAll links, implementations, md⟩, ms, entries, nodes, links, rfl, hentries,
      instances, hnodes, connections, rfl, hi, hmd⟩

end

/-! ## Declarations -/

section

variable {strict : Bool} {scopes : Scopes} {doc : Json} {env : Signatures} {node : Json}

theorem exists_interface_iff : (∃ m, ModuleNode unread node m) ↔ ValidInterface node := by
  constructor
  · rintro ⟨m, ms, rfl, type, sound, params, metadata, -⟩
    refine ⟨⟨ms, rfl⟩, ?_, exists_params_iff.1 ⟨_, params⟩, exists_metadata_iff.1 ⟨_, metadata⟩⟩
    rw [entry_object, type]
    exact validType_toJson sound
  · rintro ⟨⟨ms, rfl⟩, type, params, metadata⟩
    obtain ⟨t, sound, same⟩ := validType_iff.1 type
    obtain ⟨ps, params⟩ := exists_params_iff.2 params
    obtain ⟨md, metadata⟩ := exists_metadata_iff.2 metadata
    have nonnull : t.toJson ≠ .null := by cases t <;> exact nofun
    exact ⟨⟨t, ps, md, none⟩, ms, rfl, get?_of_entry same nonnull, sound, params, metadata, rfl⟩

/-- A definition is read if there is one. -/
theorem exists_defined_iff {ms : List (String × Json)} :
    (∃ x, defined strict env (optional ms "def") x) ↔
      Optional (fun v => ∃ d, DefinitionNode strict env v d) (.object ms) "def" := by
  unfold Json.Optional defined
  cases ho : optional ms "def" with
  | none => exact ⟨fun _ => Or.inl (entry_of_absent ho), fun _ => ⟨none, .none⟩⟩
  | some v =>
    rw [entry_of_optional ho]
    constructor
    · rintro ⟨_, said⟩
      cases said with
      | some said => exact Or.inr ⟨_, said⟩
    · intro valid
      obtain ⟨d, said⟩ := valid.resolve_left (optional_eq_some_iff.1 ho).2
      exact ⟨some d, .some said⟩

theorem exists_moduleNode_iff (knows : Knows scopes doc env) :
    (∃ m, ModuleNode (defined strict env) node m) ↔ ValidModule strict scopes doc node := by
  have definitions : (fun v => ∃ d, DefinitionNode strict env v d) =
      ValidDefinition strict scopes doc := funext fun v => propext (exists_definitionNode_iff knows)
  constructor
  · rintro ⟨m, said⟩
    have interface := exists_interface_iff.1 ⟨_, said.unread⟩
    obtain ⟨ms, rfl, -, -, -, -, body⟩ := said
    exact ⟨interface, definitions ▸ exists_defined_iff.1 ⟨_, body⟩⟩
  · rintro ⟨interface, definition⟩
    obtain ⟨m, ms, rfl, type, sound, params, metadata, -⟩ := exists_interface_iff.2 interface
    obtain ⟨x, body⟩ := exists_defined_iff.2 (definitions ▸ definition)
    exact ⟨{ m with definition := x }, ms, rfl, type, sound, params, metadata, body⟩

theorem exists_generatorNode_iff : (∃ g, GeneratorNode node g) ↔ ValidGenerator node := by
  constructor
  · rintro ⟨g, ms, rfl, genparams, params, metadata⟩
    exact ⟨⟨ms, rfl⟩, exists_params_iff.1 ⟨_, genparams⟩, exists_params_iff.1 ⟨_, params⟩,
      exists_metadata_iff.1 ⟨_, metadata⟩⟩
  · rintro ⟨⟨ms, rfl⟩, genparams, params, metadata⟩
    obtain ⟨gs, genparams⟩ := exists_params_iff.2 genparams
    obtain ⟨ps, params⟩ := exists_params_iff.2 params
    obtain ⟨md, metadata⟩ := exists_metadata_iff.2 metadata
    exact ⟨⟨gs, ps, md⟩, ms, rfl, genparams, params, metadata⟩

theorem nodup_entries (wf : node.WellFormed) : (Assoc.keys node.entries).Nodup := by
  cases node with
  | object ms => exact (Json.wellFormed_object_iff.1 wf).1
  | null | bool | number | string | array => exact List.nodup_nil

/-- What a node says is fresh when its entries are new and none of them is a module and a
generator at once. -/
theorem fresh_iff_of_keys {old ns : Outline.Namespace} {es es' : List (String × Json)}
    (modules : Assoc.keys ns.modules = Assoc.keys es)
    (generators : Assoc.keys ns.generators = Assoc.keys es')
    (nodup : (Assoc.keys es).Nodup) (nodup' : (Assoc.keys es').Nodup) :
    old.Fresh ns ↔ (∀ e ∈ es, e.1 ∉ old.names) ∧ (∀ e ∈ es', e.1 ∉ old.names) ∧
      ∀ e ∈ es, e.1 ∉ Assoc.keys es' := by
  have names : ns.names = Assoc.keys es ++ Assoc.keys es' := by
    rw [Outline.Namespace.names, modules, generators]
  have new (es : List (String × Json)) : (∀ name ∈ Assoc.keys es, name ∉ old.names) ↔
      ∀ e ∈ es, e.1 ∉ old.names := List.forall_mem_map
  have apart : (∀ name ∈ Assoc.keys es, name ∉ Assoc.keys es') ↔
      ∀ e ∈ es, e.1 ∉ Assoc.keys es' := List.forall_mem_map
  rw [Outline.Namespace.Fresh, names, List.nodup_append', List.disjoint_left,
    List.forall_mem_append, new, new, apart]
  constructor
  · rintro ⟨⟨-, -, apart⟩, new, new'⟩
    exact ⟨new, new', apart⟩
  · rintro ⟨new, new', apart⟩
    exact ⟨⟨nodup, nodup', apart⟩, new, new'⟩

theorem exists_namespaceNode_iff {body : Body} {module : Json → Prop}
    (h : ∀ {v}, (∃ m, ModuleNode body v m) ↔ module v) (wf : node.WellFormed) {scope : String} :
    (∃ ns, NamespaceNode body node ns ∧ (scopeOf scopes scope).Fresh ns) ↔
      ValidNamespace scopes module scope node := by
  have nodup := nodup_entries (wellFormed_entry wf "modules")
  have nodup' := nodup_entries (wellFormed_entry wf "generators")
  constructor
  · rintro ⟨ns, ⟨rfl, rfl⟩ | ⟨ms, es, es', rfl, hes, hes', modules, generators⟩, fresh⟩
    · exact ⟨Or.inl rfl, Or.inl rfl, Or.inl rfl, nofun, nofun, nofun, nofun, nofun⟩
    obtain rfl := entries_of_optionally hes
    obtain rfl := entries_of_optionally hes'
    obtain ⟨new, new', apart⟩ :=
      (fresh_iff_of_keys modules.keys generators.keys nodup nodup').1 fresh
    exact
      { object := Or.inr ⟨ms, rfl⟩
        modules := exists_object_iff.1 ⟨_, hes⟩
        generators := exists_object_iff.1 ⟨_, hes'⟩
        modules_valid := fun e he => h.1 (exists_entries_iff.1 ⟨_, modules⟩ e he)
        generators_valid := fun e he =>
          exists_generatorNode_iff.1 (exists_entries_iff.1 ⟨_, generators⟩ e he)
        modules_new := new
        generators_new := new'
        apart := apart }
  · rintro ⟨rfl | ⟨ms, rfl⟩, hes, hes', modules, generators, new, new', apart⟩
    · exact ⟨⟨[], []⟩, Or.inl ⟨rfl, rfl⟩, Outline.Namespace.fresh_empty _⟩
    obtain ⟨es, hes⟩ := exists_object_iff.2 hes
    obtain ⟨es', hes'⟩ := exists_object_iff.2 hes'
    obtain rfl := entries_of_optionally hes
    obtain rfl := entries_of_optionally hes'
    obtain ⟨xs, modules⟩ := exists_entries_iff.2 fun e he => h.2 (modules e he)
    obtain ⟨gs, generators⟩ := exists_entries_iff.2 fun e he =>
      exists_generatorNode_iff.2 (generators e he)
    exact ⟨⟨xs, gs⟩, Or.inr ⟨ms, _, _, rfl, hes, hes', modules, generators⟩,
      (fresh_iff_of_keys modules.keys generators.keys nodup nodup').2 ⟨new, new', apart⟩⟩

theorem ValidNamespace.mono {module module' : Json → Prop} {scope : String}
    (h : ValidNamespace scopes module scope node) (weaker : ∀ {v}, module v → module' v) :
    ValidNamespace scopes module' scope node :=
  { h with modules_valid := fun e he => weaker (h.modules_valid e he) }

end

end Document

end Netlist
