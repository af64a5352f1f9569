-- What a load adds to a design. Everything that was there stays as it was. Behind it comes
-- one module and one generator for each that the document lists, in its order, and the
-- namespaces that are new.
import Netlist.Proofs.Closed
import Netlist.Proofs.Nodes.Declarations

namespace Netlist

/-! ## The newer part of a table -/

namespace Table

variable {e : Entity} {α : Type} {t u : Table e α}

/-- The handles of everything from a position on, in order. -/
def since (t : Table e α) (n : Nat) : List (Handle e) :=
  (List.range' n (t.size - n)).map Handle.mk

theorem since_size (t : Table e α) : t.since t.size = [] := by
  simp [since]

theorem since_push (t : Table e α) (a : α) : (t.push a).since t.size = [t.nextId] := by
  simp [since, nextId]

theorem size_le_of_get? (h : ∀ {k a}, t.get? k = some a → (u.get? k).isSome) :
    t.size ≤ u.size := by
  apply Nat.le_of_not_lt
  intro lt
  obtain ⟨a, ha⟩ := exists_get? (t := t) (h := ⟨u.size⟩) lt
  have reached := (isSome_get?_iff u ⟨u.size⟩).1 (h ha)
  exact Nat.lt_irrefl _ reached

/-- First come the handles that an older table gave out, then those since then. -/
theorem since_append {n : Nat} (first : n ≤ u.size) (second : u.size ≤ t.size) :
    t.since n = u.since n ++ t.since u.size := by
  unfold since
  have split : t.size - n = (u.size - n) + (t.size - u.size) := by omega
  have start : u.size = n + (u.size - n) := by omega
  rw [← List.map_append, split, ← List.range'_append_1, ← start]

theorem mem_since {n : Nat} {k : Handle e} :
    k ∈ t.since n ↔ n ≤ k.index ∧ k.index < t.size := by
  obtain ⟨i⟩ := k
  simp only [since, List.mem_map, List.mem_range'_1, Handle.mk.injEq, exists_eq_right]
  omega

end Table

/-! ## What a document lists -/

namespace Document

/-- A module or a generator of a document, and the namespace that it is listed in. -/
structure Entry where
  scope : String
  name : String
  node : Json

def entriesOf (scope : String) (ms : List (String × Json)) : List Entry :=
  ms.map fun m => ⟨scope, m.1, m.2⟩

/-- Everything that the namespaces list under a key, in order. -/
def allEntries (key : String) (nodes : List (String × Json)) : List Entry :=
  nodes.flatMap fun n => entriesOf n.1 (n.2.entry key).entries

/-- The modules that await a definition, under their numbers. -/
def undefinedAmong (ids : List ModuleId) (entries : List Entry) : List Undefined :=
  (ids.zip entries).filterMap fun (id, e) =>
    (optional e.node.entries "def").map (Undefined.mk id)

theorem entries_optional {ms : List (String × Json)} {key : String} :
    ((Json.object ms).entry key).entries = match optional ms key with
      | some node => node.entries
      | none => [] := by
  unfold Json.entry optional Json.entries
  cases Assoc.get? key ms with
  | none => rfl
  | some v => cases v <;> rfl

end Document

open Document

/-! ## What comes to a design -/

namespace Design

/-- A module by the names of an entry, without a definition. -/
structure Declared (d : Design) (id : ModuleId) (e : Entry) : Prop where
  symbol : d.symbolText? (.module id) = some (e.scope, e.name)
  undefined : ∃ m, d.modules.get? id = some m ∧ m.definition = none

/-- The design was extended by exactly these namespaces, modules and generators. -/
structure Adds (c d : Design) (scopes : List String) (modules generators : List Entry) :
    Prop where
  extended : c.Extends d
  scopes : List.Forall₂ (fun id name => d.scopeText? id = some name)
    (d.namespaces.since c.namespaces.size) scopes
  modules : List.Forall₂ d.Declared (d.modules.since c.modules.size) modules
  generators : List.Forall₂ (fun id e => d.symbolText? (.generator id) = some (e.scope, e.name))
    (d.generators.since c.generators.size) generators

variable {b c d : Design}

theorem Keeps.scopeText (k : c.Keeps d) {id : NamespaceId} {name : String}
    (h : c.scopeText? id = some name) : d.scopeText? id = some name := by
  obtain ⟨ns, hns, text⟩ := Option.bind_eq_some_iff.1 h
  obtain ⟨ns', hns', grows⟩ := k.namespaces hns
  exact Option.bind_eq_some_iff.2 ⟨ns', hns', by rw [grows.name]; exact k.names text⟩

theorem Declared.extend {id : ModuleId} {e : Entry} (h : c.Declared id e) (x : c.Extends d) :
    d.Declared id e := by
  obtain ⟨m, hm, none⟩ := h.undefined
  exact ⟨x.keeps.symbolText h.symbol, m, x.modules hm, none⟩

theorem Grows.size_namespaces (g : c.Grows d) : c.namespaces.size ≤ d.namespaces.size :=
  Table.size_le_of_get? fun hns => by
    obtain ⟨ns, h, -⟩ := g.namespaces hns
    exact Option.isSome_of_eq_some h

theorem Grows.size_modules (g : c.Grows d) : c.modules.size ≤ d.modules.size :=
  Table.size_le_of_get? fun hm => by
    obtain ⟨m, h, -⟩ := g.modules hm
    exact Option.isSome_of_eq_some h

theorem Grows.size_generators (g : c.Grows d) : c.generators.size ≤ d.generators.size :=
  Table.size_le_of_get? fun hg => Option.isSome_of_eq_some (g.generators hg)

theorem Interns.adds (h : c.Interns d) : c.Adds d [] [] [] := by
  refine ⟨h.extends, ?_, ?_, ?_⟩
  · rw [h.namespaces, Table.since_size]
    exact .nil
  · rw [h.modules, Table.since_size]
    exact .nil
  · rw [h.generators, Table.since_size]
    exact .nil

/-- What comes in two steps comes one after the other. -/
theorem Adds.trans {ss ss' : List String} {ms ms' gs gs' : List Entry} (h : b.Adds c ss ms gs)
    (k : c.Adds d ss' ms' gs') : b.Adds d (ss ++ ss') (ms ++ ms') (gs ++ gs') := by
  have first := h.extended.grows
  have second := k.extended.grows
  refine ⟨h.extended.trans k.extended, ?_, ?_, ?_⟩
  · rw [Table.since_append first.size_namespaces second.size_namespaces]
    exact List.rel_append (h.scopes.imp fun _ _ => k.extended.keeps.scopeText) k.scopes
  · rw [Table.since_append first.size_modules second.size_modules]
    exact List.rel_append (h.modules.imp fun _ _ h => h.extend k.extended) k.modules
  · rw [Table.since_append first.size_generators second.size_generators]
    exact List.rel_append (h.generators.imp fun _ _ => k.extended.keeps.symbolText) k.generators

/-- The modules that await a definition after two steps. -/
theorem Adds.undefinedAmong_append {ss ss' : List String} {ms ms' gs gs' : List Entry}
    (h : b.Adds c ss ms gs) (k : c.Adds d ss' ms' gs') :
    undefinedAmong (d.modules.since b.modules.size) (ms ++ ms') =
      undefinedAmong (c.modules.since b.modules.size) ms ++
        undefinedAmong (d.modules.since c.modules.size) ms' := by
  have lengths := h.modules.length_eq
  rw [Table.since_append h.extended.grows.size_modules k.extended.grows.size_modules]
  unfold undefinedAmong
  rw [List.zip_append lengths, List.filterMap_append]

/-- The namespaces of these names that are not there yet. -/
def newScopes (d : Design) (names : List String) : List String :=
  names.filter fun name => (d.namespaceId? name).isNone

theorem Sound.isNone_namespaceId_iff (hd : d.Sound) {name : String} :
    (d.namespaceId? name).isNone = true ↔ ¬ ∃ id, d.scopeText? id = some name := by
  simp only [Option.isNone_iff_eq_none, Option.eq_none_iff_forall_ne_some, ne_eq, not_exists,
    hd.namespaceId_eq_some_iff]

/-- The names of the namespaces afterwards are those from before, and the new ones. -/
theorem Adds.scope_iff {ss : List String} {ms gs : List Entry} (h : c.Adds d ss ms gs)
    (hc : c.Sound) {name : String} :
    (∃ id, d.scopeText? id = some name) ↔ (∃ id, c.scopeText? id = some name) ∨ name ∈ ss := by
  constructor
  · rintro ⟨id, text⟩
    obtain ⟨ns, hns, -⟩ := Option.bind_eq_some_iff.1 text
    by_cases old : id.index < c.namespaces.size
    · obtain ⟨ns, hns⟩ := Table.exists_get? old
      obtain ⟨name', text'⟩ := Option.isSome_iff_exists.1 (hc.namespaceSound hns).name
      have known : c.scopeText? id = some name' := Option.bind_eq_some_iff.2 ⟨ns, hns, text'⟩
      have same := text.symm.trans (h.extended.keeps.scopeText known)
      cases same
      exact Or.inl ⟨id, known⟩
    · have new := Table.mem_since.2 ⟨Nat.le_of_not_lt old, Table.index_lt_of_get? hns⟩
      obtain ⟨name', mem, text'⟩ := exists_of_forall₂ h.scopes new
      cases text.symm.trans text'
      exact Or.inr mem
  · rintro (⟨id, text⟩ | new)
    · exact ⟨id, h.extended.keeps.scopeText text⟩
    · obtain ⟨id, -, text⟩ := exists_of_forall₂ h.scopes.flip new
      exact ⟨id, text⟩

end Design

/-! ## Texts of what is declared -/

namespace Design

variable {d : Design} {scope : NamespaceId} {n : Name}

theorem symbolText_addModule {scopeName name : String} (h : d.scopeText? scope = some scopeName)
    (text : d.text? n = some name) (type : TypeId) (params : Params) (metadata : Metadata) :
    (d.addModule scope n type params metadata).symbolText? (.module d.modules.nextId) =
      some (scopeName, name) := by
  obtain ⟨ns, hns, nsText⟩ := Option.bind_eq_some_iff.1 h
  refine symbolText_eq_some_iff.2 ⟨scope, n, ns.addModule n d.modules.nextId, ?_, ?_, nsText, text⟩
  · rw [placeOf?, Design.addModule, Table.get?_push_nextId]
    rfl
  · rw [Design.addModule, Table.get?_modify, if_pos rfl, hns]
    rfl

theorem symbolText_addGenerator {scopeName name : String}
    (h : d.scopeText? scope = some scopeName) (text : d.text? n = some name)
    (genparams params : Params) (metadata : Metadata) :
    (d.addGenerator scope n genparams params metadata).symbolText?
      (.generator d.generators.nextId) = some (scopeName, name) := by
  obtain ⟨ns, hns, nsText⟩ := Option.bind_eq_some_iff.1 h
  refine symbolText_eq_some_iff.2
    ⟨scope, n, ns.addGenerator n d.generators.nextId, ?_, ?_, nsText, text⟩
  · rw [placeOf?, Design.addGenerator, Table.get?_push_nextId]
    rfl
  · rw [Design.addGenerator, Table.get?_modify, if_pos rfl, hns]
    rfl

theorem adds_addModule {scopeName name : String} (h : d.scopeText? scope = some scopeName)
    (text : d.text? n = some name) (free : d.Free scope n) (type : TypeId) (params : Params)
    (metadata : Metadata) (node : Json) :
    d.Adds (d.addModule scope n type params metadata) [] [⟨scopeName, name, node⟩] [] := by
  refine ⟨extends_addModule free type params metadata, ?_, ?_, ?_⟩
  · have same : (d.addModule scope n type params metadata).namespaces.size = d.namespaces.size :=
      Table.size_modify _ _ _
    rw [← same, Table.since_size]
    exact .nil
  · have new : (d.addModule scope n type params metadata).modules.since d.modules.size =
        [d.modules.nextId] := Table.since_push _ _
    rw [new]
    refine .cons ⟨symbolText_addModule h text type params metadata, ?_⟩ .nil
    exact ⟨_, Table.get?_push_nextId _ _, rfl⟩
  · exact (Table.since_size d.generators).symm ▸ .nil

theorem adds_addGenerator {scopeName name : String} (h : d.scopeText? scope = some scopeName)
    (text : d.text? n = some name) (free : d.Free scope n) (genparams params : Params)
    (metadata : Metadata) (node : Json) :
    d.Adds (d.addGenerator scope n genparams params metadata) [] [] [⟨scopeName, name, node⟩] := by
  refine ⟨extends_addGenerator free genparams params metadata, ?_, ?_, ?_⟩
  · have same : (d.addGenerator scope n genparams params metadata).namespaces.size =
        d.namespaces.size := Table.size_modify _ _ _
    rw [← same, Table.since_size]
    exact .nil
  · exact (Table.since_size d.modules).symm ▸ .nil
  · have new : (d.addGenerator scope n genparams params metadata).generators.since
        d.generators.size = [d.generators.nextId] := Table.since_push _ _
    rw [new]
    exact .cons (symbolText_addGenerator h text genparams params metadata) .nil

theorem adds_addNamespace {name : String} (text : d.text? n = some name) :
    d.Adds (d.addNamespace n) [name] [] [] := by
  refine ⟨extends_addNamespace d n, ?_, ?_, ?_⟩
  · have new : (d.addNamespace n).namespaces.since d.namespaces.size = [d.namespaces.nextId] :=
      Table.since_push _ _
    rw [new]
    exact .cons (Option.bind_eq_some_iff.2 ⟨_, Table.get?_push_nextId _ _, text⟩) .nil
  · exact (Table.since_size d.modules).symm ▸ .nil
  · exact (Table.since_size d.generators).symm ▸ .nil

end Design

namespace Document

open Design Edit

variable {d d' : Design} {scope : NamespaceId} {scopeName : String}

theorem undefinedAmong_nil (ids : List ModuleId) : undefinedAmong ids [] = [] := by
  unfold undefinedAmong
  rw [List.zip_nil_right, List.filterMap_nil]

theorem undefinedAmong_singleton (id : ModuleId) (e : Entry) :
    undefinedAmong [id] [e] = ((optional e.node.entries "def").map (Undefined.mk id)).toList := by
  unfold undefinedAmong
  cases h : optional e.node.entries "def" <;> simp [h]

/-- A namespace by its number, among the outlines of all. -/
theorem exists_scoped (hd : d.Sound) (h : d.scopeText? scope = some scopeName) :
    ∃ scopes r, d.Scoped scope scopeName scopes r := by
  obtain ⟨ns, hns, text⟩ := Option.bind_eq_some_iff.1 h
  obtain ⟨scopes, hs⟩ := hd.exists_outlineNamespaces
  have found := hd.get?_outlineEntries ((outlineNamespaces_eq_entries d _).1 hs) text
  rw [(Assoc.get?_eq_some_iff hd.nodup_namespaceEntries).2
    (mem_namespaceEntries.2 ⟨rfl, scope, hns⟩)] at found
  generalize hr : Assoc.get? scopeName scopes = r at found
  cases found with
  | @some _ r _ => exact ⟨scopes, r, by rw [Assoc.set_of_get? hr]; exact hs, ns, hns, text⟩

/-! ## The first pass of a load -/

theorem adds_declareModule (hd : d.Sound) (h : d.scopeText? scope = some scopeName) {name : String}
    {node : Json} {us : List Undefined}
    (ran : declareModule scope scopeName name node d = .ok us d') :
    d.Adds d' [] [⟨scopeName, name, node⟩] [] ∧
      us = undefinedAmong (d'.modules.since d.modules.size) [⟨scopeName, name, node⟩] := by
  unfold declareModule at ran
  obtain ⟨ms, _, read, ran⟩ := seq_eq_ok_iff.1 ran
  obtain ⟨hms, rfl⟩ := liftM_eq_ok_iff.1 read
  obtain ⟨v, _, hv, ran⟩ := seq_eq_ok_iff.1 ran
  obtain ⟨-, rfl⟩ := liftM_eq_ok_iff.1 hv
  obtain ⟨type, d₁, hType, ran⟩ := seq_eq_ok_iff.1 ran
  obtain ⟨-, -, sound₁, i₁, -⟩ := (mirrors_readType v hd).of_ok hType
  obtain ⟨params, d₂, hParams, ran⟩ := seq_eq_ok_iff.1 ran
  obtain ⟨-, -, sound₂, i₂, -⟩ := (mirrors_readParams? sound₁ ms _).of_ok hParams
  obtain ⟨id, d₃, declared, ran⟩ := seq_eq_ok_iff.1 ran
  obtain ⟨metadata, _, hmd, ran⟩ := seq_eq_ok_iff.1 ran
  obtain ⟨-, rfl⟩ := liftM_eq_ok_iff.1 hmd
  obtain ⟨_, d₄, annotated, ran⟩ := seq_eq_ok_iff.1 ran
  cases ran
  rw [within_eq_ok_iff] at declared
  have i := (i₁.trans i₂).trans (interns_withName d₂ name)
  by_cases free : (d₂.withName name).Free scope (d₂.names.intern name).1
  · cases declared.symm.trans (declareModule_of_free free type params)
    cases annotated.symm.trans (setModuleMetadata_addModule scope _ type params metadata)
    have added := adds_addModule (i.keeps.scopeText h) (sound₂.text_withName name) free type params
      metadata node
    have new := Table.since_push (d₂.withName name).modules
      ⟨d₂.modules.nextId, (d₂.names.intern name).1, scope, type, params, metadata, none⟩
    refine ⟨i.adds.trans added, ?_⟩
    rw [← i.modules]
    refine Eq.trans ?_ (congrArg (undefinedAmong · _) new.symm)
    rw [undefinedAmong_singleton, members_eq_ok hms]
    rfl
  · obtain ⟨e, failed⟩ := declareModule_of_not_free free type params
    cases declared.symm.trans failed

theorem adds_declareModules {ms : List (String × Json)} (wf : ∀ m ∈ ms, m.2.WellFormed) :
    ∀ {d : Design} {us : List Undefined}, d.Sound → d.scopeText? scope = some scopeName →
    declareModules scope scopeName ms d = .ok us d' →
    d.Adds d' [] (entriesOf scopeName ms) [] ∧
      us = undefinedAmong (d'.modules.since d.modules.size) (entriesOf scopeName ms) := by
  induction ms with
  | nil =>
    intro d us hd h ran
    cases ran
    rw [Table.since_size]
    exact ⟨(Interns.refl _).adds, rfl⟩
  | cons m rest ih =>
    intro d us hd h ran
    rw [List.forall_mem_cons] at wf
    obtain ⟨first, d₁, ran₁, ran⟩ := seq_eq_ok_iff.1 ran
    obtain ⟨more, d₂, ran₂, ran⟩ := seq_eq_ok_iff.1 ran
    cases ran
    obtain ⟨scopes, r, inScope⟩ := exists_scoped hd h
    obtain ⟨-, -, sound₁, x₁, -⟩ :=
      (mirrors_declareModule scopeName m.1 wf.1 hd inScope).of_ok ran₁
    obtain ⟨added, rfl⟩ := adds_declareModule hd h ran₁
    obtain ⟨added', rfl⟩ := ih wf.2 sound₁ (x₁.keeps.scopeText h) ran₂
    exact ⟨added.trans added', (added.undefinedAmong_append added').symm⟩

theorem adds_declareGenerator (hd : d.Sound) (h : d.scopeText? scope = some scopeName)
    {name : String} {node : Json}
    (ran : declareGenerator scope scopeName name node d = .ok () d') :
    d.Adds d' [] [] [⟨scopeName, name, node⟩] := by
  unfold declareGenerator at ran
  obtain ⟨ms, _, hms, ran⟩ := seq_eq_ok_iff.1 ran
  obtain ⟨-, rfl⟩ := liftM_eq_ok_iff.1 hms
  obtain ⟨genparams, d₁, hGenparams, ran⟩ := seq_eq_ok_iff.1 ran
  obtain ⟨-, -, sound₁, i₁, -⟩ := (mirrors_readParams? hd ms _).of_ok hGenparams
  obtain ⟨params, d₂, hParams, ran⟩ := seq_eq_ok_iff.1 ran
  obtain ⟨-, -, sound₂, i₂, -⟩ := (mirrors_readParams? sound₁ ms _).of_ok hParams
  obtain ⟨id, d₃, declared, ran⟩ := seq_eq_ok_iff.1 ran
  obtain ⟨metadata, _, hmd, annotated⟩ := seq_eq_ok_iff.1 ran
  obtain ⟨-, rfl⟩ := liftM_eq_ok_iff.1 hmd
  rw [within_eq_ok_iff] at declared
  have i := (i₁.trans i₂).trans (interns_withName d₂ name)
  by_cases free : (d₂.withName name).Free scope (d₂.names.intern name).1
  · cases declared.symm.trans (declareGenerator_of_free free genparams params)
    cases annotated.symm.trans
      (setGeneratorMetadata_addGenerator scope _ genparams params metadata)
    exact i.adds.trans (adds_addGenerator (i.keeps.scopeText h) (sound₂.text_withName name) free
      genparams params metadata node)
  · obtain ⟨e, failed⟩ := declareGenerator_of_not_free free genparams params
    cases declared.symm.trans failed

theorem adds_declareGenerators {ms : List (String × Json)} (wf : ∀ m ∈ ms, m.2.WellFormed) :
    ∀ {d : Design}, d.Sound → d.scopeText? scope = some scopeName →
    declareGenerators scope scopeName ms d = .ok () d' →
    d.Adds d' [] [] (entriesOf scopeName ms) := by
  induction ms with
  | nil =>
    intro d hd h ran
    cases ran
    exact (Interns.refl _).adds
  | cons m rest ih =>
    intro d hd h ran
    rw [List.forall_mem_cons] at wf
    obtain ⟨_, d₁, ran₁, ran₂⟩ := seq_eq_ok_iff.1 ran
    obtain ⟨scopes, r, inScope⟩ := exists_scoped hd h
    obtain ⟨-, -, sound₁, x₁, -⟩ :=
      (mirrors_declareGenerator scopeName m.1 wf.1 hd inScope).of_ok ran₁
    exact (adds_declareGenerator hd h ran₁).trans (ih wf.2 sound₁ (x₁.keeps.scopeText h) ran₂)

theorem adds_declareModulesOf {ms : List (String × Json)} (wf : (Json.object ms).WellFormed)
    (hd : d.Sound) (h : d.scopeText? scope = some scopeName) {us : List Undefined}
    (ran : declareModulesOf scope scopeName ms d = .ok us d') :
    d.Adds d' [] (entriesOf scopeName ((Json.object ms).entry "modules").entries) [] ∧
      us = undefinedAmong (d'.modules.since d.modules.size)
        (entriesOf scopeName ((Json.object ms).entry "modules").entries) := by
  unfold declareModulesOf at ran
  rw [entries_optional]
  cases hn : optional ms "modules" with
  | none =>
    rw [hn] at ran
    cases ran
    rw [Table.since_size]
    exact ⟨(Interns.refl _).adds, rfl⟩
  | some node =>
    rw [hn] at ran
    obtain ⟨es, _, read, ran⟩ := seq_eq_ok_iff.1 ran
    obtain ⟨hes, rfl⟩ := liftM_eq_ok_iff.1 read
    have nodes := (Json.wellFormed_object_iff.1 (wellFormed_members (wellFormed_optional wf hn) hes)).2
    rw [members_eq_ok hes]
    exact adds_declareModules nodes hd h ran

theorem adds_declareGeneratorsOf {ms : List (String × Json)} (wf : (Json.object ms).WellFormed)
    (hd : d.Sound) (h : d.scopeText? scope = some scopeName)
    (ran : declareGeneratorsOf scope scopeName ms d = .ok () d') :
    d.Adds d' [] [] (entriesOf scopeName ((Json.object ms).entry "generators").entries) := by
  unfold declareGeneratorsOf at ran
  rw [entries_optional]
  cases hn : optional ms "generators" with
  | none =>
    rw [hn] at ran
    cases ran
    exact (Interns.refl _).adds
  | some node =>
    rw [hn] at ran
    obtain ⟨es, _, read, ran⟩ := seq_eq_ok_iff.1 ran
    obtain ⟨hes, rfl⟩ := liftM_eq_ok_iff.1 read
    have nodes := (Json.wellFormed_object_iff.1 (wellFormed_members (wellFormed_optional wf hn) hes)).2
    rw [members_eq_ok hes]
    exact adds_declareGenerators nodes hd h ran

theorem adds_openNamespace (hd : d.Sound) {name : String}
    (ran : (openNamespace name : Load NamespaceId) d = .ok scope d') :
    d.Adds d' (d.newScopes [name]) [] [] ∧ d'.scopeText? scope = some name := by
  have i := interns_withName d name
  have sound := hd.withName name
  have text := hd.text_withName name
  rw [openNamespace_apply] at ran
  cases hn : (d.withName name).scopes[(d.names.intern name).1]? with
  | some id =>
    rw [hn] at ran
    cases ran
    obtain ⟨ns, hns, same⟩ := (sound.scopes _ scope).1 hn
    have found : (d.withName name).scopeText? scope = some name :=
      Option.bind_eq_some_iff.2 ⟨ns, hns, by rw [same]; exact text⟩
    have known : ∃ id, d.scopeText? id = some name :=
      ((i.adds.scope_iff hd).1 ⟨scope, found⟩).resolve_right List.not_mem_nil
    have none : d.newScopes [name] = [] :=
      List.filter_cons_of_neg fun new => hd.isNone_namespaceId_iff.1 new known
    rw [none]
    exact ⟨i.adds, found⟩
  | none =>
    rw [hn] at ran
    cases ran
    have unknown : ¬ ∃ id, d.scopeText? id = some name := by
      rintro ⟨id, h⟩
      obtain ⟨ns, hns, here⟩ := Option.bind_eq_some_iff.1 (i.keeps.scopeText h)
      have same := sound.text_injective here text
      rw [(sound.scopes _ id).2 ⟨ns, hns, same⟩] at hn
      cases hn
    have one : d.newScopes [name] = [name] :=
      List.filter_cons_of_pos (hd.isNone_namespaceId_iff.2 unknown)
    rw [one]
    refine ⟨i.adds.trans (adds_addNamespace (d := d.withName name) text), ?_⟩
    exact Option.bind_eq_some_iff.2 ⟨_, Table.get?_push_nextId _ _, text⟩

theorem adds_declareNamespace (hd : d.Sound) {name : String} {node : Json} (wf : node.WellFormed)
    {us : List Undefined} (ran : declareNamespace name node d = .ok us d') :
    d.Adds d' (d.newScopes [name]) (entriesOf name (node.entry "modules").entries)
        (entriesOf name (node.entry "generators").entries) ∧
      us = undefinedAmong (d'.modules.since d.modules.size)
        (entriesOf name (node.entry "modules").entries) := by
  unfold declareNamespace at ran
  obtain ⟨scope, d₁, opened, ran⟩ := seq_eq_ok_iff.1 ran
  obtain ⟨scopes, hs⟩ := hd.exists_outlineNamespaces
  obtain ⟨_, _, opened', sound₁, -, -⟩ := openNamespace_scoped hd hs name
  cases opened.symm.trans opened'
  obtain ⟨added, text⟩ := adds_openNamespace hd opened
  by_cases null : node.isNull = true
  · obtain rfl : node = .null := by cases node <;> first | rfl | cases null
    rw [if_pos null] at ran
    cases ran
    exact ⟨added, (undefinedAmong_nil _).symm⟩
  · rw [if_neg null] at ran
    obtain ⟨ms, _, read, ran⟩ := seq_eq_ok_iff.1 ran
    obtain ⟨hms, rfl⟩ := liftM_eq_ok_iff.1 read
    obtain ⟨first, d₂, ran₂, ran⟩ := seq_eq_ok_iff.1 ran
    obtain ⟨_, d₃, ran₃, ran⟩ := seq_eq_ok_iff.1 ran
    cases ran
    have wf' := wellFormed_members wf hms
    obtain ⟨_, _, inScope⟩ := exists_scoped sound₁ text
    obtain ⟨-, -, sound₂, x₂, -⟩ := (mirrors_declareModulesOf sound₁ inScope wf').of_ok ran₂
    obtain ⟨modules, rfl⟩ := adds_declareModulesOf wf' sound₁ text ran₂
    have generators := adds_declareGeneratorsOf wf' sound₂ (x₂.keeps.scopeText text) ran₃
    rw [members_eq_ok hms]
    have both := added.trans modules
    have all := both.trans generators
    have before := both.undefinedAmong_append generators
    rw [added.undefinedAmong_append modules, undefinedAmong_nil, undefinedAmong_nil,
      List.append_nil, List.append_nil, List.nil_append, List.nil_append] at before
    rw [List.append_nil, List.append_nil, List.append_nil] at all
    exact ⟨all, before.symm⟩

/-- After some of the names came, the others are as new as before. -/
theorem newScopes_of_adds {c : Design} (hc : c.Sound) (hd : d.Sound) {ss names : List String}
    {ms gs : List Entry} (h : c.Adds d ss ms gs) (apart : ∀ name ∈ names, name ∉ ss) :
    d.newScopes names = c.newScopes names := by
  apply List.filter_congr
  intro name hn
  rw [Bool.eq_iff_iff, hd.isNone_namespaceId_iff, hc.isNone_namespaceId_iff, h.scope_iff hc]
  simp [apart name hn]

theorem adds_declareNamespaces {nodes : List (String × Json)} :
    ∀ {d : Design} {us : List Undefined}, (Json.object nodes).WellFormed → d.Sound →
    declareNamespaces nodes d = .ok us d' →
    d.Adds d' (d.newScopes (Assoc.keys nodes)) (allEntries "modules" nodes)
        (allEntries "generators" nodes) ∧
      us = undefinedAmong (d'.modules.since d.modules.size) (allEntries "modules" nodes) := by
  induction nodes with
  | nil =>
    intro d us wf hd ran
    cases ran
    rw [Table.since_size]
    exact ⟨(Interns.refl _).adds, rfl⟩
  | cons n rest ih =>
    intro d us wf hd ran
    obtain ⟨nodup, nodes⟩ := Json.wellFormed_object_iff.1 wf
    obtain ⟨new, nodup⟩ := List.nodup_cons.1 nodup
    rw [List.forall_mem_cons] at nodes
    obtain ⟨first, d₁, ran₁, ran⟩ := seq_eq_ok_iff.1 ran
    obtain ⟨more, d₂, ran₂, ran⟩ := seq_eq_ok_iff.1 ran
    cases ran
    obtain ⟨scopes, hs⟩ := hd.exists_outlineNamespaces
    obtain ⟨-, -, sound₁, -, -⟩ := (mirrors_declareNamespace hd hs n.1 nodes.1).of_ok ran₁
    obtain ⟨added, rfl⟩ := adds_declareNamespace hd nodes.1 ran₁
    obtain ⟨added', rfl⟩ := ih (Json.wellFormed_object_iff.2 ⟨nodup, nodes.2⟩) sound₁ ran₂
    have others : d₁.newScopes (Assoc.keys rest) = d.newScopes (Assoc.keys rest) := by
      refine newScopes_of_adds hd sound₁ added fun k hk here => ?_
      rw [List.mem_singleton.1 (List.mem_of_mem_filter here)] at hk
      exact new hk
    rw [others] at added'
    have split : d.newScopes (Assoc.keys (n :: rest)) =
        d.newScopes [n.1] ++ d.newScopes (Assoc.keys rest) :=
      List.filter_append [n.1] (Assoc.keys rest)
    rw [split]
    exact ⟨added.trans added', (added.undefinedAmong_append added').symm⟩

end Document

end Netlist
