-- What the node of a definition says, if the kinds and the parameters of everything that
-- its instances can stand for are known.
import Netlist.Proofs.Nodes.Values

namespace Netlist.Plain

open Document Design

/-! ## Instances -/

/-- The kind and the parameters of what stands behind a namespace and a name. -/
abbrev Signatures := String × String → Option (TargetKind × List (String × ParamKind))

def Symbol.signature (s : Symbol) : TargetKind × List (String × ParamKind) := (s.kind, s.params)

def signature? (scopes : Scopes) : Signatures := fun target =>
  (symbol? scopes target.1 target.2).map Symbol.signature

/-- The node of an instance of a module. Strictly, it binds nothing but the parameters. -/
def InstanceNode (strict : Bool) (env : Signatures) (node : Json) (i : Outline.Instance) : Prop :=
  ∃ ms config ps, node = .object ms ∧
    Assoc.get? "instref" ms = some (.array [.string i.target.1, .string i.target.2]) ∧
    env i.target = some (.module, ps) ∧ i.kind = .module ∧
    Assoc.get? "genargs" ms = none ∧ i.genargs = none ∧
    Optionally ms "config" .object [] config ∧ Binds config ps i.config ∧
    (strict = true → unknownKeys ps config = []) ∧
    Optionally ms "metadata" Metadata.toJson ∅ i.metadata

theorem requireSymbol_eq_ok_iff {scopes : Scopes} {scope name : String} {s : Symbol} :
    requireSymbol scopes scope name = .ok s ↔ symbol? scopes scope name = some s := by
  unfold requireSymbol
  cases symbol? scopes scope name with
  | none => exact ⟨nofun, nofun⟩
  | some t => exact ⟨fun h => congrArg some (Except.ok.inj h), fun h => by cases h; rfl⟩

theorem requireModule_eq_ok_iff {kind : TargetKind} {genargs : Bool} {what label : String} :
    requireModule kind genargs what label = .ok () ↔ kind = .module ∧ genargs = false := by
  cases kind <;> cases genargs
  · exact ⟨fun _ => ⟨rfl, rfl⟩, fun _ => rfl⟩
  all_goals exact ⟨nofun, nofun⟩

theorem requireNew_eq_ok_iff {owner name : String} {is : List (String × Outline.Instance)} :
    requireNew owner name is = .ok () ↔ name ≠ selfWord ∧ name ∉ Assoc.keys is := by
  unfold requireNew
  by_cases hs : name = selfWord
  · rw [if_pos hs]
    exact ⟨nofun, fun h => absurd hs h.1⟩
  · rw [if_neg hs]
    by_cases hk : name ∈ Assoc.keys is
    · rw [if_pos hk]
      exact ⟨nofun, fun h => absurd hk h.2⟩
    · rw [if_neg hk]
      exact ⟨fun _ => ⟨hs, hk⟩, fun _ => rfl⟩

/-- Arguments that are absent, null or an object. -/
theorem config_iff {ms config : List (String × Json)} :
    ((Assoc.get? "config" ms).getD .null = .null ∧ config = [] ∨
      (Assoc.get? "config" ms).getD .null = .object config) ↔
      Optionally ms "config" .object [] config := by
  refine Iff.trans ?_ (optionally_iff (e := []) fun _ => nofun)
  cases Assoc.get? "config" ms <;> simp

theorem readInstance_eq_ok_iff {strict : Bool} {scopes : Scopes} {owner name : String} {node : Json}
    {before is : List (String × Outline.Instance)} :
    (∃ warnings, readInstance strict scopes owner name node before = .ok (is, warnings)) ↔
      ∃ i, is = before ++ [(name, i)] ∧ name ≠ selfWord ∧ name ∉ Assoc.keys before ∧
        InstanceNode strict (signature? scopes) node i := by
  constructor
  · rintro ⟨warnings, h⟩
    obtain ⟨ms, hms, h⟩ := bind_eq_ok_iff.1 h
    obtain ⟨ref, href, h⟩ := bind_eq_ok_iff.1 h
    obtain ⟨⟨scope, target⟩, hpair, h⟩ := bind_eq_ok_iff.1 h
    obtain ⟨symbol, hsymbol, h⟩ := bind_eq_ok_iff.1 h
    obtain ⟨⟨config, _⟩, hargs, h⟩ := bind_eq_ok_iff.1 h
    obtain ⟨_, hkind, h⟩ := bind_eq_ok_iff.1 h
    obtain ⟨_, hnew, h⟩ := bind_eq_ok_iff.1 h
    obtain ⟨md, hmd, h⟩ := bind_eq_ok_iff.1 h
    cases h
    obtain ⟨other, fresh⟩ := requireNew_eq_ok_iff.1 hnew
    obtain ⟨kind, genargs⟩ := requireModule_eq_ok_iff.1 hkind
    obtain ⟨entries, hentries, binds, known, -⟩ := readArgs_eq_ok_iff.1 hargs
    rw [symbolPair_eq_ok_iff] at hpair
    rw [requireSymbol_eq_ok_iff] at hsymbol
    refine ⟨_, rfl, other, fresh, ms, entries, symbol.params, members_eq_ok hms, ?_, ?_, rfl, ?_, rfl,
      config_iff.1 hentries, binds, known, readMetadata?_eq_ok_iff.1 hmd⟩
    · rw [required_eq_ok_iff.1 href, hpair]
    · rw [signature?, hsymbol, Option.map_some, Symbol.signature, kind]
    · exact Option.not_isSome_iff_eq_none.1 (by rw [genargs]; exact nofun)
  · rintro ⟨⟨_, _, _, _, _⟩, rfl, other, fresh, ms, config, _, rfl, href, signature, rfl, nogen, rfl,
      hconfig, binds, known, hmd⟩
    obtain ⟨symbol, hsymbol, same⟩ := Option.map_eq_some_iff.1 signature
    simp only [Symbol.signature, Prod.mk.injEq] at same
    obtain ⟨kind, rfl⟩ := same
    refine ⟨(unknownKeys symbol.params config).map
      (unknownKeyWarning s!"instance {name} in {owner}"), bind_eq_ok_iff.2 ⟨ms, rfl, ?_⟩⟩
    refine bind_eq_ok_iff.2 ⟨_, required_eq_ok_iff.2 href, ?_⟩
    refine bind_eq_ok_iff.2 ⟨_, symbolPair_eq_ok_iff.2 rfl, ?_⟩
    refine bind_eq_ok_iff.2 ⟨_, requireSymbol_eq_ok_iff.2 hsymbol, ?_⟩
    refine bind_eq_ok_iff.2
      ⟨_, readArgs_eq_ok_iff.2 ⟨config, config_iff.2 hconfig, binds, known, rfl⟩, ?_⟩
    refine bind_eq_ok_iff.2 ⟨(), requireModule_eq_ok_iff.2 ⟨kind, by rw [nogen]; rfl⟩, ?_⟩
    refine bind_eq_ok_iff.2 ⟨(), requireNew_eq_ok_iff.2 ⟨other, fresh⟩, ?_⟩
    exact bind_eq_ok_iff.2 ⟨_, readMetadata?_eq_ok_iff.2 hmd, rfl⟩

/-- Names and nodes of instances, one after another. No instance goes by the word `self`. -/
def InstanceNodes (strict : Bool) (env : Signatures) (ms : List (String × Json))
    (is : List (String × Outline.Instance)) : Prop :=
  List.Forall₂ (fun m i => m.1 = i.1 ∧ m.1 ≠ selfWord ∧ InstanceNode strict env m.2 i.2) ms is

theorem readInstances_eq_ok_iff {strict : Bool} {scopes : Scopes} {owner : String}
    {ms : List (String × Json)} : ∀ {before is : List (String × Outline.Instance)},
    (Assoc.keys before ++ Assoc.keys ms).Nodup →
    ((∃ warnings, readInstances strict scopes owner ms before = .ok (is, warnings)) ↔
      ∃ more, is = before ++ more ∧ InstanceNodes strict (signature? scopes) ms more) := by
  induction ms with
  | nil =>
    intro before is _
    constructor
    · rintro ⟨_, h⟩
      cases h
      exact ⟨[], by simp, .nil⟩
    · rintro ⟨more, rfl, h⟩
      cases h
      exact ⟨[], by simp; rfl⟩
  | cons m rest ih =>
    obtain ⟨name, node⟩ := m
    intro before is nodup
    have fresh : name ∉ Assoc.keys before := fun h =>
      (List.nodup_append.1 nodup).2.2 name h name List.mem_cons_self rfl
    have next (i : Outline.Instance) := @ih (before ++ [(name, i)]) is (by simpa using nodup)
    constructor
    · rintro ⟨_, h⟩
      obtain ⟨⟨first, _⟩, h₁, h⟩ := bind_eq_ok_iff.1 h
      obtain ⟨⟨all, _⟩, h₂, h⟩ := bind_eq_ok_iff.1 h
      cases h
      obtain ⟨i, rfl, other, -, said⟩ := readInstance_eq_ok_iff.1 ⟨_, h₁⟩
      obtain ⟨more, rfl, rest⟩ := (next i).1 ⟨_, h₂⟩
      exact ⟨(name, i) :: more, by simp, .cons ⟨rfl, other, said⟩ rest⟩
    · rintro ⟨more, rfl, h⟩
      cases h with
      | @cons _ e _ more he said =>
      obtain ⟨_, i⟩ := e
      obtain ⟨rfl, other, saidFirst⟩ := he
      obtain ⟨w₁, h₁⟩ := readInstance_eq_ok_iff.2 ⟨i, rfl, other, fresh, saidFirst⟩
      obtain ⟨w₂, h₂⟩ := (next i).2 ⟨more, by simp, said⟩
      exact ⟨w₁ ++ w₂, bind_eq_ok_iff.2 ⟨_, h₁, bind_eq_ok_iff.2 ⟨_, h₂, rfl⟩⟩⟩

/-! ## Connections -/

/-- The node of a path is the array of its words. -/
def pathToJson (path : List String) : Json := .array (path.map .string)

/-- A path that begins at one of these instances, or at the module itself. -/
def EndOf (instances : List String) (path : List String) : Prop :=
  root path ≠ "" ∧ (root path = selfWord ∨ root path ∈ instances)

/-- The node of a connection between ends that are there. -/
def ConnectionNode (instances : List String) (node : Json) (c : Outline.Connection) : Prop :=
  (node = .array [pathToJson c.first, pathToJson c.second] ∧ c.metadata = ∅ ∨
    node = .array [pathToJson c.first, pathToJson c.second, .null] ∧ c.metadata = ∅ ∨
    node = .array [pathToJson c.first, pathToJson c.second, c.metadata.toJson]) ∧
  EndOf instances c.first ∧ EndOf instances c.second

/-- Links, put in one after another. -/
def linkAll (links : List Outline.Connection) : List Outline.Connection :=
  links.foldl (fun cs c => link cs c.first c.second c.metadata) []

theorem readWords_eq_ok_iff {e : LoadError} {nodes : List Json} : ∀ {words : List String},
    readWords e nodes = .ok words ↔ nodes = words.map .string := by
  induction nodes with
  | nil =>
    intro words
    rw [readWords]
    constructor
    · intro h
      cases h
      rfl
    · intro h
      rw [List.map_eq_nil_iff.1 h.symm]
      rfl
  | cons node rest ih =>
    intro words
    cases node with
    | string word =>
      rw [readWords]
      constructor
      · intro h
        obtain ⟨more, hmore, h⟩ := bind_eq_ok_iff.1 h
        cases h
        rw [ih.1 hmore]
        rfl
      · intro h
        cases words with
        | nil => cases h
        | cons w ws =>
          cases h
          exact bind_eq_ok_iff.2 ⟨ws, ih.2 rfl, rfl⟩
    | null | bool | number | array | object =>
      constructor
      · intro h
        cases h
      · intro h
        cases words <;> cases h

theorem readWirePath_eq_ok_iff {node : Json} {what : String} {path : List String} :
    readWirePath node what = .ok path ↔ path ≠ [] ∧ node = pathToJson path := by
  constructor
  · intro h
    unfold readWirePath at h
    cases node with
    | array nodes =>
      obtain ⟨words, hwords, h⟩ := bind_eq_ok_iff.1 h
      cases words with
      | nil => cases h
      | cons => cases h; exact ⟨nofun, congrArg Json.array (readWords_eq_ok_iff.1 hwords)⟩
    | null | bool | number | string | object => cases h
  · rintro ⟨some, rfl⟩
    cases path with
    | nil => exact absurd rfl some
    | cons => exact bind_eq_ok_iff.2 ⟨_, readWords_eq_ok_iff.2 rfl, rfl⟩

theorem requireEnd_eq_ok_iff {owner : String} {is : List (String × Outline.Instance)}
    {path : List String} :
    requireEnd owner is path = .ok () ↔ EndOf (Assoc.keys is) path := by
  unfold requireEnd EndOf
  by_cases he : root path = ""
  · rw [if_pos he]
    exact ⟨nofun, fun h => absurd he h.1⟩
  · rw [if_neg he]
    by_cases hk : root path = selfWord ∨ root path ∈ Assoc.keys is
    · rw [if_pos hk]
      exact ⟨fun _ => ⟨he, hk⟩, fun _ => rfl⟩
    · rw [if_neg hk]
      exact ⟨nofun, fun h => absurd h.2 hk⟩

/-- An end has a first word. -/
theorem EndOf.ne_nil {instances path : List String} (h : EndOf instances path) : path ≠ [] := by
  rintro rfl
  exact h.1 rfl

theorem readConnection_eq_ok_iff {owner : String} {is : List (String × Outline.Instance)}
    {node : Json} {before cs : List Outline.Connection} :
    readConnection owner is node before = .ok cs ↔ ∃ c, ConnectionNode (Assoc.keys is) node c ∧
      cs = link before c.first c.second c.metadata := by
  constructor
  · intro h
    obtain ⟨⟨a, b, m⟩, hparts, h⟩ := bind_eq_ok_iff.1 h
    obtain ⟨first, ha, h⟩ := bind_eq_ok_iff.1 h
    obtain ⟨second, hb, h⟩ := bind_eq_ok_iff.1 h
    obtain ⟨md, hmd, h⟩ := bind_eq_ok_iff.1 h
    obtain ⟨_, hfirst, h⟩ := bind_eq_ok_iff.1 h
    obtain ⟨_, hsecond, h⟩ := bind_eq_ok_iff.1 h
    cases h
    obtain ⟨-, rfl⟩ := readWirePath_eq_ok_iff.1 ha
    obtain ⟨-, rfl⟩ := readWirePath_eq_ok_iff.1 hb
    refine ⟨⟨first, second, md⟩, ⟨?_, requireEnd_eq_ok_iff.1 hfirst, requireEnd_eq_ok_iff.1 hsecond⟩,
      rfl⟩
    have said := readMetadata_eq_ok_iff.1 hmd
    rcases connectionParts_eq_ok_iff.1 hparts with ⟨rfl, rfl⟩ | rfl
    · exact Or.inl ⟨rfl, (said.resolve_right nofun).2⟩
    · rcases said with ⟨rfl, rfl⟩ | rfl
      · exact Or.inr (Or.inl ⟨rfl, rfl⟩)
      · exact Or.inr (Or.inr rfl)
  · rintro ⟨⟨first, second, md⟩, ⟨said, hfirst, hsecond⟩, rfl⟩
    have parts : ∃ m, connectionParts node s!"connection in {owner}" =
        .ok (pathToJson first, pathToJson second, m) ∧ (m = .null ∧ md = ∅ ∨ m = md.toJson) := by
      rcases said with ⟨rfl, rfl⟩ | ⟨rfl, rfl⟩ | rfl
      · exact ⟨.null, connectionParts_eq_ok_iff.2 (Or.inl ⟨rfl, rfl⟩), Or.inl ⟨rfl, rfl⟩⟩
      · exact ⟨.null, connectionParts_eq_ok_iff.2 (Or.inr rfl), Or.inl ⟨rfl, rfl⟩⟩
      · exact ⟨_, connectionParts_eq_ok_iff.2 (Or.inr rfl), Or.inr rfl⟩
    obtain ⟨m, hparts, hmd⟩ := parts
    refine bind_eq_ok_iff.2 ⟨_, hparts, ?_⟩
    refine bind_eq_ok_iff.2 ⟨first, readWirePath_eq_ok_iff.2 ⟨hfirst.ne_nil, rfl⟩, ?_⟩
    refine bind_eq_ok_iff.2 ⟨second, readWirePath_eq_ok_iff.2 ⟨hsecond.ne_nil, rfl⟩, ?_⟩
    refine bind_eq_ok_iff.2 ⟨md, readMetadata_eq_ok_iff.2 hmd, ?_⟩
    refine bind_eq_ok_iff.2 ⟨(), requireEnd_eq_ok_iff.2 hfirst, ?_⟩
    exact bind_eq_ok_iff.2 ⟨(), requireEnd_eq_ok_iff.2 hsecond, rfl⟩

theorem readConnections_eq_ok_iff {owner : String} {is : List (String × Outline.Instance)}
    {nodes : List Json} : ∀ {before cs : List Outline.Connection},
    readConnections owner is nodes before = .ok cs ↔
      ∃ links, List.Forall₂ (ConnectionNode (Assoc.keys is)) nodes links ∧
        cs = links.foldl (fun cs c => link cs c.first c.second c.metadata) before := by
  induction nodes with
  | nil =>
    intro before cs
    constructor
    · intro h
      cases h
      exact ⟨[], .nil, rfl⟩
    · rintro ⟨links, h, rfl⟩
      cases h
      rfl
  | cons node rest ih =>
    intro before cs
    constructor
    · intro h
      obtain ⟨next, h₁, h⟩ := bind_eq_ok_iff.1 h
      obtain ⟨c, said, rfl⟩ := readConnection_eq_ok_iff.1 h₁
      obtain ⟨links, more, rfl⟩ := ih.1 h
      exact ⟨c :: links, .cons said more, rfl⟩
    · rintro ⟨links, h, rfl⟩
      cases h with
      | cons said more =>
        exact bind_eq_ok_iff.2 ⟨_, readConnection_eq_ok_iff.2 ⟨_, said, rfl⟩, ih.2 ⟨_, more, rfl⟩⟩

/-! ## Definitions -/

/-- The node of a definition. Its connections are the links that it lists, put together. -/
def DefinitionNode (strict : Bool) (env : Signatures) (node : Json) (x : Outline.Definition) :
    Prop :=
  ∃ ms entries nodes links, node = .object ms ∧
    Optionally ms "instances" .object [] entries ∧
    InstanceNodes strict env entries x.instances ∧
    Optionally ms "connections" .array [] nodes ∧
    List.Forall₂ (ConnectionNode (Assoc.keys x.instances)) nodes links ∧
    x.connections = linkAll links ∧
    Optionally ms "implementations" Metadata.toJson ∅ x.implementations ∧
    Optionally ms "metadata" Metadata.toJson ∅ x.metadata

theorem readInstancesOf_eq_ok_iff {strict : Bool} {scopes : Scopes} {owner : String}
    {ms : List (String × Json)} (wf : (Json.object ms).WellFormed)
    {is : List (String × Outline.Instance)} :
    (∃ warnings, readInstancesOf strict scopes owner ms = .ok (is, warnings)) ↔
      ∃ entries, Optionally ms "instances" .object [] entries ∧
        InstanceNodes strict (signature? scopes) entries is := by
  have reads : readInstancesOf strict scopes owner ms =
      (optional ms "instances").elim (readInstances strict scopes owner [] []) fun node =>
        members node s!"instances of {owner}" >>= (readInstances strict scopes owner · []) := by
    unfold readInstancesOf
    cases optional ms "instances" <;> rfl
  have all {entries : List (String × Json)} (h : Optionally ms "instances" .object [] entries) :=
    @readInstances_eq_ok_iff strict scopes owner entries [] is
      (Json.wellFormed_object_iff.1 (wellFormed_optionally wf h)).1
  simp only [reads,
    optionally_eq_ok_iff members_eq_ok_iff (readInstances strict scopes owner · [])]
  constructor
  · rintro ⟨warnings, entries, hentries, read⟩
    obtain ⟨_, rfl, said⟩ := (all hentries).1 ⟨warnings, read⟩
    exact ⟨entries, hentries, said⟩
  · rintro ⟨entries, hentries, said⟩
    obtain ⟨warnings, read⟩ := (all hentries).2 ⟨is, rfl, said⟩
    exact ⟨warnings, entries, hentries, read⟩

theorem readConnectionsOf_eq_ok_iff {owner : String} {is : List (String × Outline.Instance)}
    {ms : List (String × Json)} {cs : List Outline.Connection} :
    readConnectionsOf owner is ms = .ok cs ↔
      ∃ nodes links, Optionally ms "connections" .array [] nodes ∧
        List.Forall₂ (ConnectionNode (Assoc.keys is)) nodes links ∧ cs = linkAll links := by
  have reads : readConnectionsOf owner is ms =
      (optional ms "connections").elim (readConnections owner is [] []) fun node =>
        items node s!"connections of {owner}" >>= (readConnections owner is · []) := by
    unfold readConnectionsOf
    cases optional ms "connections" <;> rfl
  rw [reads, optionally_eq_ok_iff items_eq_ok_iff (readConnections owner is · [])]
  simp only [readConnections_eq_ok_iff]
  constructor
  · rintro ⟨nodes, hnodes, links, said⟩
    exact ⟨nodes, links, hnodes, said⟩
  · rintro ⟨nodes, links, hnodes, said⟩
    exact ⟨nodes, hnodes, links, said⟩

theorem readDefinition_eq_ok_iff {strict : Bool} {scopes : Scopes} {p : Pending}
    (wf : p.node.WellFormed) {x : Outline.Definition} :
    (∃ warnings, readDefinition strict scopes p = .ok (x, warnings)) ↔
      DefinitionNode strict (signature? scopes) p.node x := by
  constructor
  · rintro ⟨_, h⟩
    obtain ⟨ms, hms, h⟩ := bind_eq_ok_iff.1 h
    obtain ⟨⟨is, _⟩, his, h⟩ := bind_eq_ok_iff.1 h
    obtain ⟨cs, hcs, h⟩ := bind_eq_ok_iff.1 h
    obtain ⟨implementations, hi, h⟩ := bind_eq_ok_iff.1 h
    obtain ⟨md, hmd, h⟩ := bind_eq_ok_iff.1 h
    cases h
    have hnode := members_eq_ok hms
    obtain ⟨entries, hentries, saidInstances⟩ := (readInstancesOf_eq_ok_iff (hnode ▸ wf)).1 ⟨_, his⟩
    obtain ⟨nodes, links, hnodes, saidLinks, rfl⟩ := readConnectionsOf_eq_ok_iff.1 hcs
    exact ⟨ms, entries, nodes, links, hnode, hentries, saidInstances, hnodes, saidLinks, rfl,
      readMetadata?_eq_ok_iff.1 hi, readMetadata?_eq_ok_iff.1 hmd⟩
  · obtain ⟨is, cs, implementations, md⟩ := x
    rintro ⟨ms, entries, nodes, links, hnode, hentries, saidInstances, hnodes, saidLinks, rfl, hi, hmd⟩
    obtain ⟨w, his⟩ := (@readInstancesOf_eq_ok_iff strict scopes (p.scope ++ "." ++ p.name) ms
      (hnode ▸ wf) is).2 ⟨entries, hentries, saidInstances⟩
    refine ⟨w, bind_eq_ok_iff.2 ⟨ms, members_eq_ok_iff.2 hnode, ?_⟩⟩
    refine bind_eq_ok_iff.2 ⟨_, his, ?_⟩
    refine bind_eq_ok_iff.2
      ⟨_, readConnectionsOf_eq_ok_iff.2 ⟨nodes, links, hnodes, saidLinks, rfl⟩, ?_⟩
    refine bind_eq_ok_iff.2 ⟨_, readMetadata?_eq_ok_iff.2 hi, ?_⟩
    exact bind_eq_ok_iff.2 ⟨_, readMetadata?_eq_ok_iff.2 hmd, rfl⟩

end Netlist.Plain
