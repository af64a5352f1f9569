-- What a whole document says. Its two passes are put together here: what the first one
-- declares without definitions, and the definitions that the second one reads, make the
-- namespaces that the document lists.
import Netlist.Proofs.Nodes.Declarations

namespace Netlist.Plain

open Document Outline.Namespace

/-! ## Namespaces without definitions -/

def bareModules (ms : List (String × Outline.Module)) : List (String × Outline.Module) :=
  ms.map fun e => (e.1, { e.2 with definition := none })

/-- The namespace as it is when its modules are only declared. -/
def bare (ns : Outline.Namespace) : Outline.Namespace :=
  { ns with modules := bareModules ns.modules }

def bareAll (nss : Scopes) : Scopes := nss.map fun n => (n.1, bare n.2)

/-- The definitions of the modules, each by namespace and name. -/
def bodies (scope : String) (ms : List (String × Outline.Module)) :
    List ((String × String) × Outline.Definition) :=
  ms.filterMap fun e => e.2.definition.map ((scope, e.1), ·)

def bodiesOf (nss : Scopes) : List ((String × String) × Outline.Definition) :=
  nss.flatMap fun n => bodies n.1 n.2.modules

/-- The namespaces with these definitions for their modules. -/
def defineEach (bs : List ((String × String) × Outline.Definition)) (scopes : Scopes) : Scopes :=
  bs.foldl (fun acc b => define b.1.1 b.1.2 b.2 acc) scopes

theorem bareModules_cons (name : String) (m : Outline.Module) (ms : List (String × Outline.Module)) :
    bareModules ((name, m) :: ms) = (name, { m with definition := none }) :: bareModules ms := rfl

theorem keys_bareModules (ms : List (String × Outline.Module)) :
    Assoc.keys (bareModules ms) = Assoc.keys ms := by
  rw [bareModules, Assoc.keys, List.map_map]
  rfl

theorem names_bare (ns : Outline.Namespace) : (bare ns).names = ns.names := by
  rw [names, names, bare, keys_bareModules]

section

variable {scope name : String} {m : Outline.Module} {ms : List (String × Outline.Module)}

theorem bodies_cons_of_none (h : m.definition = none) :
    bodies scope ((name, m) :: ms) = bodies scope ms := by
  rw [bodies, List.filterMap_cons, h]
  rfl

theorem bodies_cons_of_some {x : Outline.Definition} (h : m.definition = some x) :
    bodies scope ((name, m) :: ms) = ((scope, name), x) :: bodies scope ms := by
  rw [bodies, List.filterMap_cons, h]
  rfl

end

/-! ## Definitions for namespaces -/

/-- The namespace with a definition for a module. -/
def defineIn (name : String) (x : Outline.Definition) (ns : Outline.Namespace) :
    Outline.Namespace :=
  { ns with modules := Assoc.modify name (fun m => { m with definition := some x }) ns.modules }

/-- The namespace with these definitions for its modules. -/
def defineIns (bs : List ((String × String) × Outline.Definition)) (ns : Outline.Namespace) :
    Outline.Namespace :=
  bs.foldl (fun ns b => defineIn b.1.2 b.2 ns) ns

theorem define_eq (scope name : String) (x : Outline.Definition) (scopes : Scopes) :
    define scope name x scopes = Assoc.modify scope (defineIn name x) scopes := rfl

theorem defineAll_eq {ps : List Pending} {bs : List ((String × String) × Outline.Definition)}
    (h : List.Forall₂ (fun p b => b.1 = (p.scope, p.name)) ps bs) (scopes : Scopes) :
    defineAll ps (bs.map (·.2)) scopes = defineEach bs scopes := by
  induction h generalizing scopes with
  | nil => rfl
  | @cons p b ps bs hb _ ih =>
    obtain ⟨⟨scope, name⟩, x⟩ := b
    cases hb
    exact ih _

/-- The definitions of one namespace change nothing but this namespace. -/
theorem defineEach_bodies (scope : String) (ms : List (String × Outline.Module)) (scopes : Scopes) :
    defineEach (bodies scope ms) scopes =
      Assoc.modify scope (defineIns (bodies scope ms)) scopes := by
  induction ms generalizing scopes with
  | nil => exact (Assoc.modify_id scope scopes).symm
  | cons e rest ih =>
    obtain ⟨name, m⟩ := e
    cases hx : m.definition with
    | none =>
      rw [bodies_cons_of_none hx, ih]
    | some x =>
      have first : defineEach (((scope, name), x) :: bodies scope rest) scopes =
        defineEach (bodies scope rest) (define scope name x scopes) := rfl
      rw [bodies_cons_of_some hx, first, ih, define_eq, Assoc.modify_modify]
      rfl

/-- The definitions of the modules are put where they were left out, after other modules. -/
theorem defineIns_bodies (scope : String) {ms old : List (String × Outline.Module)}
    (gs : List (String × Outline.Generator)) (nodup : (Assoc.keys ms).Nodup)
    (apart : ∀ name ∈ Assoc.keys ms, name ∉ Assoc.keys old) :
    defineIns (bodies scope ms) ⟨old ++ bareModules ms, gs⟩ = ⟨old ++ ms, gs⟩ := by
  induction ms generalizing old with
  | nil => rfl
  | cons e rest ih =>
    obtain ⟨name, m⟩ := e
    obtain ⟨new, nodup⟩ := List.nodup_cons.1 nodup
    obtain ⟨before, apart⟩ := List.forall_mem_cons.1 apart
    have next := @ih (old ++ [(name, m)]) nodup fun k hk => by
      have other : k ≠ name := fun h => new (h ▸ hk)
      simpa [other] using apart k hk
    rw [List.append_assoc, List.append_assoc, List.singleton_append, List.singleton_append] at next
    rw [bareModules_cons]
    cases hx : m.definition with
    | none =>
      have same : ({ m with definition := none } : Outline.Module) = m := by rw [← hx]
      rw [bodies_cons_of_none hx, same, next]
    | some x =>
      have after : name ∉ Assoc.keys (bareModules rest) := by
        rw [keys_bareModules]
        exact new
      have here : defineIn name x ⟨old ++ (name, { m with definition := none }) ::
          bareModules rest, gs⟩ = ⟨old ++ (name, m) :: bareModules rest, gs⟩ := by
        have same : ({ m with definition := some x } : Outline.Module) = m := by rw [← hx]
        rw [defineIn]
        dsimp only
        rw [Assoc.modify_append, Assoc.modify_of_not_mem _ before, Assoc.modify_cons,
          Assoc.modify_of_not_mem _ after, if_pos rfl, same]
      rw [bodies_cons_of_some hx, defineIns, List.foldl_cons, here]
      exact next

/-! ## Definitions for everything that a document declares -/

theorem define_join {scope k : String} (h : scope ≠ k) (name : String) (x : Outline.Definition)
    (scopes : Scopes) (more : Outline.Namespace) :
    define scope name x (join scopes k more) = join (define scope name x scopes) k more := by
  have same : scopeOf (define scope name x scopes) k = scopeOf scopes k := by
    rw [scopeOf, define_eq, Assoc.get?_modify, if_neg h]
    rfl
  rw [join, join, same, define_eq, Assoc.modify_set_of_ne _ _ _ h]
  rfl

theorem defineEach_join_of_ne {scope k : String} (h : scope ≠ k)
    (ms : List (String × Outline.Module)) (scopes : Scopes) (more : Outline.Namespace) :
    defineEach (bodies scope ms) (join scopes k more) =
      join (defineEach (bodies scope ms) scopes) k more := by
  induction ms generalizing scopes with
  | nil => rfl
  | cons e ms ih =>
    obtain ⟨name, m⟩ := e
    cases hx : m.definition with
    | none => rw [bodies_cons_of_none hx, ih]
    | some x =>
      have step (acc : Scopes) : defineEach (((scope, name), x) :: bodies scope ms) acc =
        defineEach (bodies scope ms) (define scope name x acc) := rfl
      rw [bodies_cons_of_some hx, step, step, define_join h, ih]

/-- Definitions in one namespace do not mind what other namespaces are declared. -/
theorem defineEach_extend {scope : String} (ms : List (String × Outline.Module)) {nss : Scopes}
    (h : scope ∉ Assoc.keys nss) (scopes : Scopes) :
    defineEach (bodies scope ms) (extend scopes nss) =
      extend (defineEach (bodies scope ms) scopes) nss := by
  induction nss generalizing scopes with
  | nil => rfl
  | cons n rest ih =>
    obtain ⟨k, more⟩ := n
    rw [Assoc.keys, List.map_cons, List.mem_cons, not_or] at h
    exact (ih h.2 (join scopes k more)).trans
      (congrArg (extend · rest) (defineEach_join_of_ne h.1 ms scopes more))

theorem nodup_keys_join {scopes : Scopes} (h : (Assoc.keys scopes).Nodup) (name : String)
    (more : Outline.Namespace) : (Assoc.keys (join scopes name more)).Nodup :=
  Assoc.nodup_keys_set _ _ h

/-- To declare modules and then to define them is to declare them with their definitions. -/
theorem defineEach_join {scopes : Scopes} (nodup : (Assoc.keys scopes).Nodup) {scope : String}
    {more : Outline.Namespace} (fresh : (scopeOf scopes scope).Fresh more) :
    defineEach (bodies scope more.modules) (join scopes scope (bare more)) =
      join scopes scope more := by
  have different : (Assoc.keys more.modules).Nodup := (List.nodup_append.1 fresh.1).1
  have apart : ∀ name ∈ Assoc.keys more.modules,
      name ∉ Assoc.keys (scopeOf scopes scope).modules := fun name hn hold =>
    fresh.2 name (List.mem_append_left _ hn) (List.mem_append_left _ hold)
  rw [defineEach_bodies, join, Assoc.modify_set _ _ nodup]
  exact congrArg (Assoc.set scope · scopes) (defineIns_bodies scope _ different apart)

/-- The same for everything that a document declares. -/
theorem defineEach_bodiesOf {nss : Scopes} : ∀ {scopes : Scopes}, (Assoc.keys scopes).Nodup →
    (Assoc.keys nss).Nodup → (∀ n ∈ nss, (scopeOf scopes n.1).Fresh n.2) →
    defineEach (bodiesOf nss) (extend scopes (bareAll nss)) = extend scopes nss := by
  induction nss with
  | nil => intros; rfl
  | cons n rest ih =>
    obtain ⟨scope, more⟩ := n
    intro scopes nodup different fresh
    obtain ⟨new, different⟩ := List.nodup_cons.1 different
    obtain ⟨fresh, others⟩ := List.forall_mem_cons.1 fresh
    have split : defineEach (bodiesOf ((scope, more) :: rest)) =
        fun acc => defineEach (bodiesOf rest) (defineEach (bodies scope more.modules) acc) := by
      funext acc
      rw [bodiesOf, List.flatMap_cons, defineEach, List.foldl_append]
      rfl
    have new' : scope ∉ Assoc.keys (bareAll rest) := by
      rw [bareAll, Assoc.keys, List.map_map]
      exact new
    have first : extend scopes (bareAll ((scope, more) :: rest)) =
      extend (join scopes scope (bare more)) (bareAll rest) := rfl
    rw [split, first]
    dsimp only
    rw [defineEach_extend _ new', defineEach_join nodup fresh]
    refine ih (nodup_keys_join nodup scope more) different fun n hn => ?_
    have other : scope ≠ n.1 := by
      rintro rfl
      exact new (List.mem_map_of_mem (f := (·.1)) hn)
    rw [scopeOf_join, if_neg other]
    exact others n hn

/-! ## Signatures -/

theorem symbolIn?_defineIn (name : String) (x : Outline.Definition) (ns : Outline.Namespace)
    (k : String) : (symbolIn? (defineIn name x ns) k).map Symbol.signature =
      (symbolIn? ns k).map Symbol.signature := by
  unfold symbolIn? defineIn
  dsimp only
  rw [Assoc.get?_modify]
  by_cases h : name = k
  · rw [if_pos h]
    cases Assoc.get? k ns.modules <;> rfl
  · rw [if_neg h]

theorem signature?_define (scope name : String) (x : Outline.Definition) (scopes : Scopes) :
    signature? (define scope name x scopes) = signature? scopes := by
  funext target
  unfold signature? symbol?
  rw [define_eq, Assoc.get?_modify]
  split
  · cases Assoc.get? target.1 scopes with
    | none => rfl
    | some ns => exact symbolIn?_defineIn name x ns target.2
  · rfl

theorem signature?_defineEach (bs : List ((String × String) × Outline.Definition))
    (scopes : Scopes) : signature? (defineEach bs scopes) = signature? scopes := by
  induction bs generalizing scopes with
  | nil => rfl
  | cons b rest ih => exact (ih _).trans (signature?_define _ _ _ scopes)

/-- Signatures do not depend on the definitions. -/
theorem signature?_extend_bareAll {scopes nss : Scopes} (nodup : (Assoc.keys scopes).Nodup)
    (different : (Assoc.keys nss).Nodup) (fresh : ∀ n ∈ nss, (scopeOf scopes n.1).Fresh n.2) :
    signature? (extend scopes (bareAll nss)) = signature? (extend scopes nss) := by
  rw [← defineEach_bodiesOf nodup different fresh, signature?_defineEach]

theorem fresh_bareAll_iff {scopes nss : Scopes} :
    (∀ n ∈ bareAll nss, (scopeOf scopes n.1).Fresh n.2) ↔
      ∀ n ∈ nss, (scopeOf scopes n.1).Fresh n.2 := by
  rw [bareAll, List.forall_mem_map]
  simp only [Fresh, names_bare]

/-! ## What is pending -/

/-- The definition is the one that a pending node says. -/
def Says (strict : Bool) (env : Signatures) (p : Pending)
    (b : (String × String) × Outline.Definition) : Prop :=
  b.1 = (p.scope, p.name) ∧ DefinitionNode strict env p.node b.2

section

variable {strict : Bool} {env : Signatures}

theorem ModuleNode.unread {body : Body} {node : Json} {m : Outline.Module}
    (h : ModuleNode body node m) : ModuleNode unread node { m with definition := none } := by
  obtain ⟨ms, hnode, type, sound, params, metadata, -⟩ := h
  exact ⟨ms, hnode, type, sound, params, metadata, rfl⟩

/-- Modules with their definitions are modules, and definitions for what is pending. -/
theorem Entries.pending {ms : List (String × Json)} {xs : List (String × Outline.Module)}
    (h : Entries (ModuleNode (defined strict env)) ms xs) (scope : String) :
    Entries (ModuleNode unread) ms (bareModules xs) ∧
      List.Forall₂ (Says strict env) (pendingModules scope ms) (bodies scope xs) := by
  induction h with
  | nil => exact ⟨.nil, .nil⟩
  | @cons m e ms xs said _ ih =>
    obtain ⟨name, node⟩ := m
    obtain ⟨_, x⟩ := e
    obtain ⟨rfl, said⟩ := said
    refine ⟨.cons ⟨rfl, said.unread⟩ ih.1, ?_⟩
    obtain ⟨ns, rfl, -, -, -, -, body⟩ := said
    rw [pendingModules, List.filterMap_cons, Json.entries]
    dsimp only
    cases hd : x.definition with
    | none =>
      rw [hd] at body
      rw [bodies_cons_of_none hd]
      cases hn : optional ns "def" with
      | none => exact ih.2
      | some => rw [hn] at body; cases body
    | some d =>
      rw [hd] at body
      rw [bodies_cons_of_some hd]
      cases hn : optional ns "def" with
      | none => rw [hn] at body; cases body
      | some =>
        rw [hn] at body
        cases body with
        | some body => exact .cons ⟨rfl, body⟩ ih.2

/-- Modules without definitions get the definitions that were pending. -/
theorem Entries.exists_defined {scope : String} {ms : List (String × Json)} :
    ∀ {xs : List (String × Outline.Module)} {ds : List Outline.Definition},
    Entries (ModuleNode unread) ms xs →
    List.Forall₂ (fun p d => DefinitionNode strict env p.node d) (pendingModules scope ms) ds →
    ∃ ys, Entries (ModuleNode (defined strict env)) ms ys ∧ bareModules ys = xs ∧
      (bodies scope ys).map (·.2) = ds := by
  induction ms with
  | nil =>
    intro xs ds h hd
    cases h
    cases hd
    exact ⟨[], .nil, rfl, rfl⟩
  | cons m rest ih =>
    obtain ⟨name, node⟩ := m
    intro xs ds h hd
    obtain ⟨x, xs, ⟨ns, rfl, type, sound, params, metadata, body⟩, more, rfl⟩ := Entries.cons_iff.1 h
    have bare : ({ x with definition := none } : Outline.Module) = x := by rw [← body]
    rw [pendingModules, List.filterMap_cons, Json.entries] at hd
    dsimp only at hd
    cases hn : optional ns "def" with
    | none =>
      rw [hn] at hd
      obtain ⟨ys, said, same, others⟩ := ih more hd
      refine ⟨(name, x) :: ys, .cons ⟨rfl, ns, rfl, type, sound, params, metadata, ?_⟩ said, ?_, ?_⟩
      · rw [hn, body]
        exact .none
      · rw [bareModules_cons, bare, same]
      · rw [bodies_cons_of_none body, others]
    | some v =>
      rw [hn] at hd
      cases hd with
      | @cons _ d _ ds here hd =>
      obtain ⟨ys, said, same, others⟩ := ih more hd
      refine ⟨(name, { x with definition := some d }) :: ys,
        .cons ⟨rfl, ns, rfl, type, sound, params, metadata, ?_⟩ said, ?_, ?_⟩
      · rw [hn]
        exact .some here
      · rw [bareModules_cons, bare, same]
      · rw [bodies_cons_of_some rfl, List.map_cons, others]

theorem NamespaceNode.pending {node : Json} {ns : Outline.Namespace}
    (h : NamespaceNode (defined strict env) node ns) (scope : String) :
    NamespaceNode unread node (bare ns) ∧
      List.Forall₂ (Says strict env) (pendingModules scope (node.entry "modules").entries)
        (bodies scope ns.modules) := by
  obtain ⟨xs, gs⟩ := ns
  rcases h with ⟨rfl, same⟩ | ⟨ms, es, es', rfl, hes, hes', modules, generators⟩
  · cases same
    exact ⟨Or.inl ⟨rfl, rfl⟩, .nil⟩
  · obtain ⟨declared, read⟩ := modules.pending scope
    rw [entries_of_optionally hes]
    exact ⟨Or.inr ⟨ms, es, es', rfl, hes, hes', declared, generators⟩, read⟩

theorem NamespaceNode.exists_defined {scope : String} {node : Json} {ns : Outline.Namespace}
    {ds : List Outline.Definition} (h : NamespaceNode unread node ns)
    (hd : List.Forall₂ (fun p d => DefinitionNode strict env p.node d)
      (pendingModules scope (node.entry "modules").entries) ds) :
    ∃ ns', NamespaceNode (defined strict env) node ns' ∧ bare ns' = ns ∧
      (bodies scope ns'.modules).map (·.2) = ds := by
  rcases h with ⟨rfl, rfl⟩ | ⟨ms, es, es', rfl, hes, hes', modules, generators⟩
  · cases hd
    exact ⟨_, Or.inl ⟨rfl, rfl⟩, rfl, rfl⟩
  · rw [entries_of_optionally hes] at hd
    obtain ⟨ys, said, same, others⟩ := modules.exists_defined hd
    exact ⟨⟨ys, ns.generators⟩, Or.inr ⟨ms, es, es', rfl, hes, hes', said, generators⟩,
      by rw [bare, same], others⟩

theorem exists_of_forall₂_append {α β : Type} {R : α → β → Prop} {l₁ l₂ : List α} {l : List β}
    (h : List.Forall₂ R (l₁ ++ l₂) l) :
    ∃ r₁ r₂, List.Forall₂ R l₁ r₁ ∧ List.Forall₂ R l₂ r₂ ∧ l = r₁ ++ r₂ := by
  induction l₁ generalizing l with
  | nil => exact ⟨[], l, .nil, h, rfl⟩
  | cons a rest ih =>
    cases h with
    | cons here more =>
      obtain ⟨r₁, r₂, h₁, h₂, rfl⟩ := ih more
      exact ⟨_, r₂, .cons here h₁, h₂, rfl⟩

/-- Namespaces with their definitions are namespaces, and definitions for what is pending. -/
theorem Entries.pendingNodes {nodes : List (String × Json)} {nss : Scopes}
    (h : Entries (NamespaceNode (defined strict env)) nodes nss) :
    Entries (NamespaceNode unread) nodes (bareAll nss) ∧
      List.Forall₂ (Says strict env) (pendingNodes nodes) (bodiesOf nss) := by
  induction h with
  | nil => exact ⟨.nil, .nil⟩
  | @cons n e nodes nss said _ ih =>
    obtain ⟨name, node⟩ := n
    obtain ⟨_, ns⟩ := e
    obtain ⟨rfl, said⟩ := said
    obtain ⟨declared, read⟩ := said.pending _
    exact ⟨.cons ⟨rfl, declared⟩ ih.1, List.rel_append read ih.2⟩

theorem Entries.exists_allDefined {nodes : List (String × Json)} :
    ∀ {nss : Scopes} {ds : List Outline.Definition}, Entries (NamespaceNode unread) nodes nss →
    List.Forall₂ (fun p d => DefinitionNode strict env p.node d) (Plain.pendingNodes nodes) ds →
    ∃ nss', Entries (NamespaceNode (defined strict env)) nodes nss' ∧ bareAll nss' = nss ∧
      (bodiesOf nss').map (·.2) = ds := by
  induction nodes with
  | nil =>
    intro nss ds h hd
    cases h
    cases hd
    exact ⟨[], .nil, rfl, rfl⟩
  | cons n rest ih =>
    obtain ⟨name, node⟩ := n
    intro nss ds h hd
    obtain ⟨ns, nss, said, more, rfl⟩ := Entries.cons_iff.1 h
    rw [Plain.pendingNodes, List.flatMap_cons] at hd
    obtain ⟨ds₁, ds₂, here, others, rfl⟩ := exists_of_forall₂_append hd
    obtain ⟨ns', said', same, read⟩ := said.exists_defined here
    obtain ⟨nss', saidRest, sameRest, readRest⟩ := ih more others
    refine ⟨(name, ns') :: nss', .cons ⟨rfl, said'⟩ saidRest, ?_, ?_⟩
    · rw [bareAll, List.map_cons, same, ← sameRest]
      rfl
    · rw [bodiesOf, List.flatMap_cons, List.map_append, read, ← readRest]
      rfl

end

/-- What is declared gets the definitions that were pending. -/
theorem Entries.defineAll_eq {scopes nss : Scopes} (nodup : (Assoc.keys scopes).Nodup)
    {strict : Bool} {env : Signatures} {nodes : List (String × Json)}
    (said : Entries (NamespaceNode (defined strict env)) nodes nss)
    (different : (Assoc.keys nss).Nodup) (fresh : ∀ n ∈ nss, (scopeOf scopes n.1).Fresh n.2) :
    defineAll (Plain.pendingNodes nodes) ((bodiesOf nss).map (·.2)) (extend scopes (bareAll nss)) =
      extend scopes nss :=
  (Plain.defineAll_eq (said.pendingNodes.2.imp fun _ _ h => h.1) _).trans
    (defineEach_bodiesOf nodup different fresh)

/-! ## The document -/

/-- A document and the outline that it makes of these namespaces. The signatures that its
definitions refer to are those of the outline itself. -/
def DocumentNode (strict : Bool) (scopes : Scopes) (doc : Json) (o : Outline) : Prop :=
  ∃ ms nodes nss ps, doc = .object ms ∧
    Assoc.get? "top" ms = some (.array [.string o.top.1, .string o.top.2]) ∧
    Assoc.get? "namespaces" ms = some (.object nodes) ∧
    Entries (NamespaceNode (defined strict (signature? o.namespaces))) nodes nss ∧
    (∀ n ∈ nss, (scopeOf scopes n.1).Fresh n.2) ∧ o.namespaces = extend scopes nss ∧
    signature? o.namespaces o.top = some (.module, ps)

theorem readDefinitions_eq_ok_iff {strict : Bool} {scopes : Scopes} {ps : List Pending} :
    ∀ {ds : List Outline.Definition}, (∀ p ∈ ps, p.node.WellFormed) →
    ((∃ warnings, readDefinitions strict scopes ps = .ok (ds, warnings)) ↔
      List.Forall₂ (fun p d => DefinitionNode strict (signature? scopes) p.node d) ps ds) := by
  induction ps with
  | nil =>
    intro ds _
    constructor
    · rintro ⟨_, h⟩
      cases h
      exact .nil
    · intro h
      cases h
      exact ⟨[], rfl⟩
  | cons p rest ih =>
    intro ds wf
    obtain ⟨first, others⟩ := List.forall_mem_cons.1 wf
    constructor
    · rintro ⟨_, h⟩
      obtain ⟨⟨d, _⟩, h₁, h⟩ := bind_eq_ok_iff.1 h
      obtain ⟨⟨ds, _⟩, h₂, h⟩ := bind_eq_ok_iff.1 h
      cases h
      exact .cons ((readDefinition_eq_ok_iff first).1 ⟨_, h₁⟩) ((ih others).1 ⟨_, h₂⟩)
    · intro h
      cases h with
      | cons here more =>
        obtain ⟨w₁, h₁⟩ := (readDefinition_eq_ok_iff first).2 here
        obtain ⟨w₂, h₂⟩ := (ih others).2 more
        exact ⟨w₁ ++ w₂, bind_eq_ok_iff.2 ⟨_, h₁, bind_eq_ok_iff.2 ⟨_, h₂, rfl⟩⟩⟩

theorem requireTop_eq_ok_iff {scopes : Scopes} {scope name : String} :
    requireTop scopes scope name = .ok () ↔
      ∃ ps, signature? scopes (scope, name) = some (.module, ps) := by
  unfold requireTop requireSymbol signature?
  cases symbol? scopes scope name with
  | none => exact ⟨nofun, nofun⟩
  | some s =>
    cases s with
    | module m => exact ⟨fun _ => ⟨m.params, rfl⟩, fun _ => rfl⟩
    | generator g => exact ⟨nofun, nofun⟩

theorem wellFormed_entry {node : Json} (wf : node.WellFormed) (key : String) :
    (node.entry key).WellFormed := by
  unfold Json.entry
  cases h : Assoc.get? key node.entries with
  | none => trivial
  | some v =>
    cases node with
    | object ms => exact wf.member h
    | null | bool | number | string | array => cases h

theorem wellFormed_entries {node : Json} (wf : node.WellFormed) {m : String × Json}
    (hm : m ∈ node.entries) : m.2.WellFormed := by
  cases node with
  | object ms => exact (Json.wellFormed_object_iff.1 wf).2 m hm
  | null | bool | number | string | array => cases hm

theorem wellFormed_pendingNodes {nodes : List (String × Json)}
    (wf : (Json.object nodes).WellFormed) : ∀ p ∈ pendingNodes nodes, p.node.WellFormed := by
  intro p hp
  obtain ⟨n, hn, m, hm, rfl, -⟩ := exists_of_mem_pendingNodes hp
  have wfNode := (Json.wellFormed_object_iff.1 wf).2 n hn
  exact wellFormed_entry (wellFormed_entries (wellFormed_entry wfNode "modules") hm) "def"

/-- What both passes read: everything that is declared, with a definition for all that is
pending. -/
theorem passes_eq_ok_iff {strict : Bool} {nodes : List (String × Json)}
    (wf : (Json.object nodes).WellFormed) {scopes now : Scopes} (nodup : (Assoc.keys scopes).Nodup)
    {ps : List Pending} {ds : List Outline.Definition} :
    (declareNamespaces nodes scopes = .ok (now, ps) ∧
      ∃ warnings, readDefinitions strict now ps = .ok (ds, warnings)) ↔
    ∃ nss, Entries (NamespaceNode (defined strict (signature? (extend scopes nss)))) nodes nss ∧
      (∀ n ∈ nss, (scopeOf scopes n.1).Fresh n.2) ∧ now = extend scopes (bareAll nss) ∧
      ps = pendingNodes nodes ∧ ds = (bodiesOf nss).map (·.2) := by
  have pendings := wellFormed_pendingNodes wf
  constructor
  · rintro ⟨hdecl, hds⟩
    obtain ⟨nss, declared, fresh, rfl, rfl⟩ := (declareNamespaces_eq_ok_iff wf).1 hdecl
    obtain ⟨nss, said, rfl, rfl⟩ :=
      declared.exists_allDefined ((readDefinitions_eq_ok_iff pendings).1 hds)
    have different : (Assoc.keys nss).Nodup := said.keys ▸ (Json.wellFormed_object_iff.1 wf).1
    have fresh := fresh_bareAll_iff.1 fresh
    rw [signature?_extend_bareAll nodup different fresh] at said
    exact ⟨nss, said, fresh, rfl, rfl, rfl⟩
  · rintro ⟨nss, said, fresh, rfl, rfl, rfl⟩
    have different : (Assoc.keys nss).Nodup := said.keys ▸ (Json.wellFormed_object_iff.1 wf).1
    obtain ⟨declared, pending⟩ := said.pendingNodes
    rw [← signature?_extend_bareAll nodup different fresh] at pending
    refine ⟨(declareNamespaces_eq_ok_iff wf).2
      ⟨_, declared, fresh_bareAll_iff.2 fresh, rfl, rfl⟩, ?_⟩
    exact (readDefinitions_eq_ok_iff pendings).2
      (List.forall₂_map_right_iff.2 (pending.imp fun _ _ h => h.2))

theorem read_eq_ok_iff {strict : Bool} {doc : Json} (wf : doc.WellFormed) {scopes : Scopes}
    (nodup : (Assoc.keys scopes).Nodup) {o : Outline} :
    (∃ warnings, read strict doc scopes = .ok (o, warnings)) ↔ DocumentNode strict scopes doc o := by
  constructor
  · rintro ⟨_, h⟩
    obtain ⟨ms, hms, h⟩ := bind_eq_ok_iff.1 h
    obtain ⟨v, hv, h⟩ := bind_eq_ok_iff.1 h
    obtain ⟨⟨scope, name⟩, hpair, h⟩ := bind_eq_ok_iff.1 h
    obtain ⟨n, hn, h⟩ := bind_eq_ok_iff.1 h
    obtain ⟨nodes, hnodes, h⟩ := bind_eq_ok_iff.1 h
    obtain ⟨⟨_, _⟩, hdecl, h⟩ := bind_eq_ok_iff.1 h
    obtain ⟨⟨ds, _⟩, hds, h⟩ := bind_eq_ok_iff.1 h
    obtain ⟨_, top, h⟩ := bind_eq_ok_iff.1 h
    cases h
    obtain rfl := members_eq_ok hms
    obtain rfl := members_eq_ok hnodes
    rw [required_eq_ok_iff] at hv hn
    rw [symbolPair_eq_ok_iff] at hpair
    have wfNodes := wf.member hn
    obtain ⟨nss, said, fresh, rfl, rfl, rfl⟩ := (passes_eq_ok_iff wfNodes nodup).1 ⟨hdecl, _, hds⟩
    have different : (Assoc.keys nss).Nodup :=
      said.keys ▸ (Json.wellFormed_object_iff.1 wfNodes).1
    obtain ⟨ps, top⟩ := requireTop_eq_ok_iff.1 top
    rw [signature?_extend_bareAll nodup different fresh] at top
    rw [said.defineAll_eq nodup different fresh]
    exact ⟨ms, nodes, nss, ps, rfl, hpair ▸ hv, hn, said, fresh, rfl, top⟩
  · obtain ⟨⟨scope, name⟩, namespaces⟩ := o
    rintro ⟨ms, nodes, nss, ps, rfl, hv, hn, said, fresh, rfl, top⟩
    dsimp only at said top
    have wfNodes := wf.member hn
    have different : (Assoc.keys nss).Nodup :=
      said.keys ▸ (Json.wellFormed_object_iff.1 wfNodes).1
    have filled := said.defineAll_eq nodup different fresh
    rw [← signature?_extend_bareAll nodup different fresh] at top
    obtain ⟨hdecl, w, hds⟩ :=
      (passes_eq_ok_iff wfNodes nodup).2 ⟨nss, said, fresh, rfl, rfl, rfl⟩
    refine ⟨w, bind_eq_ok_iff.2 ⟨ms, rfl, ?_⟩⟩
    refine bind_eq_ok_iff.2 ⟨_, required_eq_ok_iff.2 hv, ?_⟩
    refine bind_eq_ok_iff.2 ⟨_, symbolPair_eq_ok_iff.2 rfl, ?_⟩
    refine bind_eq_ok_iff.2 ⟨_, required_eq_ok_iff.2 hn, bind_eq_ok_iff.2 ⟨nodes, rfl, ?_⟩⟩
    refine bind_eq_ok_iff.2 ⟨_, hdecl, bind_eq_ok_iff.2 ⟨_, hds, ?_⟩⟩
    refine bind_eq_ok_iff.2 ⟨(), requireTop_eq_ok_iff.2 ⟨ps, top⟩, ?_⟩
    rw [filled]
    rfl

end Netlist.Plain
