-- A load succeeds exactly if the document is valid for the design that it is loaded into.
import Netlist.Proofs.FailedLoad
import Netlist.Proofs.Valid

namespace Netlist

/-! ## What names refer to -/

namespace Plain

theorem scopeOf_cons (name k : String) (ns : Outline.Namespace) (rest : Scopes) :
    scopeOf ((name, ns) :: rest) k = if name = k then ns else scopeOf rest k := by
  rw [scopeOf, Assoc.get?]
  split <;> rfl

theorem scopeOf_of_not_mem {scopes : Scopes} {k : String} (h : k ∉ Assoc.keys scopes) :
    scopeOf scopes k = ⟨[], []⟩ := by
  rw [scopeOf, Assoc.get?_eq_none_iff.2 h]
  rfl

/-- Each namespace has what was in it and what is declared in it. -/
theorem scopeOf_extend {nss : Scopes} (different : (Assoc.keys nss).Nodup) (scopes : Scopes)
    (k : String) : scopeOf (extend scopes nss) k = (scopeOf scopes k).append (scopeOf nss k) := by
  induction nss generalizing scopes with
  | nil => exact (Outline.Namespace.append_empty _).symm
  | cons n rest ih =>
    obtain ⟨name, more⟩ := n
    obtain ⟨new, different⟩ := List.nodup_cons.1 different
    have step : extend scopes ((name, more) :: rest) = extend (join scopes name more) rest := rfl
    rw [step, ih different, scopeOf_join, scopeOf_cons]
    by_cases hk : name = k
    · subst hk
      rw [if_pos rfl, if_pos rfl, scopeOf_of_not_mem new, Outline.Namespace.append_empty]
    · rw [if_neg hk, if_neg hk]

theorem keys_join (scopes : Scopes) (name : String) (more : Outline.Namespace) :
    Assoc.keys (join scopes name more) =
      if name ∈ Assoc.keys scopes then Assoc.keys scopes else Assoc.keys scopes ++ [name] :=
  Assoc.keys_set _ _ _

theorem keys_extend {nss : Scopes} (different : (Assoc.keys nss).Nodup) (scopes : Scopes) :
    Assoc.keys (extend scopes nss) =
      Assoc.keys scopes ++ (Assoc.keys nss).filter fun name => name ∉ Assoc.keys scopes := by
  induction nss generalizing scopes with
  | nil => simp [extend]
  | cons n rest ih =>
    obtain ⟨name, more⟩ := n
    obtain ⟨new, different⟩ := List.nodup_cons.1 different
    have step : extend scopes ((name, more) :: rest) = extend (join scopes name more) rest := rfl
    have names : Assoc.keys ((name, more) :: rest) = name :: Assoc.keys rest := rfl
    rw [step, ih different, keys_join, names]
    by_cases old : name ∈ Assoc.keys scopes
    · rw [if_pos old, List.filter_cons_of_neg (by simpa using old)]
    · have others : ∀ k ∈ Assoc.keys rest, k ≠ name := by
        rintro k hk rfl
        exact new hk
      rw [if_neg old, List.append_assoc, List.filter_cons_of_pos (by simpa using old)]
      refine congrArg (Assoc.keys scopes ++ name :: ·) (List.filter_congr fun k hk => ?_)
      simp only [List.mem_append, List.mem_singleton, others k hk, or_false]

theorem nodup_keys_extend (nss : Scopes) {scopes : Scopes} (h : (Assoc.keys scopes).Nodup) :
    (Assoc.keys (extend scopes nss)).Nodup := by
  induction nss generalizing scopes with
  | nil => exact h
  | cons n rest ih => exact ih (nodup_keys_join h n.1 n.2)

theorem scopeOf_of_mem {nss : Scopes} (h : (Assoc.keys nss).Nodup)
    {n : String × Outline.Namespace}
    (hn : n ∈ nss) : scopeOf nss n.1 = n.2 := by
  rw [scopeOf, (Assoc.get?_eq_some_iff h).2 hn]
  rfl

theorem symbol?_eq (scopes : Scopes) (scope name : String) :
    symbol? scopes scope name = symbolIn? (scopeOf scopes scope) name := by
  unfold symbol? scopeOf
  cases Assoc.get? scope scopes <;> rfl

/-- A name stands for a module if its namespace lists it among the modules. -/
theorem signature?_eq_module_iff {scopes : Scopes} {scope name : String}
    {params : List (String × ParamKind)} :
    signature? scopes (scope, name) = some (.module, params) ↔
      ∃ m, Assoc.get? name (scopeOf scopes scope).modules = some m ∧ params = m.params := by
  unfold signature? symbol? symbolIn? scopeOf
  cases hs : Assoc.get? scope scopes with
  | none =>
    constructor
    · nofun
    · rintro ⟨_, absent, -⟩
      cases absent
  | some ns =>
    rw [Option.bind_some, Option.getD_some]
    cases hm : Assoc.get? name ns.modules with
    | some m =>
      constructor
      · intro h
        cases h
        exact ⟨m, rfl, rfl⟩
      · rintro ⟨_, ⟨⟩, rfl⟩
        rfl
    | none =>
      constructor
      · intro h
        cases hg : Assoc.get? name ns.generators with
        | none => rw [hg] at h; cases h
        | some g => rw [hg] at h; cases h
      · rintro ⟨_, absent, -⟩
        cases absent

/-- A name stands for a generator if its namespace lists it among the generators only. -/
theorem signature?_eq_generator_iff {scopes : Scopes} {scope name : String}
    {params : List (String × ParamKind)} :
    signature? scopes (scope, name) = some (.generator, params) ↔
      Assoc.get? name (scopeOf scopes scope).modules = none ∧
        ∃ g, Assoc.get? name (scopeOf scopes scope).generators = some g ∧ params = g.params := by
  unfold signature?
  rw [symbol?_eq, symbolIn?]
  cases Assoc.get? name (scopeOf scopes scope).modules with
  | some m => simp [Symbol.signature, Symbol.kind]
  | none =>
    cases Assoc.get? name (scopeOf scopes scope).generators with
    | none => simp
    | some g => simp [Symbol.signature, Symbol.kind, Symbol.params, eq_comm]

end Plain

namespace Document

open Plain

/-- A node declares the parameters that it says. -/
theorem declared_eq {ms : List (String × Json)} {ps : List (String × ParamKind)}
    (params : Optionally ms "configparams" Outline.paramsToJson [] ps) :
    declared (.object ms) = ps := by
  have own (p : String × ParamKind) :
      ((Json.string p.2.text).asString?.bind ParamKind.ofText?).map (p.1, ·) = some p := by
    rw [Json.asString?, Option.bind_some, ParamKind.ofText?_eq_some_iff.2 rfl]
    rfl
  rw [declared]
  rcases entry_of_optionally params with ⟨null, empty⟩ | there
  · rw [null, empty]
    rfl
  · rw [there]
    refine (List.filterMap_map ..).trans ?_
    exact (List.filterMap_congr fun p _ => own p).trans List.filterMap_some

theorem ModuleNode.declared_eq {body : Body} {node : Json} {m : Outline.Module}
    (h : ModuleNode body node m) : declared node = m.params := by
  obtain ⟨ms, rfl, -, -, params, -⟩ := h
  exact Document.declared_eq params

theorem GeneratorNode.declared_eq {node : Json} {g : Outline.Generator}
    (h : GeneratorNode node g) : declared node = g.params := by
  obtain ⟨ms, rfl, -, params, -⟩ := h
  exact Document.declared_eq params

/-- What a name refers to among old entries and new ones that have nodes: an old one, or the one
that a node of this name declares. -/
theorem refers_append_iff {α : Type} {R : Json → α → Prop}
    {paramsOf : α → List (String × ParamKind)}
    (declares : ∀ node x, R node x → declared node = paramsOf x) {old new : List (String × α)}
    {name : String} {node : Option Json} (found : Option.Rel R node (Assoc.get? name new))
    (apart : name ∈ Assoc.keys new → name ∉ Assoc.keys old) {params : List (String × ParamKind)} :
    (∃ x, Assoc.get? name (old ++ new) = some x ∧ params = paramsOf x) ↔
      (∃ x, Assoc.get? name old = some x ∧ params = paramsOf x) ∨
        ∃ v, node = some v ∧ params = declared v := by
  rw [Assoc.get?_append]
  constructor
  · rintro ⟨x, hx, rfl⟩
    rcases Option.or_eq_some_iff.1 hx with old | ⟨-, new⟩
    · exact Or.inl ⟨x, old, rfl⟩
    · rw [new] at found
      cases found with
      | @some v _ said => exact Or.inr ⟨v, rfl, (declares _ _ said).symm⟩
  · rintro (⟨x, old, rfl⟩ | ⟨v, rfl, rfl⟩)
    · exact ⟨x, Option.or_eq_some_iff.2 (Or.inl old), rfl⟩
    · generalize hx : Assoc.get? name new = o at found
      cases found with
      | @some _ x said =>
        have listed := apart (Assoc.isSome_get?_iff.1 (Option.isSome_of_eq_some hx))
        refine ⟨x, Option.or_eq_some_iff.2 (Or.inr ⟨Assoc.get?_eq_none_iff.2 listed, rfl⟩), ?_⟩
        exact declares _ _ said

section

variable {scopes nss : Scopes} {nodes : List (String × Json)} {body : Body}

/-- What is declared in a namespace, and the nodes of it. -/
theorem entries_scopeOf (said : Entries (NamespaceNode body) nodes nss) (scope : String) :
    Entries (ModuleNode body) (((Json.object nodes).entry scope).entry "modules").entries
        (scopeOf nss scope).modules ∧
      Entries GeneratorNode (((Json.object nodes).entry scope).entry "generators").entries
        (scopeOf nss scope).generators := by
  have found := said.get? scope
  rw [entry_object, scopeOf]
  generalize Assoc.get? scope nodes = o at found
  generalize Assoc.get? scope nss = o' at found
  cases found with
  | none => exact ⟨.nil, .nil⟩
  | some said => exact said.entries

theorem fresh_scopeOf (fresh : ∀ n ∈ nss, (scopeOf scopes n.1).Fresh n.2) (scope : String) :
    (scopeOf scopes scope).Fresh (scopeOf nss scope) := by
  cases h : Assoc.get? scope nss with
  | none =>
    rw [scopeOf_of_not_mem (Assoc.get?_eq_none_iff.1 h)]
    exact Outline.Namespace.fresh_empty _
  | some ns =>
    have same : scopeOf nss scope = ns := by rw [scopeOf, h]; rfl
    rw [same]
    exact fresh (scope, ns) (Assoc.mem_of_get? h)

/-- In the namespaces with everything that a document declares, names refer to what was there
and to what the document declares. -/
theorem knows_extend {doc : Json} (listed : doc.entry "namespaces" = .object nodes)
    (said : Entries (NamespaceNode body) nodes nss) (different : (Assoc.keys nss).Nodup)
    (fresh : ∀ n ∈ nss, (scopeOf scopes n.1).Fresh n.2) :
    Knows scopes doc (signature? (extend scopes nss)) := by
  intro scope name params
  rw [signature?_eq_module_iff, scopeOf_extend different, Refers, listed]
  refine refers_append_iff (R := ModuleNode body) (fun _ _ => ModuleNode.declared_eq)
    ((entries_scopeOf said scope).1.get? name) ?_
  exact fun new old => (fresh_scopeOf fresh scope).2 name (List.mem_append_left _ new)
    (List.mem_append_left _ old)

/-! ## Valid documents are read -/

/-- The definition of a valid module says something if it is pending. -/
theorem exists_of_pending {strict : Bool} {doc : Json} {env : Signatures}
    (knows : Knows scopes doc env)
    (valid : ∀ n ∈ nodes, ValidNamespace scopes (ValidModule strict scopes doc) n.1 n.2)
    {p : Pending} (hp : p ∈ pendingNodes nodes) : ∃ d, DefinitionNode strict env p.node d := by
  obtain ⟨n, hn, m, hm, rfl, nonnull⟩ := exists_of_mem_pendingNodes hp
  have module := (valid n hn).modules_valid m hm
  exact (exists_definitionNode_iff knows).2 (module.definition.resolve_left nonnull)

/-- Namespaces that a document lists say something, if they are valid. -/
theorem exists_namespaces_iff {strict : Bool} {doc : Json}
    (listed : doc.entry "namespaces" = .object nodes) (wf : (Json.object nodes).WellFormed)
    (nodup : (Assoc.keys scopes).Nodup) :
    (∃ nss, Entries (NamespaceNode (defined strict (signature? (extend scopes nss)))) nodes nss ∧
      ∀ n ∈ nss, (scopeOf scopes n.1).Fresh n.2) ↔
    ∀ n ∈ nodes, ValidNamespace scopes (ValidModule strict scopes doc) n.1 n.2 := by
  have wfNode := (Json.wellFormed_object_iff.1 wf).2
  have different {body : Body} {nss : Scopes} (said : Entries (NamespaceNode body) nodes nss) :
      (Assoc.keys nss).Nodup := said.keys ▸ (Json.wellFormed_object_iff.1 wf).1
  constructor
  · rintro ⟨nss, said, fresh⟩ n hn
    have knows := knows_extend listed said (different said) fresh
    obtain ⟨e, he, same, saidNode⟩ := exists_of_forall₂ said hn
    exact (exists_namespaceNode_iff (exists_moduleNode_iff knows) (wfNode n hn)).1
      ⟨e.2, saidNode, same ▸ fresh e he⟩
  · intro valid
    -- First come the declarations alone: what names refer to depends on nothing else.
    obtain ⟨nss, declared⟩ := exists_forall₂ (R := fun (n : String × Json)
      (e : String × Outline.Namespace) => e.1 = n.1 ∧ NamespaceNode unread n.2 e.2 ∧
        (scopeOf scopes e.1).Fresh e.2) (l := nodes) fun n hn => by
          have interfaces := (valid n hn).mono ValidModule.toValidInterface
          obtain ⟨ns, said, fresh⟩ :=
            (exists_namespaceNode_iff exists_interface_iff (wfNode n hn)).2 interfaces
          exact ⟨(n.1, ns), rfl, said, fresh⟩
    have said : Entries (NamespaceNode unread) nodes nss := declared.imp fun _ _ h => ⟨h.1, h.2.1⟩
    have fresh : ∀ n ∈ nss, (scopeOf scopes n.1).Fresh n.2 := fun n hn => by
      obtain ⟨_, -, -, -, fresh⟩ := exists_of_forall₂ declared.flip hn
      exact fresh
    have knows := knows_extend listed said (different said) fresh
    obtain ⟨ds, pending⟩ := exists_forall₂ fun p hp => exists_of_pending knows valid hp
    obtain ⟨nss, said, rfl, -⟩ := said.exists_allDefined pending
    have fresh := fresh_bareAll_iff.1 fresh
    rw [signature?_extend_bareAll nodup (different said) fresh] at said
    exact ⟨nss, said, fresh⟩

theorem exists_documentNode_iff {strict : Bool} {doc : Json} (wf : doc.WellFormed)
    (nodup : (Assoc.keys scopes).Nodup) :
    (∃ o, DocumentNode strict scopes doc o) ↔ Valid strict scopes doc := by
  constructor
  · rintro ⟨⟨⟨scope, name⟩, namespaces⟩, ms, nodes, nss, ps, rfl, top, hn, said, fresh, rfl, signature⟩
    have wfNodes := wf.member hn
    have different : (Assoc.keys nss).Nodup :=
      said.keys ▸ (Json.wellFormed_object_iff.1 wfNodes).1
    have listed : (Json.object ms).entry "namespaces" = .object nodes := by
      rw [entry_object, hn]
      rfl
    have knows := knows_extend listed said different fresh
    refine ⟨⟨ms, rfl⟩, ⟨scope, name, ps, ?_, (knows _ _ _).1 signature⟩, ⟨nodes, listed⟩, ?_⟩
    · rw [entry_object, top]
      rfl
    · rw [listed]
      exact (exists_namespaces_iff listed wfNodes nodup).1 ⟨nss, said, fresh⟩
  · rintro ⟨⟨ms, rfl⟩, ⟨scope, name, ps, top, refers⟩, ⟨nodes, listed⟩, valid⟩
    have hn := get?_of_entry listed nofun
    have wfNodes := wf.member hn
    rw [listed] at valid
    obtain ⟨nss, said, fresh⟩ := (exists_namespaces_iff listed wfNodes nodup).2 valid
    have different : (Assoc.keys nss).Nodup :=
      said.keys ▸ (Json.wellFormed_object_iff.1 wfNodes).1
    have knows := knows_extend listed said different fresh
    exact ⟨⟨(scope, name), extend scopes nss⟩, ms, nodes, nss, ps, rfl, get?_of_entry top nofun, hn,
      said, fresh, rfl, (knows _ _ _).2 refers⟩

end

/-! ## Loads -/

open Session

/-- A load succeeds exactly if the document is valid for what there is in the design. -/
theorem load_succeeds_iff_valid {s : Session} (reached : s.Reachable Live) {strict : Bool}
    {doc : Json} (wf : doc.WellFormed) : ∃ scopes, s.design.outlineNamespaces? = some scopes ∧
      ((∃ answer d', load strict doc s.design = .ok answer d') ↔ Valid strict scopes doc) := by
  have hd := reached.sound.design
  obtain ⟨scopes, hs⟩ := hd.exists_outlineNamespaces
  have nodup : (Assoc.keys scopes).Nodup :=
    (hd.nodup_keys_iff ((Design.outlineNamespaces_eq_entries _ _).1 hs)).1 hd.nodup_namespaceEntries
  refine ⟨scopes, hs, ?_⟩
  rw [← exists_documentNode_iff wf nodup]
  constructor
  · rintro ⟨answer, d', loaded⟩
    cases read : Plain.read strict doc scopes with
    | error e =>
      obtain ⟨_, failed⟩ := load_of_read_error hd hs wf read
      cases loaded.symm.trans failed
    | ok result => exact ⟨result.1, (read_eq_ok_iff wf nodup).1 ⟨result.2, read⟩⟩
  · rintro ⟨o, said⟩
    obtain ⟨warnings, read⟩ := (read_eq_ok_iff wf nodup).2 said
    obtain ⟨top, d', loaded, -⟩ := load_of_read_ok hd hs wf read
    exact ⟨(top, warnings), d', loaded⟩

/-- A document with an instance of a module that only the session has. One of its arguments is
for no parameter. -/
def documentWithRegister : Json :=
  .object [
    ("top", .array [.string "app", .string "wrap"]),
    ("namespaces", .object [
      ("app", .object [("modules", .object [("wrap", .object [
        ("type", .array [.string "Array", .int 4, .string "BitOut"]),
        ("def", .object [
          ("instances", .object [("r", .object [
            ("instref", .array [.string "lib", .string "reg"]),
            ("config", .object [("width", .int 8), ("depth", .int 2)])])]),
          ("connections", .array [
            .array [.array [.string "self", .string "0"], .array [.string "r"]]])])])])])])]

theorem register_document_valid_unless_strict : ∃ scopes,
    sessionWithRegister.design.outlineNamespaces? = some scopes ∧
      Valid false scopes documentWithRegister ∧ ¬ Valid true scopes documentWithRegister := by
  have reached : sessionWithRegister.Reachable Live := .run .start (by decide +kernel)
  have wf : documentWithRegister.WellFormed := by decide +kernel
  have ⟨scopes, outline, valid⟩ := @load_succeeds_iff_valid _ reached false _ wf
  have ⟨_, outline', valid'⟩ := @load_succeeds_iff_valid _ reached true _ wf
  cases outline.symm.trans outline'
  refine ⟨scopes, outline, valid.1 ?_, fun h => ?_⟩
  · have accepted : (match load false documentWithRegister sessionWithRegister.design with
        | .ok _ _ => true
        | .error _ _ => false) = true := by decide +kernel
    split at accepted
    · rename_i answer d' loaded
      exact ⟨answer, d', loaded⟩
    · cases accepted
  · obtain ⟨answer, d', loaded⟩ := valid'.2 h
    have rejected : (match load true documentWithRegister sessionWithRegister.design with
        | .ok _ _ => false
        | .error _ _ => true) = true := by decide +kernel
    rw [loaded] at rejected
    cases rejected

end Document

end Netlist
