-- Loading two documents one after the other is loading their merge: the second one finds
-- what the first one declared, and nothing that was valid before refers to anything else
-- for it.
import Netlist.Proofs.Accepted
import Netlist.Proofs.Entries
import Netlist.Proofs.Loaded

namespace Netlist

/-! ## The merge of two documents -/

namespace Json

/-- The entries of both under a key. Null and an absent member have none. -/
def mergeEntries (key : String) (a b : Json) : Json :=
  .object ((a.entry key).entries ++ (b.entry key).entries)

/-- A namespace with the modules and the generators of both. -/
def mergeNamespace (a b : Json) : Json :=
  .object [("modules", mergeEntries "modules" a b), ("generators", mergeEntries "generators" a b)]

/-- The document with the namespaces of the first one and then those that only the second one
has, and with the top of the second one. -/
def merge (a b : Json) : Json :=
  .object [
    ("top", b.entry "top"),
    ("namespaces", .object
      (Assoc.merge mergeNamespace .null (a.entry "namespaces").entries
        (b.entry "namespaces").entries))]

end Json

namespace Plain

open Document Outline.Namespace

variable {scopes nss mss : Scopes}

/-! ## Namespaces in two steps -/

theorem scopeOf_merge (nss mss : Scopes) (k : String) :
    scopeOf (Assoc.merge append ⟨[], []⟩ nss mss) k = (scopeOf nss k).append (scopeOf mss k) :=
  Assoc.getD_get?_merge append ⟨[], []⟩ nss mss rfl k

/-- Namespaces are told by their names and by what is in each. -/
theorem scopes_ext {as bs : Scopes} (nodup : (Assoc.keys as).Nodup)
    (same : Assoc.keys as = Assoc.keys bs) (h : ∀ k, scopeOf as k = scopeOf bs k) : as = bs := by
  refine Assoc.ext_get? nodup same fun k hk => ?_
  obtain ⟨a, ha⟩ := Option.isSome_iff_exists.1 (Assoc.isSome_get?_iff.2 hk)
  obtain ⟨b, hb⟩ := Option.isSome_iff_exists.1 (Assoc.isSome_get?_iff.2 (same ▸ hk))
  have here := h k
  rw [scopeOf, scopeOf, ha, hb] at here
  rw [ha, hb]
  exact congrArg some here

/-- To declare namespaces in two steps is to declare their merge. -/
theorem extend_merge (nodup : (Assoc.keys scopes).Nodup) (h : (Assoc.keys nss).Nodup)
    (k : (Assoc.keys mss).Nodup) :
    extend scopes (Assoc.merge append ⟨[], []⟩ nss mss) = extend (extend scopes nss) mss := by
  have both := Assoc.nodup_keys_merge append ⟨[], []⟩ nss mss h k
  refine scopes_ext (nodup_keys_extend _ nodup) ?_ fun name => ?_
  · rw [keys_extend both, keys_extend k, keys_extend h, Assoc.keys_merge, List.filter_append,
      List.append_assoc, List.filter_filter]
    refine congrArg (fun names => Assoc.keys scopes ++ (_ ++ names))
      (List.filter_congr fun name _ => ?_)
    rw [← Bool.decide_and]
    refine decide_eq_decide.2 ?_
    rw [List.mem_append, List.mem_filter, decide_eq_true_iff]
    tauto
  · rw [scopeOf_extend both, scopeOf_extend k, scopeOf_extend h, scopeOf_merge, append_assoc]

/-- What is new in two steps is new in the merge. -/
theorem fresh_merge (h : (Assoc.keys nss).Nodup) (k : (Assoc.keys mss).Nodup)
    (first : ∀ n ∈ nss, (scopeOf scopes n.1).Fresh n.2)
    (second : ∀ n ∈ mss, (scopeOf (extend scopes nss) n.1).Fresh n.2) :
    ∀ n ∈ Assoc.merge append ⟨[], []⟩ nss mss, (scopeOf scopes n.1).Fresh n.2 := by
  intro n hn
  have both := Assoc.nodup_keys_merge append ⟨[], []⟩ nss mss h k
  have here := fresh_scopeOf second n.1
  rw [scopeOf_extend h] at here
  rw [← scopeOf_of_mem both hn, scopeOf_merge, fresh_append_iff]
  exact ⟨fresh_scopeOf first n.1, here⟩

/-! ## References that were valid stay valid -/

/-- Everything known here is known there, and is the same. -/
def Signatures.Within (env env' : Signatures) : Prop :=
  ∀ target signature, env target = some signature → env' target = some signature

theorem symbolIn?_append {ns more : Outline.Namespace} (fresh : ns.Fresh more) {name : String}
    {s : Symbol} (h : symbolIn? ns name = some s) : symbolIn? (ns.append more) name = some s := by
  unfold symbolIn? append at *
  rw [Assoc.get?_append, Assoc.get?_append]
  cases hm : Assoc.get? name ns.modules with
  | some m =>
    rw [hm] at h
    exact h
  | none =>
    rw [hm] at h
    obtain ⟨g, hg, rfl⟩ := Option.map_eq_some_iff.1 h
    have old : name ∈ ns.names :=
      List.mem_append_right _ (Assoc.isSome_get?_iff.1 (Option.isSome_of_eq_some hg))
    have absent : Assoc.get? name more.modules = none :=
      Assoc.get?_eq_none_iff.2 fun new => fresh.2 name (List.mem_append_left _ new) old
    rw [hg, absent]
    rfl

theorem within_extend (h : (Assoc.keys nss).Nodup)
    (fresh : ∀ n ∈ nss, (scopeOf scopes n.1).Fresh n.2) :
    (signature? scopes).Within (signature? (extend scopes nss)) := by
  rintro ⟨scope, name⟩ signature known
  obtain ⟨s, hs, rfl⟩ := Option.map_eq_some_iff.1 known
  rw [symbol?_eq] at hs
  refine Option.map_eq_some_iff.2 ⟨s, ?_, rfl⟩
  rw [symbol?_eq, scopeOf_extend h]
  exact symbolIn?_append (fresh_scopeOf fresh scope) hs

section

variable {strict : Bool} {env env' : Signatures} {node : Json}

theorem InstanceNode.within {i : Outline.Instance} (h : InstanceNode strict env node i)
    (w : env.Within env') : InstanceNode strict env' node i := by
  obtain ⟨ms, config, ps, hnode, ref, signature, rest⟩ := h
  exact ⟨ms, config, ps, hnode, ref, w _ _ signature, rest⟩

theorem DefinitionNode.within {x : Outline.Definition} (h : DefinitionNode strict env node x)
    (w : env.Within env') : DefinitionNode strict env' node x := by
  obtain ⟨ms, entries, nodes, links, hnode, hentries, instances, rest⟩ := h
  have instances : InstanceNodes strict env' entries x.instances :=
    instances.imp fun _ _ h => ⟨h.1, h.2.1, h.2.2.within w⟩
  exact ⟨ms, entries, nodes, links, hnode, hentries, instances, rest⟩

theorem ModuleNode.within {m : Outline.Module} (h : ModuleNode (defined strict env) node m)
    (w : env.Within env') : ModuleNode (defined strict env') node m := by
  obtain ⟨ms, hnode, type, sound, params, metadata, body⟩ := h
  refine ⟨ms, hnode, type, sound, params, metadata, ?_⟩
  unfold defined at body ⊢
  generalize optional ms "def" = o at body ⊢
  generalize m.definition = x at body ⊢
  cases body with
  | none => exact .none
  | some said => exact .some (said.within w)

theorem NamespaceNode.within {ns : Outline.Namespace}
    (h : NamespaceNode (defined strict env) node ns) (w : env.Within env') :
    NamespaceNode (defined strict env') node ns := by
  rcases h with empty | ⟨ms, es, es', hnode, hes, hes', modules, generators⟩
  · exact Or.inl empty
  · have modules : Entries (ModuleNode (defined strict env')) es ns.modules :=
      modules.imp fun _ _ h => ⟨h.1, h.2.within w⟩
    exact Or.inr ⟨ms, es, es', hnode, hes, hes', modules, generators⟩

/-- The warnings for a definition that was read do not change either. -/
theorem DefinitionNode.warnings_within {x : Outline.Definition}
    (h : DefinitionNode strict env node x) (w : env.Within env') (owner : String) :
    definitionWarnings env' owner node = definitionWarnings env owner node := by
  obtain ⟨ms, entries, nodes, links, rfl, hentries, instances, -⟩ := h
  unfold definitionWarnings
  rw [entries_of_optionally hentries]
  refine List.flatMap_congr fun m hm => ?_
  obtain ⟨i, -, -, -, vs, config, ps, hnode, ref, signature, -⟩ := exists_of_forall₂ instances hm
  have params (known : Signatures) (h : known i.2.target = some (.module, ps)) :
      paramsAt known (m.2.entry "instref") = ps := by
    rw [hnode, entry_object, ref, Option.getD_some, paramsAt, h]
    rfl
  rw [instanceWarnings, instanceWarnings, params env signature, params env' (w _ _ signature)]

/-! ## Nodes of a merge -/

theorem NamespaceNode.merge {body : Body} {a b : Json} {x y : Outline.Namespace}
    (h : NamespaceNode body a x) (k : NamespaceNode body b y) :
    NamespaceNode body (a.mergeNamespace b) (x.append y) :=
  Or.inr ⟨_, _, _, rfl, Or.inr rfl, Or.inr rfl, List.rel_append h.entries.1 k.entries.1,
    List.rel_append h.entries.2 k.entries.2⟩

theorem Entries.merge {α : Type} {R : Json → α → Prop} {f : Json → Json → Json} {g : α → α → α}
    {e : Json} {u : α} (empty : R e u)
    (both : ∀ {x y a b}, R x a → R y b → R (f x y) (g a b)) {ms ns : List (String × Json)}
    {xs ys : List (String × α)} (h : Entries R ms xs) (k : Entries R ns ys) :
    Entries R (Assoc.merge f e ms ns) (Assoc.merge g u xs ys) := by
  have found (key : String) : R ((Assoc.get? key ns).getD e) ((Assoc.get? key ys).getD u) := by
    have rel := k.get? key
    generalize Assoc.get? key ns = o at rel ⊢
    generalize Assoc.get? key ys = o' at rel ⊢
    cases rel with
    | none => exact empty
    | some r => exact r
  unfold Assoc.merge
  refine List.rel_append ?_ ?_
  · refine List.forall₂_map_left_iff.2 (List.forall₂_map_right_iff.2 (h.imp fun m x said => ?_))
    rw [said.1]
    exact ⟨rfl, both said.2 (found m.1)⟩
  · have others : Entries R (ns.filter fun m => m.1 ∉ Assoc.keys ms)
        (ys.filter fun x => x.1 ∉ Assoc.keys xs) := by
      refine List.rel_filter (fun m x said => ?_) k
      dsimp only
      rw [said.1, h.keys]
    exact List.forall₂_map_left_iff.2 (List.forall₂_map_right_iff.2
      (others.imp fun _ _ said => ⟨said.1, both empty said.2⟩))

/-! ## Documents -/

theorem wellFormed_mergeNamespace {body : Body} {a b : Json} (wfa : a.WellFormed)
    (wfb : b.WellFormed) {ns : Outline.Namespace}
    (said : NamespaceNode body (a.mergeNamespace b) ns) (names : ns.names.Nodup) :
    (a.mergeNamespace b).WellFormed := by
  obtain ⟨modules, generators⟩ := said.entries
  obtain ⟨nodup, nodup', -⟩ := List.nodup_append.1 names
  have entries (key : String) (h : (Assoc.keys ((a.entry key).entries ++ (b.entry key).entries)).Nodup) :
      (Json.mergeEntries key a b).WellFormed := by
    refine Json.wellFormed_object_iff.2 ⟨h, fun m hm => ?_⟩
    rcases List.mem_append.1 hm with hm | hm
    · exact wellFormed_entries (wellFormed_entry wfa key) hm
    · exact wellFormed_entries (wellFormed_entry wfb key) hm
  rw [modules.keys] at nodup
  rw [generators.keys] at nodup'
  exact ⟨by simp, entries "modules" nodup, entries "generators" nodup', trivial⟩

theorem mem_merge {α : Type} {f : α → α → α} {empty : α} {es fs : List (String × α)}
    {e : String × α} (h : e ∈ Assoc.merge f empty es fs) :
    ∃ a b, e.2 = f a b ∧ (a = empty ∨ (e.1, a) ∈ es) ∧ (b = empty ∨ (e.1, b) ∈ fs) := by
  rcases List.mem_append.1 h with h | h
  · obtain ⟨⟨k, a⟩, ha, rfl⟩ := List.mem_map.1 h
    refine ⟨a, _, rfl, Or.inr ha, ?_⟩
    dsimp only
    cases hb : Assoc.get? k fs with
    | none => exact Or.inl rfl
    | some b => exact Or.inr (Assoc.mem_of_get? hb)
  · obtain ⟨⟨k, b⟩, hb, rfl⟩ := List.mem_map.1 h
    exact ⟨empty, b, rfl, Or.inl rfl, Or.inr (List.mem_filter.1 hb).1⟩

/-- A document leaves what was known as it was. -/
theorem DocumentNode.within {doc : Json} (wf : doc.WellFormed) {o : Outline}
    (said : DocumentNode strict scopes doc o) :
    (signature? scopes).Within (signature? o.namespaces) := by
  obtain ⟨ms, nodes, nss, ps, rfl, -, hn, said, fresh, same, -⟩ := said
  have different : (Assoc.keys nss).Nodup :=
    said.keys ▸ (Json.wellFormed_object_iff.1 (wf.member hn)).1
  rw [same]
  exact within_extend different fresh

/-- What the merge says is what the two documents say one after the other. -/
theorem DocumentNode.merge {a b : Json} (wfa : a.WellFormed) (wfb : b.WellFormed)
    (nodup : (Assoc.keys scopes).Nodup) {o₁ o₂ : Outline}
    (first : DocumentNode strict scopes a o₁) (second : DocumentNode strict o₁.namespaces b o₂) :
    (a.merge b).WellFormed ∧ DocumentNode strict scopes (a.merge b) o₂ := by
  have within := second.within wfb
  obtain ⟨ms, nodes, nss, ps, rfl, -, hn, said, fresh, same, -⟩ := first
  obtain ⟨ms', nodes', mss, ps', rfl, top', hn', said', fresh', same', signature⟩ := second
  rw [same] at fresh' same'
  have wfNodes := wfa.member hn
  have wfNodes' := wfb.member hn'
  have different : (Assoc.keys nss).Nodup := said.keys ▸ (Json.wellFormed_object_iff.1 wfNodes).1
  have different' : (Assoc.keys mss).Nodup := said'.keys ▸ (Json.wellFormed_object_iff.1 wfNodes').1
  have listed : ((Json.object ms).entry "namespaces").entries = nodes := by
    rw [entry_object, hn]
    rfl
  have listed' : ((Json.object ms').entry "namespaces").entries = nodes' := by
    rw [entry_object, hn']
    rfl
  have top : (Json.object ms').entry "top" = .array [.string o₂.top.1, .string o₂.top.2] := by
    rw [entry_object, top']
    rfl
  have saidFirst : Entries (NamespaceNode (defined strict (signature? o₂.namespaces))) nodes nss :=
    said.imp fun _ _ h => ⟨h.1, h.2.within within⟩
  have merged := saidFirst.merge (f := Json.mergeNamespace) (g := append) (e := .null)
    (u := ⟨[], []⟩) (Or.inl ⟨rfl, rfl⟩) NamespaceNode.merge said'
  have freshMerged := fresh_merge different different' fresh fresh'
  unfold Json.merge
  rw [listed, listed', top]
  constructor
  · refine ⟨by simp, ?_, ?_, trivial⟩
    · exact ⟨trivial, trivial, trivial⟩
    · refine Json.wellFormed_object_iff.2 ⟨?_, fun m hm => ?_⟩
      · exact Assoc.nodup_keys_merge _ _ nodes nodes' (Json.wellFormed_object_iff.1 wfNodes).1
          (Json.wellFormed_object_iff.1 wfNodes').1
      · obtain ⟨n, hn, -, saidNode⟩ := exists_of_forall₂ merged hm
        obtain ⟨x, y, same, hx, hy⟩ := mem_merge hm
        rw [same] at saidNode ⊢
        have wfx : x.WellFormed := hx.elim (fun h => h ▸ trivial) fun h =>
          (Json.wellFormed_object_iff.1 wfNodes).2 _ h
        have wfy : y.WellFormed := hy.elim (fun h => h ▸ trivial) fun h =>
          (Json.wellFormed_object_iff.1 wfNodes').2 _ h
        exact wellFormed_mergeNamespace wfx wfy saidNode (freshMerged n hn).1
  · refine ⟨_, _, _, ps', rfl, rfl, rfl, merged, freshMerged, ?_, signature⟩
    rw [same', extend_merge nodup different different']

/-! ## Warnings of a merge -/

theorem DocumentNode.warnings_within {doc : Json} {o : Outline}
    (said : DocumentNode strict scopes doc o) (w : (signature? o.namespaces).Within env') :
    documentWarnings env' doc = documentWarnings (signature? o.namespaces) doc := by
  obtain ⟨ms, nodes, nss, ps, rfl, -, hn, said, -⟩ := said
  unfold documentWarnings
  rw [entry_object, hn]
  refine List.flatMap_congr fun p hp => ?_
  obtain ⟨x, -, -, body⟩ := exists_of_forall₂ said.pendingNodes.2 hp
  exact body.warnings_within w _

/-- A module that is pending in a merge is pending in one of the documents. -/
theorem pendingNodes_merge {a b : List (String × Json)} (ha : (Assoc.keys a).Nodup)
    (hb : (Assoc.keys b).Nodup) :
    (pendingNodes (Assoc.merge Json.mergeNamespace .null a b)).Perm
      (pendingNodes a ++ pendingNodes b) := by
  refine Assoc.flatMap_merge_perm Json.mergeNamespace .null a b
    (g := fun scope node => pendingModules scope (node.entry "modules").entries)
    (fun scope x y => ?_) (fun scope => ?_) ha hb
  · exact List.filterMap_append
  · rfl

theorem documentWarnings_merge {a b : Json} (wfa : a.WellFormed) (wfb : b.WellFormed) :
    (documentWarnings env (a.merge b)).Perm (documentWarnings env a ++ documentWarnings env b) := by
  have pending := pendingNodes_merge (nodup_entries (wellFormed_entry wfa "namespaces"))
    (nodup_entries (wellFormed_entry wfb "namespaces"))
  unfold documentWarnings
  rw [← List.flatMap_append]
  exact pending.flatMap_right _

end

end Plain

namespace Document

open Plain Session

/-- Whatever calls led to a design, two documents load into it one after the other only if
their merge does, and then the design is saved as the same document, with the same warnings. -/
theorem load_merged {s : Session} (reached : s.Reachable Careful) {strict : Bool} {a b : Json}
    (wfa : a.WellFormed) (wfb : b.WellFormed) {t₁ t₂ : ModuleId} {w₁ w₂ : List Diagnostic}
    {d₁ d₂ : Design} (first : load strict a s.design = .ok (t₁, w₁) d₁)
    (second : load strict b d₁ = .ok (t₂, w₂) d₂) :
    (a.merge b).WellFormed ∧ ∃ t w d, load strict (a.merge b) s.design = .ok (t, w) d ∧
      d.document? t = d₂.document? t₂ ∧ (d.document? t).isSome ∧ w.Perm (w₁ ++ w₂) := by
  have sound := reached.sound_of_careful.design
  obtain ⟨scopes, hs⟩ := sound.exists_outlineNamespaces
  obtain ⟨sound₁, o₁, outline₁, said₁, rfl⟩ := documentNode_of_loaded sound hs wfa first
  obtain ⟨-, hs₁⟩ := Design.outline_eq_some_iff.1 outline₁
  obtain ⟨-, o₂, outline₂, said₂, rfl⟩ := documentNode_of_loaded sound₁ hs₁ wfb second
  obtain ⟨wf, said⟩ := said₁.merge wfa wfb (nodup_keys_outlineNamespaces sound hs) said₂
  obtain ⟨t, d, loaded, -, outline⟩ := loaded_of_documentNode sound hs wf said
  have saved : d.document? t = some o₂.toJson := congrArg (Option.map Outline.toJson) outline
  have saved₂ : d₂.document? t₂ = some o₂.toJson := congrArg (Option.map Outline.toJson) outline₂
  refine ⟨wf, t, _, d, loaded, saved.trans saved₂.symm, Option.isSome_of_eq_some saved, ?_⟩
  rw [← said₁.warnings_within (said₂.within wfb)]
  exact documentWarnings_merge wfa wfb

/-- A document with a module in an old namespace and one in a new namespace, and an argument to
warn of. -/
def documentOfLeaves : Json :=
  .object [
    ("top", .array [.string "lib", .string "leaf"]),
    ("namespaces", .object [
      ("lib", .object [("modules", .object [
        ("leaf", .object [("type", .string "BitIn"), ("def", .object [
          ("instances", .object [("r", .object [
            ("instref", .array [.string "lib", .string "reg"]),
            ("config", .object [("width", .int 8), ("depth", .int 2)])])])])])])]),
      ("app", .null)])]

/-- A document that goes on in the same namespaces, and refers to the other one. -/
def documentOnLeaves : Json :=
  .object [
    ("top", .array [.string "app", .string "pair"]),
    ("namespaces", .object [
      ("more", .object []),
      ("app", .object [("modules", .object [
        ("pair", .object [("type", .string "BitOut"), ("def", .object [
          ("instances", .object [("l", .object [
            ("instref", .array [.string "lib", .string "leaf"]),
            ("config", .object [("size", .int 1)])])])])])])]),
      ("lib", .object [("generators", .object [("fifo", .object [])])])])]

theorem load_leaves_merged : ∃ t₁ w₁ d₁ t₂ w₂ d₂,
    load false documentOfLeaves sessionWithRegister.design = .ok (t₁, w₁) d₁ ∧
      load false documentOnLeaves d₁ = .ok (t₂, w₂) d₂ ∧
      ∃ t w d,
        load false (documentOfLeaves.merge documentOnLeaves) sessionWithRegister.design =
          .ok (t, w) d ∧
        d.document? t = d₂.document? t₂ ∧ w.Perm (w₁ ++ w₂) := by
  have reached : sessionWithRegister.Reachable Live := .run .start (by decide +kernel)
  have accepted : ((Edit.answer? (load false documentOfLeaves sessionWithRegister.design)).bind
      fun r => Edit.answer? (load false documentOnLeaves r.2)).isSome = true := by decide +kernel
  obtain ⟨⟨second, d₂⟩, both⟩ := Option.isSome_iff_exists.1 accepted
  obtain ⟨⟨first, d₁⟩, loaded₁, loaded₂⟩ := Option.bind_eq_some_iff.1 both
  have loaded₁ := Edit.answer?_eq_some_iff.1 loaded₁
  have loaded₂ := Edit.answer?_eq_some_iff.1 loaded₂
  obtain ⟨-, t, w, d, loaded, same, -, warnings⟩ := load_merged reached.careful
    (by decide +kernel) (by decide +kernel) loaded₁ loaded₂
  exact ⟨_, _, d₁, _, _, d₂, loaded₁, loaded₂, t, w, d, loaded, same, warnings⟩

end Document

end Netlist
