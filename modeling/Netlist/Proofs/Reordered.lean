-- The order of the members of a document does not matter to a load: with another one it
-- succeeds as well, warns of the same and leaves a design that is saved as the same document,
-- up to the order of members.
import Netlist.Proofs.Loaded
import Netlist.Proofs.Nodes.Reordered
import Netlist.Proofs.Saved.Kept

namespace Netlist

open Json (Reordered)

namespace Plain

open Document Outline

variable {scopes nss kss : Scopes}

/-! ## Namespaces -/

/-- Namespaces that have the same names, and agree in what is in each, agree. -/
theorem agree_of_scopeOf {R : Outline.Namespace → Outline.Namespace → Prop}
    (names : ∀ k, k ∈ Assoc.keys nss ↔ k ∈ Assoc.keys kss)
    (h : ∀ k, R (scopeOf nss k) (scopeOf kss k)) : Assoc.Agree R nss kss := by
  intro k
  have here := h k
  have there := names k
  rw [← Assoc.isSome_get?_iff, ← Assoc.isSome_get?_iff] at there
  unfold scopeOf at here
  cases hn : Assoc.get? k nss with
  | none =>
    rw [hn] at there
    cases hk : Assoc.get? k kss with
    | none => exact .none
    | some _ => rw [hk] at there; simp at there
  | some ns =>
    rw [hn] at here there
    cases hk : Assoc.get? k kss with
    | none => rw [hk] at there; simp at there
    | some _ => rw [hk] at here; exact .some here

theorem scopeOf_reordered (h : Assoc.Agree Namespace.Reordered nss kss) (k : String) :
    (scopeOf nss k).Reordered (scopeOf kss k) := by
  have here := h k
  unfold scopeOf
  generalize Assoc.get? k nss = o at here ⊢
  generalize Assoc.get? k kss = o' at here ⊢
  cases here with
  | none => exact .empty
  | some r => exact r

theorem extend_reordered (old : Assoc.Agree Namespace.Reordered scopes scopes)
    (h : Assoc.Agree Namespace.Reordered nss kss) (left : (Assoc.keys nss).Nodup)
    (right : (Assoc.keys kss).Nodup) :
    Assoc.Agree Namespace.Reordered (extend scopes nss) (extend scopes kss) := by
  apply agree_of_scopeOf
  · intro k
    rw [keys_extend left, keys_extend right]
    simp [h.mem_keys_iff]
  · intro k
    rw [scopeOf_extend left, scopeOf_extend right]
    exact (scopeOf_reordered old k).append (scopeOf_reordered h k)

/-- What is known of reordered namespaces is the same up to order. -/
theorem signature?_agree (h : Assoc.Agree Namespace.Reordered nss kss) :
    (signature? nss).Agree (signature? kss) := by
  rintro ⟨scope, name⟩
  have here := scopeOf_reordered h scope
  have modules := here.modules name
  have generators := here.generators name
  unfold signature?
  rw [symbol?_eq, symbol?_eq]
  unfold symbolIn?
  generalize Assoc.get? name (scopeOf nss scope).modules = m at modules ⊢
  generalize Assoc.get? name (scopeOf kss scope).modules = m' at modules ⊢
  cases modules with
  | some r => exact .some ⟨rfl, r.params⟩
  | none =>
    generalize Assoc.get? name (scopeOf nss scope).generators = g at generators ⊢
    generalize Assoc.get? name (scopeOf kss scope).generators = g' at generators ⊢
    cases generators with
    | none => exact .none
    | some r => exact .some ⟨rfl, r.params⟩

/-! ## Documents -/

/-- A namespace lists different names on each side, since its nodes have different keys. -/
theorem NamespaceNode.nodup {body : Body} {node : Json} {ns : Outline.Namespace}
    (h : NamespaceNode body node ns) (wf : node.WellFormed) :
    (Assoc.keys ns.modules).Nodup ∧ (Assoc.keys ns.generators).Nodup := by
  obtain ⟨modules, generators⟩ := h.entries
  rw [modules.keys, generators.keys]
  exact ⟨nodup_entries (wellFormed_entry wf "modules"), nodup_entries (wellFormed_entry wf "generators")⟩

theorem fresh_reordered {body : Body} {nodes : List (String × Json)}
    (said : Entries (NamespaceNode body) nodes kss) (wf : (Json.object nodes).WellFormed)
    (h : Assoc.Agree Namespace.Reordered nss kss)
    (fresh : ∀ n ∈ nss, (scopeOf scopes n.1).Fresh n.2) :
    ∀ k ∈ kss, (scopeOf scopes k.1).Fresh k.2 := by
  have different : (Assoc.keys kss).Nodup := said.keys ▸ wf.1
  intro k hk
  obtain ⟨ns, hn, r⟩ := h.flip.of_get? ((Assoc.get?_eq_some_iff different).2 hk)
  obtain ⟨node, hnode, -, saidNode⟩ := exists_of_forall₂ said.flip hk
  obtain ⟨modules, generators⟩ := saidNode.nodup ((Json.wellFormed_object_iff.1 wf).2 node hnode)
  exact r.fresh modules generators (fresh _ (Assoc.mem_of_get? hn))

/-- The namespaces that nodes declare do not depend on whether definitions are read. -/
theorem extend_bareAll_of_entries {strict : Bool} {env : Signatures}
    {nodes : List (String × Json)} {bare : Scopes} (wf : (Json.object nodes).WellFormed)
    (said : Entries (NamespaceNode (defined strict env)) nodes nss)
    (fresh : ∀ n ∈ nss, (scopeOf scopes n.1).Fresh n.2)
    (declared : Entries (NamespaceNode unread) nodes bare)
    (fresh' : ∀ n ∈ bare, (scopeOf scopes n.1).Fresh n.2) :
    extend scopes (bareAll nss) = extend scopes bare := by
  have first := (declareNamespaces_eq_ok_iff wf).2
    ⟨_, said.pendingNodes.1, fresh_bareAll_iff.2 fresh, rfl, rfl⟩
  have second := (declareNamespaces_eq_ok_iff wf).2 ⟨_, declared, fresh', rfl, rfl⟩
  exact congrArg Prod.fst (Except.ok.inj (first.symm.trans second))

/-- A document with its members in another order says the same, up to order. The declarations
come first, since definitions are read against all of them. -/
theorem DocumentNode.reordered {strict : Bool} {doc doc' : Json} {o : Outline}
    (said : DocumentNode strict scopes doc o) (same : doc.Reordered doc')
    (old : Assoc.Agree Namespace.Reordered scopes scopes) (nodup : (Assoc.keys scopes).Nodup) :
    ∃ o', DocumentNode strict scopes doc' o' ∧ o'.top = o.top ∧
      Assoc.Agree Namespace.Reordered o.namespaces o'.namespaces := by
  obtain ⟨ms, nodes, nss, ps, rfl, top, hn, said, fresh, extended, known⟩ := said
  obtain ⟨ns, rfl, members⟩ := same.object_left
  obtain ⟨w, top', r⟩ := members.of_get? top
  obtain rfl := Json.rigid_words [o.top.1, o.top.2] r
  obtain ⟨w, hn', r⟩ := members.of_get? hn
  obtain ⟨nodes', rfl, -⟩ := r.object_left
  have different : (Assoc.keys nss).Nodup := said.keys ▸ r.left.1
  obtain ⟨bare, declared, bareAgree⟩ := said.pendingNodes.1.reordered r fun r said =>
    said.reordered r unread_follows
  have freshBare := fresh_reordered declared r.right bareAgree (fresh_bareAll_iff.2 fresh)
  have differentBare : (Assoc.keys (bareAll nss)).Nodup := by
    unfold bareAll
    rwa [Assoc.keys_map]
  have env : (signature? o.namespaces).Agree (signature? (extend scopes bare)) := by
    rw [extended, ← signature?_extend_bareAll nodup different fresh]
    exact signature?_agree (extend_reordered old bareAgree differentBare (declared.keys ▸ r.right.1))
  obtain ⟨nss', said', agree⟩ := said.reordered r fun r said =>
    said.reordered r (defined_follows strict env)
  have fresh' := fresh_reordered said' r.right agree fresh
  have different' : (Assoc.keys nss').Nodup := said'.keys ▸ r.right.1
  have signatures : signature? (extend scopes bare) = signature? (extend scopes nss') := by
    rw [← extend_bareAll_of_entries r.right said' fresh' declared freshBare,
      signature?_extend_bareAll nodup different' fresh']
  rw [signatures] at env said'
  obtain ⟨qs, known', -⟩ := env.of_some known
  refine ⟨⟨o.top, extend scopes nss'⟩, ⟨ns, nodes', nss', qs, rfl, top', hn', said', fresh', rfl,
    known'⟩, rfl, ?_⟩
  rw [extended]
  exact extend_reordered old agree different different'

/-! ## Warnings -/

theorem entry_reordered {v w : Json} (h : v.Reordered w) (key : String) :
    (v.entry key).Reordered (w.entry key) := by
  cases v with
  | object ms =>
    obtain ⟨ns, rfl, members⟩ := h.object_left
    rw [entry_object, entry_object]
    have here := members key
    generalize Assoc.get? key ms = o at here ⊢
    generalize Assoc.get? key ns = o' at here ⊢
    cases here with
    | none => exact .refl trivial
    | some r => exact r
  | null | bool | number | string | array =>
    cases w with
    | object => cases h.same
    | null | bool | number | string | array => exact .refl trivial

theorem entries_reordered {v w : Json} (h : v.Reordered w) :
    (Json.object v.entries).Reordered (.object w.entries) := by
  cases v with
  | object ms =>
    obtain ⟨ns, rfl, -⟩ := h.object_left
    exact h
  | null | bool | number | string | array =>
    cases w with
    | object => cases h.same
    | null | bool | number | string | array =>
      exact Json.reordered_object_iff.2 ⟨List.nodup_nil, List.nodup_nil, fun _ => .none⟩

section

variable {env env' : Signatures} {v w : Json}

theorem paramsAt_agree (agree : env.Agree env') (h : v.Reordered w) (key : String) :
    key ∈ Assoc.keys (paramsAt env v) ↔ key ∈ Assoc.keys (paramsAt env' w) := by
  have pair (scope name : String) :
      key ∈ Assoc.keys (((env (scope, name)).map (·.2)).getD []) ↔
        key ∈ Assoc.keys (((env' (scope, name)).map (·.2)).getD []) := by
    have here := agree (scope, name)
    generalize env (scope, name) = o at here ⊢
    generalize env' (scope, name) = o' at here ⊢
    cases here with
    | none => rfl
    | some r => exact r.2.agree.mem_keys_iff
  by_cases symbol : ∃ scope name, v = .array [.string scope, .string name]
  · obtain ⟨scope, name, rfl⟩ := symbol
    obtain rfl := Json.rigid_words [scope, name] h
    exact pair scope name
  · have other : paramsAt env v = [] := by
      unfold paramsAt
      split
      · exact absurd ⟨_, _, rfl⟩ symbol
      · rfl
    have other' : paramsAt env' w = [] := by
      unfold paramsAt
      split
      · rename_i scope name
        exact absurd ⟨scope, name, Json.rigid_words [scope, name] h.symm⟩ symbol
      · rfl
    rw [other, other']

theorem instanceWarnings_reordered (agree : env.Agree env') (h : v.Reordered w)
    (owner name : String) :
    (instanceWarnings env owner name v).Perm (instanceWarnings env' owner name w) := by
  obtain ⟨left, right, members⟩ :=
    Json.reordered_object_iff.1 (entries_reordered (entry_reordered h "config"))
  unfold instanceWarnings unknownKeys
  apply List.Perm.map
  have same : ∀ key, (!decide (key ∈ Assoc.keys (paramsAt env (v.entry "instref")))) =
      !decide (key ∈ Assoc.keys (paramsAt env' (w.entry "instref"))) := by
    intro key
    rw [decide_eq_decide.2 (paramsAt_agree agree (entry_reordered h "instref") key)]
  simp only [same]
  exact (members.keys_perm left right).filter _

theorem definitionWarnings_reordered (agree : env.Agree env') (h : v.Reordered w)
    (owner : String) : (definitionWarnings env owner v).Perm (definitionWarnings env' owner w) := by
  obtain ⟨left, right, members⟩ :=
    Json.reordered_object_iff.1 (entries_reordered (entry_reordered h "instances"))
  unfold definitionWarnings
  exact Assoc.Agree.flatMap_perm (f := instanceWarnings env owner)
    (g := instanceWarnings env' owner) (fun r => instanceWarnings_reordered agree r owner _)
    members left right

/-- The warnings for the definition of a module, if it has one. -/
def moduleWarnings (env : Signatures) (scope name : String) (node : Json) : List Diagnostic :=
  ((optional node.entries "def").map (definitionWarnings env (scope ++ "." ++ name))).getD []

theorem flatMap_pendingModules (env : Signatures) (scope : String) (ms : List (String × Json)) :
    (pendingModules scope ms).flatMap (pendingWarnings env) =
      ms.flatMap fun m => moduleWarnings env scope m.1 m.2 := by
  induction ms with
  | nil => rfl
  | cons m rest ih =>
    rw [List.flatMap_cons, ← ih]
    unfold pendingModules moduleWarnings
    rw [List.filterMap_cons]
    cases optional m.2.entries "def" with
    | none => rfl
    | some node =>
      rw [Option.map_some, Option.map_some, List.flatMap_cons, pendingWarnings, Option.getD_some]

theorem moduleWarnings_reordered (agree : env.Agree env') (h : v.Reordered w)
    (scope name : String) :
    (moduleWarnings env scope name v).Perm (moduleWarnings env' scope name w) := by
  obtain ⟨-, -, members⟩ := Json.reordered_object_iff.1 (entries_reordered h)
  have body := optional_agree members "def"
  unfold moduleWarnings
  generalize optional v.entries "def" = o at body ⊢
  generalize optional w.entries "def" = o' at body ⊢
  cases body with
  | none => exact .nil
  | some r => exact definitionWarnings_reordered agree r _

theorem documentWarnings_reordered (agree : env.Agree env') (h : v.Reordered w) :
    (documentWarnings env v).Perm (documentWarnings env' w) := by
  obtain ⟨left, right, namespaces⟩ :=
    Json.reordered_object_iff.1 (entries_reordered (entry_reordered h "namespaces"))
  have byModule (env : Signatures) (nodes : List (String × Json)) :
      (pendingNodes nodes).flatMap (pendingWarnings env) = nodes.flatMap fun n =>
        (n.2.entry "modules").entries.flatMap fun m => moduleWarnings env n.1 m.1 m.2 := by
    unfold pendingNodes
    rw [List.flatMap_assoc]
    exact List.flatMap_congr fun n _ => flatMap_pendingModules env n.1 _
  unfold documentWarnings
  rw [byModule, byModule]
  apply Assoc.Agree.flatMap_perm (R := Reordered)
    (f := fun scope node => (node.entry "modules").entries.flatMap fun m =>
      moduleWarnings env scope m.1 m.2)
    (g := fun scope node => (node.entry "modules").entries.flatMap fun m =>
      moduleWarnings env' scope m.1 m.2) ?_ namespaces left right
  intro scope x y r
  obtain ⟨left, right, modules⟩ :=
    Json.reordered_object_iff.1 (entries_reordered (entry_reordered r "modules"))
  exact Assoc.Agree.flatMap_perm (f := moduleWarnings env scope) (g := moduleWarnings env' scope)
    (fun r => moduleWarnings_reordered agree r scope _) modules left right

end

end Plain

/-! ## Loads -/

namespace Design.Sound

open Outline

variable {d : Design}

/-- The namespaces of a sound design agree with themselves. -/
theorem outlineNamespaces_agree (hd : d.Sound) {scopes : Plain.Scopes}
    (hs : d.outlineNamespaces? = some scopes) :
    Assoc.Agree Namespace.Reordered scopes scopes := by
  apply Assoc.Agree.refl
  intro n hn
  obtain ⟨ns, -, -, outline⟩ := exists_of_forall₂ (outlineNamespaces_eq_some_iff.1 hs).flip hn
  obtain ⟨modules, generators⟩ := outlineNamespace_eq_some_iff.1 outline
  constructor
  · apply Assoc.Agree.refl
    intro e he
    obtain ⟨_, -, -, outline⟩ := exists_of_forall₂ (outlineEntries_eq_some_iff.1 modules).flip he
    obtain ⟨m, hm, -, params, -⟩ := outlineModule_eq_some_iff.1 outline
    exact ⟨.refl (hd.nodup_outlineParams (hd.moduleSound hm).params params),
      .refl (hd.wellFormed_outlineModule outline)⟩
  · apply Assoc.Agree.refl
    intro e he
    obtain ⟨_, -, -, outline⟩ := exists_of_forall₂ (outlineEntries_eq_some_iff.1 generators).flip he
    obtain ⟨g, hg, -, params, -⟩ := outlineGenerator_eq_some_iff.1 outline
    exact ⟨.refl (hd.nodup_outlineParams (hd.generatorSound hg).params params),
      .refl (hd.outlineGenerator_sound outline).wellFormed⟩

theorem nodup_names (hd : d.Sound) {scopes : Plain.Scopes}
    (hs : d.outlineNamespaces? = some scopes) : ∀ n ∈ scopes, n.2.names.Nodup := by
  intro n hn
  obtain ⟨ns, listed, -, outline⟩ :=
    exists_of_forall₂ (outlineNamespaces_eq_some_iff.1 hs).flip hn
  obtain ⟨id, hns⟩ := Table.mem_toList_iff.1 listed
  exact hd.nodup_outlineNamespace hns outline

/-- Outlines of sound designs that agree are saved as the same document, up to order. -/
theorem toJson_reordered {c : Design} (hc : c.Sound) (hd : d.Sound) {t u : ModuleId}
    {o o' : Outline} (ho : c.outline? t = some o) (ho' : d.outline? u = some o')
    (top : o'.top = o.top) (h : Assoc.Agree Namespace.Reordered o.namespaces o'.namespaces) :
    o.toJson.Reordered o'.toJson := by
  obtain ⟨-, hs⟩ := outline_eq_some_iff.1 ho
  obtain ⟨-, hs'⟩ := outline_eq_some_iff.1 ho'
  have namespaces : (entriesToJson Namespace.toJson o.namespaces).Reordered
      (entriesToJson Namespace.toJson o'.namespaces) := by
    refine reordered_entriesToJson (Document.nodup_keys_outlineNamespaces hc hs)
      (Document.nodup_keys_outlineNamespaces hd hs')
      (h.imp fun hn hk r => r.toJson (hc.nodup_names hs _ (Assoc.mem_of_get? hn))
        (hd.nodup_names hs' _ (Assoc.mem_of_get? hk))) fun r => r
  have present : Json.MembersReordered
      [some ("top", .array [.string o.top.1, .string o.top.2]),
        some ("namespaces", entriesToJson Namespace.toJson o.namespaces)]
      [some ("top", .array [.string o'.top.1, .string o'.top.2]),
        some ("namespaces", entriesToJson Namespace.toJson o'.namespaces)]
      ["top", "namespaces"] := by
    rw [top]
    exact .present _ (.refl (Json.wellFormed_strings [_, _])) (.present _ namespaces .nil)
  exact present.reordered (by decide)

end Design.Sound

namespace Document

open Plain Session

/-- Whatever calls led to a design, two documents that are equal up to the order of members
load into it, or neither does. If they do, the two designs are saved as documents that are
equal up to the order of members, and the warnings are the same up to order. -/
theorem load_reordered {s : Session} (reached : s.Reachable Careful) {strict : Bool}
    {doc doc' : Json} (wf : doc.WellFormed) (wf' : doc'.WellFormed) (same : doc.same doc' = true) :
    ((∃ a d, load strict doc s.design = .ok a d) ↔ ∃ a d, load strict doc' s.design = .ok a d) ∧
      ∀ {t t' w w' d d'}, load strict doc s.design = .ok (t, w) d →
        load strict doc' s.design = .ok (t', w') d' →
        (∃ v v', d.document? t = some v ∧ d'.document? t' = some v' ∧ v.same v' = true) ∧
          w.Perm w' := by
  have sound := reached.sound_of_careful.design
  obtain ⟨scopes, hs⟩ := sound.exists_outlineNamespaces
  have nodup := nodup_keys_outlineNamespaces sound hs
  have old := sound.outlineNamespaces_agree hs
  have succeeds {v v' : Json} (h : v.Reordered v') {a : ModuleId × List Diagnostic} {d : Design}
      (loaded : load strict v s.design = .ok a d) :
      ∃ a d, load strict v' s.design = .ok a d := by
    obtain ⟨-, o, -, said, -⟩ := documentNode_of_loaded sound hs h.left loaded
    obtain ⟨o', said', -⟩ := said.reordered h old nodup
    obtain ⟨_, d', loaded', -⟩ := loaded_of_documentNode sound hs h.right said'
    exact ⟨_, d', loaded'⟩
  have r : doc.Reordered doc' := ⟨wf, wf', same⟩
  refine ⟨⟨fun ⟨_, _, h⟩ => succeeds r h, fun ⟨_, _, h⟩ => succeeds r.symm h⟩, ?_⟩
  intro t t' w w' d d' first second
  obtain ⟨hd, o, outline, said, rfl⟩ := documentNode_of_loaded sound hs wf first
  obtain ⟨o', said', top, agree⟩ := said.reordered r old nodup
  obtain ⟨_, _, loaded, hd', outline'⟩ := loaded_of_documentNode sound hs wf' said'
  cases second.symm.trans loaded
  refine ⟨⟨o.toJson, o'.toJson, congrArg (Option.map Outline.toJson) outline,
    congrArg (Option.map Outline.toJson) outline', ?_⟩, ?_⟩
  · exact (hd.toJson_reordered hd' outline outline' top agree).same
  · exact documentWarnings_reordered (signature?_agree agree) r

/-- A document with a namespace that is new and one that is there. The wrapper comes before what
it wraps, and both of its instances have an argument to warn of. -/
def documentOfWrappers : Json :=
  .object [
    ("top", .array [.string "app", .string "wrap"]),
    ("namespaces", .object [
      ("app", .object [("modules", .object [
        ("wrap", .object [
          ("type", .array [.string "Record", .array [.array [.string "i", .string "BitIn"]]]),
          ("metadata", .object [("at", .object [("line", .int 7), ("file", .null)])]),
          ("def", .object [
            ("instances", .object [
              ("r", .object [
                ("instref", .array [.string "lib", .string "reg"]),
                ("config", .object [("width", .int 8), ("depth", .int 2)])]),
              ("f", .object [
                ("instref", .array [.string "app", .string "fifo"]),
                ("config", .object [("size", .int 1), ("name", .string "q"), ("old", .null)])])]),
            ("connections", .array [
              .array [.array [.string "self", .string "i"], .array [.string "r"]]])])]),
        ("fifo", .object [
          ("type", .string "BitOut"),
          ("configparams", .object [("size", .string "Int"), ("name", .string "String")])])])]),
      ("lib", .object [("generators", .object [("gen", .object [])])])])]

/-- The same document with its members in another order, at every depth. -/
def documentOfWrappersTurned : Json :=
  .object [
    ("namespaces", .object [
      ("lib", .object [("generators", .object [("gen", .object [])])]),
      ("app", .object [("modules", .object [
        ("fifo", .object [
          ("configparams", .object [("name", .string "String"), ("size", .string "Int")]),
          ("type", .string "BitOut")]),
        ("wrap", .object [
          ("def", .object [
            ("connections", .array [
              .array [.array [.string "self", .string "i"], .array [.string "r"]]]),
            ("instances", .object [
              ("f", .object [
                ("config", .object [("old", .null), ("name", .string "q"), ("size", .int 1)]),
                ("instref", .array [.string "app", .string "fifo"])]),
              ("r", .object [
                ("config", .object [("depth", .int 2), ("width", .int 8)]),
                ("instref", .array [.string "lib", .string "reg"])])])]),
          ("metadata", .object [("at", .object [("file", .null), ("line", .int 7)])]),
          ("type", .array [.string "Record", .array [.array [.string "i", .string "BitIn"]]])])])])]),
    ("top", .array [.string "app", .string "wrap"])]

theorem load_wrappers_turned : ∃ t w d t' w' d',
    load false documentOfWrappers sessionWithRegister.design = .ok (t, w) d ∧
      load false documentOfWrappersTurned sessionWithRegister.design = .ok (t', w') d' ∧
      (∃ v v', d.document? t = some v ∧ d'.document? t' = some v' ∧ v.same v' = true) ∧
      w.Perm w' := by
  have reached : sessionWithRegister.Reachable Live := .run .start (by decide +kernel)
  have accepted : (Edit.answer? (load false documentOfWrappers
      sessionWithRegister.design)).isSome = true := by decide +kernel
  obtain ⟨⟨answer, d⟩, loaded⟩ := Option.isSome_iff_exists.1 accepted
  have loaded := Edit.answer?_eq_some_iff.1 loaded
  obtain ⟨iff, same⟩ := @load_reordered _ reached.careful false documentOfWrappers
    documentOfWrappersTurned (by decide +kernel) (by decide +kernel) (by decide +kernel)
  obtain ⟨answer', d', loaded'⟩ := iff.1 ⟨_, _, loaded⟩
  exact ⟨_, _, d, _, _, d', loaded, loaded', same loaded loaded'⟩

end Document

end Netlist
