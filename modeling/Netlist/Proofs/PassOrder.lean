-- The order in which a load finds defects. It first declares what the document lists, then it
-- reads the definitions, and in the end it looks for the top. So an error in the declarations
-- is the same without any definitions, and an error at the top says that all else is valid.
import Netlist.Proofs.Defects
import Netlist.Proofs.Loaded

namespace Netlist

/-! ## Documents without definitions -/

namespace Assoc

variable {κ α : Type} [DecidableEq κ]

/-- The entries under other keys. -/
def without (key : κ) (es : List (κ × α)) : List (κ × α) := es.filter fun e => e.1 ≠ key

theorem get?_without_self (key : κ) (es : List (κ × α)) : get? key (without key es) = none := by
  refine get?_eq_none_iff.2 fun listed => ?_
  obtain ⟨e, he, rfl⟩ := List.mem_map.1 listed
  exact of_decide_eq_true (List.mem_filter.1 he).2 rfl

theorem get?_without_of_ne {key k : κ} (h : k ≠ key) (es : List (κ × α)) :
    get? k (without key es) = get? k es :=
  get?_filter_ne h es

end Assoc

namespace Json

/-- An object without one of its members. -/
def without (key : String) : Json → Json
  | object ms => object (Assoc.without key ms)
  | v => v

/-- An object in which one member is changed. -/
def modify (key : String) (f : Json → Json) : Json → Json
  | object ms => object (Assoc.modify key f ms)
  | v => v

/-- An object in which every member is changed. -/
def mapMembers (f : Json → Json) : Json → Json
  | object ms => object (ms.map fun m => (m.1, f m.2))
  | v => v

theorem isNull_mapMembers (f : Json → Json) (v : Json) : (v.mapMembers f).isNull = v.isNull := by
  cases v <;> rfl

variable {v : Json} {key : String} {f : Json → Json}

theorem WellFormed.without (h : v.WellFormed) (key : String) : (v.without key).WellFormed := by
  cases v with
  | object ms =>
    rw [wellFormed_object_iff] at h
    refine wellFormed_object_iff.2 ⟨?_, fun m hm => h.2 m (List.mem_of_mem_filter hm)⟩
    exact Assoc.nodup_keys_filter _ h.1
  | null | bool | number | string | array => exact h

theorem WellFormed.modify (h : v.WellFormed) (hf : ∀ v : Json, v.WellFormed → (f v).WellFormed) :
    (v.modify key f).WellFormed := by
  cases v with
  | object ms =>
    rw [wellFormed_object_iff] at h
    have nodup : (Assoc.keys (Assoc.modify key f ms)).Nodup := by
      rw [Assoc.keys_modify]
      exact h.1
    refine wellFormed_object_iff.2 ⟨nodup, ?_⟩
    refine List.forall_mem_map.2 fun m hm => ?_
    split
    · exact hf _ (h.2 m hm)
    · exact h.2 m hm
  | null | bool | number | string | array => exact h

theorem WellFormed.mapMembers (h : v.WellFormed)
    (hf : ∀ v : Json, v.WellFormed → (f v).WellFormed) : (v.mapMembers f).WellFormed := by
  cases v with
  | object ms =>
    rw [wellFormed_object_iff] at h
    have nodup : (Assoc.keys (ms.map fun m => (m.1, f m.2))).Nodup := by
      rw [Assoc.keys_map]
      exact h.1
    refine wellFormed_object_iff.2 ⟨nodup, ?_⟩
    exact List.forall_mem_map.2 fun m hm => hf _ (h.2 m hm)
  | null | bool | number | string | array => exact h

end Json

namespace Document

/-- The node of a namespace in which no module has a definition. -/
def bareNamespace (node : Json) : Json :=
  node.modify "modules" (Json.mapMembers (Json.without "def"))

/-- The document in which no module has a definition. -/
def withoutDefinitions (doc : Json) : Json :=
  doc.modify "namespaces" (Json.mapMembers bareNamespace)

theorem wellFormed_withoutDefinitions {doc : Json} (wf : doc.WellFormed) :
    (withoutDefinitions doc).WellFormed :=
  wf.modify fun _ h => h.mapMembers fun _ h => h.modify fun _ h => h.mapMembers fun _ h =>
    h.without "def"

/-! ## Documents whose top alone is wrong -/

/-- A document that is valid up to its top, which is a pair of names and no more. -/
structure ValidBelowTop (strict : Bool) (scopes : Plain.Scopes) (doc : Json) : Prop where
  object : doc.IsObject
  top : ∃ scope name : String, doc.entry "top" = .array [.string scope, .string name]
  namespaces : (doc.entry "namespaces").IsObject
  namespaces_valid : ∀ n ∈ (doc.entry "namespaces").entries,
    ValidNamespace scopes (ValidModule strict scopes doc) n.1 n.2

end Document

/-! ## The first pass does not look at definitions -/

namespace Plain

open Document

section

variable {ms : List (String × Json)} {key what : String} {f : Json → Json}

theorem members_modify (key : String) (f : Json → Json) (node : Json) (what : String) :
    members (node.modify key f) what = Assoc.modify key f <$> members node what := by
  cases node <;> rfl

theorem members_mapMembers (f : Json → Json) (node : Json) (what : String) :
    members (node.mapMembers f) what =
      (fun ms => ms.map fun m => (m.1, f m.2)) <$> members node what := by
  cases node <;> rfl

theorem members_without (key : String) (node : Json) (what : String) :
    members (node.without key) what = Assoc.without key <$> members node what := by
  cases node <;> rfl

theorem required_modify_of_ne {k : String} (h : k ≠ key) :
    required (Assoc.modify k f ms) key what = required ms key what := by
  rw [required, Assoc.get?_modify, if_neg h]
  rfl

theorem required_modify_self :
    required (Assoc.modify key f ms) key what = f <$> required ms key what := by
  rw [required, required, Assoc.get?_modify, if_pos rfl]
  cases Assoc.get? key ms <;> rfl

theorem optional_modify_of_ne {k : String} (h : k ≠ key) :
    optional (Assoc.modify k f ms) key = optional ms key := by
  unfold Document.optional
  rw [Assoc.get?_modify, if_neg h]

theorem optional_modify_mapMembers :
    optional (Assoc.modify key (Json.mapMembers f) ms) key =
      (optional ms key).map (Json.mapMembers f) := by
  unfold Document.optional
  rw [Assoc.get?_modify, if_pos rfl]
  cases Assoc.get? key ms with
  | none => rfl
  | some v =>
    rw [Option.map_some, Option.filter_some, Option.filter_some, Json.isNull_mapMembers]
    split <;> rfl

end

/-- A module without its definition is declared in the same way, and nothing is pending. -/
theorem declareModule_without (scope name : String) (node : Json) (ns : Outline.Namespace) :
    declareModule scope name (node.without "def") ns =
      (fun r => (r.1, [])) <$> declareModule scope name node ns := by
  have nothing (ms : List (String × Json)) : optional (Assoc.without "def" ms) "def" = none := by
    unfold Document.optional
    rw [Assoc.get?_without_self]
    rfl
  simp only [declareModule, members_without, required, readParams?, readMetadata?, nothing,
    Assoc.get?_without_of_ne (by decide : "type" ≠ "def"),
    Assoc.get?_without_of_ne (by decide : "configparams" ≠ "def"),
    Assoc.get?_without_of_ne (by decide : "metadata" ≠ "def"),
    map_bind, bind_map_left, map_pure, Option.map_none, Option.toList_none]

theorem declareModules_without (scope : String) (ms : List (String × Json))
    (ns : Outline.Namespace) :
    declareModules scope (ms.map fun m => (m.1, m.2.without "def")) ns =
      (fun r => (r.1, [])) <$> declareModules scope ms ns := by
  induction ms generalizing ns with
  | nil => rfl
  | cons m rest ih =>
    simp only [List.map_cons, declareModules, declareModule_without, ih, map_bind, bind_map_left,
      map_pure, List.append_nil]

theorem declareModulesOf_bare (name : String) (ms : List (String × Json))
    (ns : Outline.Namespace) :
    declareModulesOf name (Assoc.modify "modules" (Json.mapMembers (Json.without "def")) ms) ns =
      (fun r => (r.1, [])) <$> declareModulesOf name ms ns := by
  unfold declareModulesOf
  rw [optional_modify_mapMembers]
  cases optional ms "modules" with
  | none => rfl
  | some node =>
    simp only [Option.map_some, members_mapMembers, declareModules_without, map_bind, bind_map_left]

theorem declareNamespace_bare (name : String) (node : Json) (ns : Outline.Namespace) :
    declareNamespace name (bareNamespace node) ns =
      (fun r => (r.1, [])) <$> declareNamespace name node ns := by
  have generators (ms : List (String × Json)) (f : Json → Json) (ns : Outline.Namespace) :
      declareGeneratorsOf name (Assoc.modify "modules" f ms) ns =
        declareGeneratorsOf name ms ns := by
    rw [declareGeneratorsOf, optional_modify_of_ne (by decide)]
    rfl
  have null : (bareNamespace node).isNull = node.isNull := by cases node <;> rfl
  unfold declareNamespace
  rw [null]
  split
  · rfl
  · simp only [bareNamespace, members_modify, declareModulesOf_bare, generators, map_bind,
      bind_map_left, map_pure]

theorem declareNamespaces_bare (nodes : List (String × Json)) (scopes : Scopes) :
    declareNamespaces (nodes.map fun n => (n.1, bareNamespace n.2)) scopes =
      (fun r => (r.1, [])) <$> declareNamespaces nodes scopes := by
  induction nodes generalizing scopes with
  | nil => rfl
  | cons n rest ih =>
    simp only [List.map_cons, declareNamespaces, declareNamespace_bare, ih, map_bind,
      bind_map_left, map_pure, List.append_nil]

/-- Without definitions the first pass goes the same way, and leaves nothing to the second. -/
theorem declareDocument_withoutDefinitions (doc : Json) (scopes : Scopes) :
    declareDocument (withoutDefinitions doc) scopes =
      (fun r => (r.1, r.2.1, [])) <$> declareDocument doc scopes := by
  simp only [declareDocument, withoutDefinitions, members_modify, required_modify_self,
    required_modify_of_ne (by decide : "namespaces" ≠ "top"), members_mapMembers,
    declareNamespaces_bare, map_bind, bind_map_left, map_pure]

/-! ## The top comes last -/

/-- The error of a reading that gets through both passes, and then finds no module that is the
top. -/
def topError? (strict : Bool) (doc : Json) (scopes : Scopes) : Option LoadError :=
  match declareDocument doc scopes with
  | .ok (top, now, ps) =>
    match readDefinitions strict now ps with
    | .ok _ =>
      match requireTop now top.1 top.2 with
      | .ok _ => none
      | .error e => some e
    | .error _ => none
  | .error _ => none

section

variable {strict : Bool} {doc : Json} {scopes : Scopes} {e : LoadError}

/-- A reading fails in the first pass, in the second one, or at the top. -/
theorem read_eq_error_iff : read strict doc scopes = .error e ↔
    declareDocument doc scopes = .error e ∨
    (∃ top now ps, declareDocument doc scopes = .ok (top, now, ps) ∧
      readDefinitions strict now ps = .error e) ∨
    topError? strict doc scopes = some e := by
  rw [read_eq, topError?]
  cases declareDocument doc scopes with
  | error e' => simp [bind, Except.bind]
  | ok x =>
    obtain ⟨top, now, ps⟩ := x
    cases hr : readDefinitions strict now ps with
    | error e' => simp [bind, Except.bind, hr]
    | ok r =>
      cases ht : requireTop now top.1 top.2 with
      | error e' => simp [bind, Except.bind, hr, ht]
      | ok => simp [bind, Except.bind, hr, ht, pure, Except.pure]

theorem topError?_eq_some_iff : topError? strict doc scopes = some e ↔
    ∃ top now ps r, declareDocument doc scopes = .ok (top, now, ps) ∧
      readDefinitions strict now ps = .ok r ∧ requireTop now top.1 top.2 = .error e := by
  rw [topError?]
  cases declareDocument doc scopes with
  | error e' => simp
  | ok x =>
    obtain ⟨top, now, ps⟩ := x
    cases hr : readDefinitions strict now ps with
    | error e' => simp [hr]
    | ok r =>
      obtain ⟨ds, warnings⟩ := r
      cases ht : requireTop now top.1 top.2 <;> simp [hr, ht]

/-- Without definitions there is nothing that can fail between the first pass and the top. -/
theorem read_of_withoutDefinitions
    (failed : read strict (withoutDefinitions doc) scopes = .error e)
    (before : topError? strict (withoutDefinitions doc) scopes = none) :
    read strict doc scopes = .error e := by
  refine read_eq_error_iff.2 (Or.inl ?_)
  have same := declareDocument_withoutDefinitions doc scopes
  rcases read_eq_error_iff.1 failed with first | ⟨top, now, ps, first, second⟩ | last
  · rw [first] at same
    cases hd : declareDocument doc scopes with
    | error e' => rw [hd] at same; cases same; rfl
    | ok x => rw [hd] at same; cases same
  · rw [first] at same
    cases hd : declareDocument doc scopes with
    | error e' => rw [hd] at same; cases same
    | ok x => rw [hd] at same; cases same; cases second
  · rw [before] at last
    cases last

theorem declareDocument_eq_ok_iff {top : String × String} {now : Scopes} {ps : List Pending} :
    declareDocument doc scopes = .ok (top, now, ps) ↔ ∃ ms nodes, doc = .object ms ∧
      Assoc.get? "top" ms = some (.array [.string top.1, .string top.2]) ∧
      Assoc.get? "namespaces" ms = some (.object nodes) ∧
      declareNamespaces nodes scopes = .ok (now, ps) := by
  obtain ⟨scope, name⟩ := top
  constructor
  · intro h
    obtain ⟨ms, hms, h⟩ := bind_eq_ok_iff.1 h
    obtain ⟨v, hv, h⟩ := bind_eq_ok_iff.1 h
    obtain ⟨_, hpair, h⟩ := bind_eq_ok_iff.1 h
    obtain ⟨n, hn, h⟩ := bind_eq_ok_iff.1 h
    obtain ⟨nodes, hnodes, h⟩ := bind_eq_ok_iff.1 h
    obtain ⟨_, hdecl, h⟩ := bind_eq_ok_iff.1 h
    cases h
    obtain rfl := members_eq_ok hms
    obtain rfl := members_eq_ok hnodes
    rw [required_eq_ok_iff] at hv hn
    exact ⟨ms, nodes, rfl, symbolPair_eq_ok_iff.1 hpair ▸ hv, hn, hdecl⟩
  · rintro ⟨ms, nodes, rfl, hv, hn, hdecl⟩
    refine bind_eq_ok_iff.2 ⟨ms, rfl, bind_eq_ok_iff.2 ⟨_, required_eq_ok_iff.2 hv, ?_⟩⟩
    refine bind_eq_ok_iff.2 ⟨_, symbolPair_eq_ok_iff.2 rfl, ?_⟩
    refine bind_eq_ok_iff.2 ⟨_, required_eq_ok_iff.2 hn, bind_eq_ok_iff.2 ⟨nodes, rfl, ?_⟩⟩
    exact bind_eq_ok_iff.2 ⟨_, hdecl, rfl⟩

/-- What a document says that the first pass gets through. -/
theorem exists_nodes_of_declared (wf : doc.WellFormed) {top : String × String} {now : Scopes}
    {ps : List Pending} (declared : declareDocument doc scopes = .ok (top, now, ps)) :
    ∃ ms nodes, doc = .object ms ∧ doc.entry "top" = .array [.string top.1, .string top.2] ∧
      doc.entry "namespaces" = .object nodes ∧ (Json.object nodes).WellFormed ∧
      declareNamespaces nodes scopes = .ok (now, ps) := by
  obtain ⟨ms, nodes, rfl, ht, hn, hdecl⟩ := declareDocument_eq_ok_iff.1 declared
  refine ⟨ms, nodes, rfl, ?_, ?_, wf.member hn, hdecl⟩
  · rw [entry_object, ht]
    rfl
  · rw [entry_object, hn]
    rfl

/-- Both passes go through exactly if everything below the top is valid. -/
theorem exists_passes_iff (wf : doc.WellFormed) (nodup : (Assoc.keys scopes).Nodup) :
    (∃ top now ps r, declareDocument doc scopes = .ok (top, now, ps) ∧
      readDefinitions strict now ps = .ok r) ↔ ValidBelowTop strict scopes doc := by
  constructor
  · rintro ⟨⟨scope, name⟩, now, ps, ⟨ds, warnings⟩, declared, defined⟩
    obtain ⟨ms, nodes, same, top, listed, wfNodes, hdecl⟩ := exists_nodes_of_declared wf declared
    obtain ⟨nss, said, fresh, -⟩ := (passes_eq_ok_iff wfNodes nodup).1 ⟨hdecl, _, defined⟩
    refine ⟨⟨ms, same⟩, ⟨scope, name, top⟩, ⟨nodes, listed⟩, ?_⟩
    rw [listed]
    exact (exists_namespaces_iff listed wfNodes nodup).1 ⟨nss, said, fresh⟩
  · rintro ⟨⟨ms, rfl⟩, ⟨scope, name, top⟩, ⟨nodes, listed⟩, valid⟩
    have hn := get?_of_entry listed nofun
    have wfNodes := wf.member hn
    rw [listed] at valid
    obtain ⟨nss, said, fresh⟩ := (exists_namespaces_iff listed wfNodes nodup).2 valid
    obtain ⟨hdecl, w, defined⟩ :=
      (passes_eq_ok_iff wfNodes nodup).2 ⟨nss, said, fresh, rfl, rfl, rfl⟩
    exact ⟨(scope, name), _, _, _, declareDocument_eq_ok_iff.2
      ⟨ms, nodes, rfl, get?_of_entry top nofun, hn, hdecl⟩, defined⟩

/-- An error at the top is there exactly if everything else is valid and the top is not. -/
theorem isSome_topError?_iff (wf : doc.WellFormed) (nodup : (Assoc.keys scopes).Nodup) :
    (topError? strict doc scopes).isSome ↔
      ValidBelowTop strict scopes doc ∧ ¬ Valid strict scopes doc := by
  have valid : Valid strict scopes doc ↔ ∃ r, read strict doc scopes = .ok r := by
    rw [← exists_documentNode_iff wf nodup]
    simp only [← read_eq_ok_iff wf nodup, Prod.exists]
  rw [valid, ← exists_passes_iff wf nodup, Option.isSome_iff_exists]
  constructor
  · rintro ⟨e, failed⟩
    obtain ⟨top, now, ps, r, declared, defined, -⟩ := topError?_eq_some_iff.1 failed
    refine ⟨⟨top, now, ps, r, declared, defined⟩, fun ⟨r, ok⟩ => ?_⟩
    cases ok.symm.trans (read_eq_error_iff.2 (Or.inr (Or.inr failed)))
  · rintro ⟨⟨top, now, ps, r, declared, defined⟩, invalid⟩
    cases ht : requireTop now top.1 top.2 with
    | error e => exact ⟨e, topError?_eq_some_iff.2 ⟨top, now, ps, r, declared, defined, ht⟩⟩
    | ok =>
      refine absurd ⟨(⟨top, defineAll ps r.1 now⟩, r.2), ?_⟩ invalid
      rw [read_eq]
      refine bind_eq_ok_iff.2 ⟨_, declared, bind_eq_ok_iff.2 ⟨r, defined, ?_⟩⟩
      exact bind_eq_ok_iff.2 ⟨_, ht, rfl⟩

/-- At the top the names stand for nothing, or for a generator. -/
theorem topError?_cases (wf : doc.WellFormed) (failed : topError? strict doc scopes = some e) :
    ∃ scope name, doc.entry "top" = .array [.string scope, .string name] ∧
      (e = .symbol (GraphError.missingSymbol scope name).message ∧
          Unresolved scopes doc scope name ∨
        e = .structural (GraphError.wrongTargetKind (scope ++ "." ++ name) .module).message ∧
          ∃ params, StandsFor scopes doc scope name .generator params) := by
  obtain ⟨⟨scope, name⟩, now, ps, r, declared, -, unresolved⟩ := topError?_eq_some_iff.1 failed
  obtain ⟨-, nodes, -, top, listed, wfNodes, hdecl⟩ := exists_nodes_of_declared wf declared
  obtain ⟨nss, said, fresh, rfl, -⟩ := (declareNamespaces_eq_ok_iff wfNodes).1 hdecl
  have tells := tells_extend listed said
    (said.keys ▸ (Json.wellFormed_object_iff.1 wfNodes).1) fresh
  refine ⟨scope, name, top, ?_⟩
  dsimp only at unresolved
  unfold requireTop requireSymbol at unresolved
  cases hs : symbol? (extend scopes nss) scope name with
  | none =>
    rw [hs] at unresolved
    cases unresolved
    exact Or.inl ⟨rfl, tells.unresolved (by rw [signature?, hs]; rfl)⟩
  | some s =>
    rw [hs] at unresolved
    cases s with
    | module m => cases unresolved
    | generator g =>
      cases unresolved
      exact Or.inr ⟨rfl, g.params, tells.target (signature?_of_symbol? hs)⟩

end

end Plain

/-! ## Loads -/

namespace Document

open Plain (Scopes)

/-- The error of a load that gets through both passes, and then finds no module that is the
top. -/
def topError? (strict : Bool) (doc : Json) (d : Design) : Option LoadError :=
  match declareDocument doc d with
  | .ok (top, us) d =>
    match readDefinitions strict us d with
    | .ok _ d => Edit.refusal? ((Edit.resolveModule top.1 top.2).within .ofGraph d)
    | .error _ _ => none
  | .error _ _ => none

section

variable {d : Design} {scopes : Scopes} {strict : Bool} {doc : Json}

theorem topError?_eq (hd : d.Sound) (hs : d.outlineNamespaces? = some scopes)
    (wf : doc.WellFormed) : topError? strict doc d = Plain.topError? strict doc scopes := by
  have first := mirrors_declareDocument hd hs wf
  unfold topError? Plain.topError?
  cases hp : Plain.declareDocument doc scopes with
  | error e =>
    rw [hp] at first
    obtain ⟨d₁, ran, -⟩ := first
    rw [ran]
  | ok x =>
    rw [hp] at first
    obtain ⟨⟨top, us⟩, d₁, ran, sound₁, -, same, hs₁, each, -⟩ := first
    obtain ⟨_, now, ps⟩ := x
    cases same
    have second := mirrors_readDefinitions strict sound₁ hs₁ each
    rw [ran]
    dsimp only
    cases hr : Plain.readDefinitions strict now ps with
    | error e =>
      rw [hr] at second
      obtain ⟨d₂, ran, -⟩ := second
      rw [ran]
    | ok r =>
      rw [hr] at second
      obtain ⟨_, d₂, ran, sound₂, i₂, -⟩ := second
      have last := mirrors_resolveModule sound₂ (i₂.outlineNamespaces sound₂ hs₁) top.1 top.2
      rw [ran]
      dsimp only
      cases ht : Plain.requireTop now top.1 top.2 with
      | error e =>
        rw [ht] at last
        obtain ⟨d₃, ran, -⟩ := last
        rw [ran]
        rfl
      | ok =>
        rw [ht] at last
        obtain ⟨_, d₃, ran, -⟩ := last
        rw [ran]
        rfl

/-- A load fails exactly as the plain reading of its document. -/
theorem exists_load_error_iff (hd : d.Sound) (hs : d.outlineNamespaces? = some scopes)
    (wf : doc.WellFormed) {f : Failure LoadError} : (∃ d', load strict doc d = .error f d') ↔
      ∃ e, f = .error e ∧ Plain.read strict doc scopes = .error e := by
  constructor
  · rintro ⟨d', failed⟩
    cases hr : Plain.read strict doc scopes with
    | error e =>
      obtain ⟨_, failed'⟩ := load_of_read_error hd hs wf hr
      cases failed.symm.trans failed'
      exact ⟨e, rfl, rfl⟩
    | ok r =>
      obtain ⟨top, _, loaded, -⟩ := load_of_read_ok hd hs wf hr
      cases failed.symm.trans loaded
  · rintro ⟨e, rfl, failed⟩
    exact load_of_read_error hd hs wf failed

end

/-- What the failures of a load say about a document, for a design with these namespaces. -/
structure Diagnoses (strict : Bool) (scopes : Scopes) (doc : Json) (d : Design) : Prop where
  /-- A load that fails stops at an error, and the document has the defect that it tells of. -/
  defect : ∀ {f d'}, load strict doc d = .error f d' →
    ∃ e, f = .error e ∧ Defect strict scopes doc e
  /-- What fails without any definitions fails in the same way with them, except at the top. -/
  declarations_first : ∀ {f d'}, load strict (withoutDefinitions doc) d = .error f d' →
    topError? strict (withoutDefinitions doc) d = none → ∃ d'', load strict doc d = .error f d''
  /-- A load fails at the top exactly if everything else is valid, and the top is not. -/
  top_last : (topError? strict doc d).isSome ↔
    ValidBelowTop strict scopes doc ∧ ¬ Valid strict scopes doc
  /-- At the top, the names stand for nothing or for a generator. -/
  at_top : ∀ {e}, topError? strict doc d = some e →
    (∃ d', load strict doc d = .error (.error e) d') ∧
    ∃ scope name, doc.entry "top" = .array [.string scope, .string name] ∧
      (e = .symbol (GraphError.missingSymbol scope name).message ∧
          Unresolved scopes doc scope name ∨
        e = .structural (GraphError.wrongTargetKind (scope ++ "." ++ name) .module).message ∧
          ∃ params, StandsFor scopes doc scope name .generator params)

open Session in
/-- Whatever calls led to a design, a load into it that fails tells of a defect of the document,
of the first one in the order of the passes. -/
theorem failed_load_names_first_defect {s : Session} (reached : s.Reachable Careful) (strict : Bool)
    {doc : Json} (wf : doc.WellFormed) : ∃ scopes, s.design.outlineNamespaces? = some scopes ∧
      Diagnoses strict scopes doc s.design := by
  have hd := reached.sound_of_careful.design
  obtain ⟨scopes, hs⟩ := hd.exists_outlineNamespaces
  have nodup := nodup_keys_outlineNamespaces hd hs
  have bare := wellFormed_withoutDefinitions wf
  refine ⟨scopes, hs, fun failed => ?_, fun {f d'} failed before => ?_, ?_, fun {e} failed => ?_⟩
  · obtain ⟨e, rfl, read⟩ := (exists_load_error_iff hd hs wf).1 ⟨_, failed⟩
    exact ⟨e, rfl, Plain.read_fails wf e read⟩
  · obtain ⟨e, rfl, read⟩ := (exists_load_error_iff hd hs bare).1 ⟨d', failed⟩
    rw [topError?_eq hd hs bare] at before
    exact (exists_load_error_iff hd hs wf).2 ⟨e, rfl, Plain.read_of_withoutDefinitions read before⟩
  · rw [topError?_eq hd hs wf]
    exact Plain.isSome_topError?_iff wf nodup
  · rw [topError?_eq hd hs wf] at failed
    have read := Plain.read_eq_error_iff.2 (Or.inr (Or.inr failed))
    exact ⟨(exists_load_error_iff hd hs wf).2 ⟨e, rfl, read⟩, Plain.topError?_cases wf failed⟩

/-- A document with three defects: an unknown word in a type, an instance of something that is
nowhere, and a top that is nowhere. -/
def documentWithThreeDefects : Json :=
  .object [
    ("top", .array [.string "lib", .string "nowhere"]),
    ("namespaces", .object [
      ("lib", .object [("modules", .object [("wrap", .object [
        ("type", .array [.string "Array", .int 4, .string "Bit"]),
        ("def", .object [("instances", .object [("r", .object [
          ("instref", .array [.string "lib", .string "gate"])])])])])])])])]

theorem first_defects_with_register : ∃ scopes,
    sessionWithRegister.design.outlineNamespaces? = some scopes ∧
      (∃ d', load false documentWithThreeDefects sessionWithRegister.design =
        .error (.error (.type "Bit is not a type!")) d') ∧
      Defect false scopes documentWithThreeDefects (.type "Bit is not a type!") ∧
      ValidBelowTop false scopes documentWithoutTop ∧ ¬ Valid false scopes documentWithoutTop ∧
      Unresolved scopes documentWithoutTop "lib" "nowhere" := by
  have reached : sessionWithRegister.Reachable Session.Live := .run .start (by decide +kernel)
  obtain ⟨scopes, outline, many⟩ :=
    @failed_load_names_first_defect _ reached.careful false documentWithThreeDefects
      (by decide +kernel)
  obtain ⟨_, outline', topless⟩ :=
    @failed_load_names_first_defect _ reached.careful false documentWithoutTop (by decide +kernel)
  cases outline.symm.trans outline'
  have bare : Edit.refusal? (load false (withoutDefinitions documentWithThreeDefects)
      sessionWithRegister.design) = some (.type "Bit is not a type!") := by
    decide +kernel
  have last : topError? false documentWithoutTop sessionWithRegister.design =
      some (.symbol "Missing Symbol: lib.nowhere") := by
    decide +kernel
  obtain ⟨_, bare⟩ := Edit.refusal?_eq_some_iff.1 bare
  obtain ⟨d', failed⟩ := many.declarations_first bare (by decide +kernel)
  obtain ⟨_, same, defect⟩ := many.defect failed
  cases same
  obtain ⟨below, invalid⟩ := topless.top_last.1 (Option.isSome_of_eq_some last)
  refine ⟨scopes, outline, ⟨d', failed⟩, defect, below, invalid, ?_⟩
  obtain ⟨-, scope, name, top, ⟨-, nothing⟩ | ⟨generator, -⟩⟩ := topless.at_top last
  · cases top
    exact nothing
  · cases generator

end Document

end Netlist
