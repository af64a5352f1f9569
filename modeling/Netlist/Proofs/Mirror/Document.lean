-- A whole load mirrors the plain reading of its document: the definitions that were read
-- are attached in the end, and the outline of what comes out is what the plain reading says.
import Netlist.Proofs.Mirror.Definitions

namespace Netlist

variable {c d : Design}

namespace Design

/-! ## Attaching a definition -/

/-- No two modules go by the same names. -/
theorem Sound.symbolText_injective (sound : d.Sound) {a b : ModuleId} {s : String × String}
    (ha : d.symbolText? (.module a) = some s) (hb : d.symbolText? (.module b) = some s) : a = b := by
  obtain ⟨scope, n, ns, hp, hns, hs, hn⟩ := symbolText_eq_some_iff.1 ha
  obtain ⟨scope', k, ns', hq, hns', hs', hk⟩ := symbolText_eq_some_iff.1 hb
  cases sound.text_injective hn hk
  cases sound.namespace_unique hns hns' (sound.text_injective hs hs')
  cases hns.symm.trans hns'
  have listed : ∀ {id : ModuleId}, d.placeOf? (.module id) = some (scope, n) →
      (n, id) ∈ ns.modules.toList := fun {id} h => by
    obtain ⟨m, hm, same⟩ := Option.map_eq_some_iff.1 h
    cases same
    obtain ⟨ns', hns', mem⟩ := (sound.moduleSound hm).scope
    cases hns.symm.trans hns'
    exact mem
  have nodup := (sound.modules hns).nodup
  exact Option.some.inj (((Assoc.get?_eq_some_iff nodup).2 (listed hp)).symm.trans
    ((Assoc.get?_eq_some_iff nodup).2 (listed hq)))

variable {id : ModuleId} {m : Module} {x : Definition} {r : Outline.Definition}

/-- A defined module has the outline of its definition in its own, and no other changes. -/
theorem Sound.outlineModule_define (hd' : (d.define id x).Sound)
    (hr : d.outlineDefinition? x = some r) (hm : d.modules.get? id = some m)
    (undefined : m.definition = none) {k : ModuleId} {o : Outline.Module}
    (ho : d.outlineModule? k = some o) :
    (d.define id x).outlineModule? k =
      some (if k = id then { o with definition := some r } else o) := by
  have keeps := (grows_define hm undefined x).keeps
  obtain ⟨m', hm', type, params, metadata, body⟩ := outlineModule_eq_some_iff.1 ho
  have type := keeps.typeTree hd' type
  have params := keeps.outlineParams params
  have get := Table.get?_modify d.modules id k fun m => { m with definition := some x }
  rw [hm'] at get
  by_cases hk : k = id
  · subst hk
    rw [if_pos rfl] at get ⊢
    refine outlineModule_eq_some_iff.2 ⟨_, get, type, params, metadata, ?_⟩
    exact Option.map_eq_some_iff.2 ⟨r, keeps.outlineDefinition hd' hr, rfl⟩
  · rw [if_neg (Ne.symm hk)] at get
    rw [if_neg hk]
    exact outlineModule_eq_some_iff.2
      ⟨m', get, type, params, metadata, keeps.outlineBody hd' body⟩

/-- A module of a namespace is the one that goes by these names if its own names are these. -/
theorem Sound.eq_iff_symbol (sound : d.Sound) {scope name : String}
    (symbol : d.symbolText? (.module id) = some (scope, name)) {nid : NamespaceId} {ns : Namespace}
    (hns : d.namespaces.get? nid = some ns) {w v : String} (hw : d.text? ns.name = some w)
    {n : Name} {k : ModuleId} (mem : (n, k) ∈ ns.modules.toList) (hv : d.text? n = some v) :
    k = id ↔ w = scope ∧ v = name := by
  obtain ⟨m, hm, named, inScope⟩ := (sound.namespaceSound hns).modules _ mem
  have symbol' : d.symbolText? (.module k) = some (w, v) :=
    symbolText_eq_some_iff.2 ⟨nid, n, ns, by simp [placeOf?, hm, named, inScope], hns, hw, hv⟩
  constructor
  · rintro rfl
    cases symbol.symm.trans symbol'
    exact ⟨rfl, rfl⟩
  · rintro ⟨rfl, rfl⟩
    exact sound.symbolText_injective symbol' symbol

theorem Sound.outlineNamespace_define (sound : d.Sound) (hd' : (d.define id x).Sound)
    (hr : d.outlineDefinition? x = some r) (hm : d.modules.get? id = some m)
    (undefined : m.definition = none) {scope name : String}
    (symbol : d.symbolText? (.module id) = some (scope, name)) {nid : NamespaceId}
    {ns : Namespace} (hns : d.namespaces.get? nid = some ns) {w : String}
    (text : d.text? ns.name = some w) {o : Outline.Namespace}
    (ho : d.outlineNamespace? ns = some o) :
    (d.define id x).outlineNamespace? ns = some (if w = scope then
      { o with modules := Assoc.modify name (fun m => { m with definition := some r }) o.modules }
      else o) := by
  obtain ⟨modules, generators⟩ := outlineNamespace_eq_some_iff.1 ho
  have all := (List.forall₂_and_left _ _).2 ⟨fun e he => he, outlineEntries_eq_some_iff.1 modules⟩
  have entry : ∀ {e : Name × ModuleId} {f : String × Outline.Module}, e ∈ ns.modules.toList →
      d.text? e.1 = some f.1 → d.outlineModule? e.2 = some f.2 →
      (d.define id x).outlineModule? e.2 =
        some (if w = scope ∧ f.1 = name then { f.2 with definition := some r } else f.2) := by
    intro e f mem hf ho
    rw [hd'.outlineModule_define hr hm undefined ho]
    simp only [sound.eq_iff_symbol symbol hns text mem hf]
  by_cases hw : w = scope
  · rw [if_pos hw, outlineNamespace_eq_some_iff]
    refine ⟨?_, generators⟩
    rw [outlineEntries_eq_some_iff, Assoc.modify, List.forall₂_map_right_iff]
    refine all.imp fun e f h => ?_
    obtain ⟨mem, hf, ho⟩ := h
    have new := entry mem hf ho
    by_cases hv : f.1 = name
    · rw [if_pos ⟨hw, hv⟩] at new
      rw [if_pos hv]
      exact ⟨hf, new⟩
    · rw [if_neg fun h => hv h.2] at new
      rw [if_neg hv]
      exact ⟨hf, new⟩
  · rw [if_neg hw, outlineNamespace_eq_some_iff]
    refine ⟨outlineEntries_eq_some_iff.2 (all.imp fun e f h => ⟨h.2.1, ?_⟩), generators⟩
    rw [entry h.1 h.2.1 h.2.2, if_neg fun h => hw h.1]

/-- In the outlines, too, only the module that goes by these names is defined. -/
theorem Sound.outlineNamespaces_define (sound : d.Sound) (hd' : (d.define id x).Sound)
    (hr : d.outlineDefinition? x = some r) (hm : d.modules.get? id = some m)
    (undefined : m.definition = none) {scope name : String}
    (symbol : d.symbolText? (.module id) = some (scope, name)) {scopes : Plain.Scopes}
    (h : d.outlineNamespaces? = some scopes) :
    (d.define id x).outlineNamespaces? = some (Plain.define scope name r scopes) := by
  rw [outlineNamespaces_eq_entries] at h ⊢
  have unchanged : (d.define id x).namespaceEntries = d.namespaceEntries := rfl
  rw [unchanged, Plain.define, Assoc.modify, outlineEntries_eq_some_iff, List.forall₂_map_right_iff]
  have all := (List.forall₂_and_left _ _).2 ⟨fun e he => he, outlineEntries_eq_some_iff.1 h⟩
  refine all.imp ?_
  rintro ⟨k, ns⟩ ⟨w, o⟩ ⟨mem, text, outline⟩
  obtain ⟨rfl, nid, hns⟩ := mem_namespaceEntries.1 mem
  have new := sound.outlineNamespace_define hd' hr hm undefined symbol hns text outline
  by_cases hw : w = scope
  · rw [if_pos hw] at new ⊢
    exact ⟨text, new⟩
  · rw [if_neg hw] at new ⊢
    exact ⟨text, new⟩

end Design

namespace Document

open Design Edit Mirrors

variable {scopes : Plain.Scopes}

/-- The others go on to await their definitions when one module is defined. -/
theorem AllRead.define {u : Undefined} {m : Module} (hm : d.modules.get? u.id = some m)
    (undefined : m.definition = none) {x : Definition} (hd' : (d.define u.id x).Sound)
    {us : List Undefined} {ps : List Plain.Pending} {xs : List Definition}
    {rs : List Outline.Definition} (h : AllRead d us ps xs rs) (others : ∀ v ∈ us, v.id ≠ u.id) :
    AllRead (d.define u.id x) us ps xs rs := by
  have keeps := (grows_define hm undefined x).keeps
  induction h with
  | nil => exact .nil
  | @cons v us p ps y ys r rs awaits reads rest ih =>
    rw [List.forall_mem_cons] at others
    obtain ⟨m', hm', undefined'⟩ := awaits.undefined
    refine .cons ⟨awaits.node, awaits.wellFormed, keeps.symbolText awaits.symbol, m', ?_, undefined'⟩
      (reads.keep keeps hd') (ih others.2)
    rw [Design.define, Table.get?_modify, if_neg (Ne.symm others.1), hm']

theorem AllRead.interns {us : List Undefined} {ps : List Plain.Pending} {xs : List Definition}
    {rs : List Outline.Definition} (h : AllRead c us ps xs rs) (i : c.Interns d) (hd : d.Sound) :
    AllRead d us ps xs rs := by
  induction h with
  | nil => exact .nil
  | cons awaits reads _ ih => exact .cons (awaits.extend i.extends) (reads.keep i.keeps hd) ih

/-- Modules that await their definitions get them all. -/
theorem attachAll_of_allRead {us : List Undefined} {ps : List Plain.Pending}
    {xs : List Definition} {rs : List Outline.Definition} :
    ∀ {d : Design} {scopes : Plain.Scopes}, d.Sound → d.outlineNamespaces? = some scopes →
    AllRead d us ps xs rs → (us.map (·.id)).Nodup →
    ∃ d', attachAll xs d = .ok () d' ∧ d'.Sound ∧ d.Grows d' ∧
      d'.outlineNamespaces? = some (Plain.defineAll ps rs scopes) := by
  induction us generalizing ps xs rs with
  | nil =>
    intro d scopes hd hs all nodup
    cases all
    exact ⟨d, rfl, hd, .refl d, hs⟩
  | cons u us ih =>
    intro d scopes hd hs all nodup
    cases all with
    | @cons _ _ p ps x xs r rs awaits reads rest =>
    obtain ⟨m, hm, undefined⟩ := awaits.undefined
    have attached : attach x d = .ok () (d.define u.id x) := by
      rw [attach_apply, reads.owner, hm]
      simp [undefined]
    have hd' := hd.define reads.owner reads.sound
    have hs' := hd.outlineNamespaces_define hd' reads.outline hm undefined awaits.symbol hs
    rw [List.map_cons, List.nodup_cons] at nodup
    have others : ∀ v ∈ us, v.id ≠ u.id := fun v hv same =>
      nodup.1 (same ▸ List.mem_map_of_mem hv)
    obtain ⟨d', ran, sound, grows, outline⟩ :=
      ih hd' hs' (rest.define hm undefined hd' others) nodup.2
    exact ⟨d', (bind_of_ok (within_of_ok attached)).trans ran, sound,
      (grows_define hm undefined x).trans grows, outline⟩

theorem wellFormed_required {ms : List (String × Json)} (wf : (Json.object ms).WellFormed)
    {key what : String} {node : Json} (h : required ms key what = .ok node) :
    node.WellFormed := by
  unfold required at h
  cases hk : Assoc.get? key ms with
  | none => rw [hk] at h; cases h
  | some v => rw [hk] at h; cases h; exact wf.member hk

/-! ## The passes -/

/-- The first pass: the names of the top, and the modules whose definitions are still to be
read. -/
def declareDocument (doc : Json) : Load ((String × String) × List Undefined) := do
  let ms ← members doc "document"
  let top ← symbolPair (← required ms "top" "document") (quoted "top")
  let namespaces ← members (← required ms "namespaces" "document") (quoted "namespaces")
  return (top, ← declareNamespaces namespaces)

/-- A document is declared, then defined, and then its top is resolved. -/
theorem read_eq (strict : Bool) (doc : Json) : read strict doc = (do
    let x ← declareDocument doc
    let r ← readDefinitions strict x.2
    let id ← (resolveModule x.1.1 x.1.2).within .ofGraph
    attachAll r.1
    return (id, r.2)) := by
  simp only [read, declareDocument, bind_assoc, pure_bind]

end Document

namespace Plain

open Document (Reading members required symbolPair quoted)

/-- What the first pass comes to for an outline. -/
def declareDocument (doc : Json) (scopes : Scopes) :
    Reading ((String × String) × Scopes × List Pending) := do
  let ms ← members doc "document"
  let top ← symbolPair (← required ms "top" "document") (quoted "top")
  let namespaces ← members (← required ms "namespaces" "document") (quoted "namespaces")
  return (top, ← declareNamespaces namespaces scopes)

theorem read_eq (strict : Bool) (doc : Json) (scopes : Scopes) : read strict doc scopes = (do
    let x ← declareDocument doc scopes
    let r ← readDefinitions strict x.2.1 x.2.2
    requireTop x.2.1 x.1.1 x.1.2
    return (⟨x.1, defineAll x.2.2 r.1 x.2.1⟩, r.2)) := by
  simp only [read, declareDocument, bind_assoc, pure_bind]

end Plain

namespace Document

open Design Edit Mirrors

variable {scopes : Plain.Scopes}

theorem mirrors_declareDocument (hd : d.Sound) (hs : d.outlineNamespaces? = some scopes)
    {doc : Json} (wf : doc.WellFormed) :
    Mirrors Grows d (declareDocument doc) (Plain.declareDocument doc scopes)
      fun d' r x => r.1 = x.1 ∧ d'.outlineNamespaces? = some x.2.1 ∧
        List.Forall₂ (Awaits d') r.2 x.2.2 ∧ (r.2.map (·.id)).Nodup := by
  unfold declareDocument Plain.declareDocument
  refine (Mirrors.reading hd _).bind fun {ms _ d₁} hms sound₁ i₁ same => ?_
  subst same
  have wf' := wellFormed_members wf hms
  refine (Mirrors.reading sound₁ _).bind fun {topNode _ d₂} _ sound₂ i₂ same => ?_
  subst same
  refine (Mirrors.reading sound₂ _).bind fun {top _ d₃} _ sound₃ i₃ same => ?_
  subst same
  refine (Mirrors.reading sound₃ _).bind fun {node _ d₄} hnode sound₄ i₄ same => ?_
  subst same
  refine (Mirrors.reading sound₄ _).bind fun {namespaces _ d₅} hns sound₅ i₅ same => ?_
  subst same
  have nodes := (Json.wellFormed_object_iff.1
    (wellFormed_members (wellFormed_required wf' hnode) hns)).2
  have i := ((i₁.trans i₂).trans (i₃.trans i₄)).trans i₅
  refine (mirrors_declareNamespaces nodes sound₅ (i.outlineNamespaces sound₅ hs)).bind
    fun {us x d₆} _ sound₆ _ ⟨hs₆, awaiting⟩ => ?_
  exact .pure sound₆ ⟨rfl, hs₆, awaiting.each, awaiting.nodup⟩ (.refl d₆)

/-- To read a document into a design is to read it into the outline of the design. -/
theorem mirrors_read (hd : d.Sound) (hs : d.outlineNamespaces? = some scopes) (strict : Bool)
    {doc : Json} (wf : doc.WellFormed) :
    Mirrors Grows d (read strict doc) (Plain.read strict doc scopes)
      fun d' answer o => d'.outline? answer.1 = some o.1 ∧ answer.2 = o.2 := by
  rw [read_eq, Plain.read_eq]
  refine (mirrors_declareDocument hd hs wf).bind
    fun {r x d₁} _ sound₁ _ ⟨same, hs₁, each, nodup⟩ => ?_
  obtain ⟨top, us⟩ := r
  obtain ⟨_, scopes₁, ps⟩ := x
  subst same
  refine (mirrors_readDefinitions strict sound₁ hs₁ each).bind
    fun {xs rs d₂} _ sound₂ i₂ ⟨all, same⟩ => ?_
  have hs₂ := i₂.outlineNamespaces sound₂ hs₁
  refine (mirrors_resolveModule sound₂ hs₂ _ _).bind fun {id _ d₃} _ sound₃ i₃ symbol => ?_
  obtain ⟨d', attached, sound', grows, outline⟩ := attachAll_of_allRead sound₃
    (i₃.outlineNamespaces sound₃ hs₂) (all.interns i₃ sound₃) nodup
  exact .ok (bind_of_ok attached) sound' grows
    ⟨outline_eq_some_iff.2 ⟨grows.keeps.symbolText symbol, outline⟩, same⟩

/-- A load succeeds if the plain reading of its document does, and then the outline of the
design is the one that was read. -/
theorem load_of_read_ok (hd : d.Sound) (hs : d.outlineNamespaces? = some scopes) {strict : Bool}
    {doc : Json} (wf : doc.WellFormed) {o : Outline} {warnings : List Diagnostic}
    (h : Plain.read strict doc scopes = .ok (o, warnings)) :
    ∃ top d', load strict doc d = .ok (top, warnings) d' ∧ d'.Sound ∧ d.Grows d' ∧
      d'.outline? top = some o := by
  have mirrors := mirrors_read hd hs strict wf
  rw [h] at mirrors
  obtain ⟨⟨top, _⟩, d', ran, sound, grows, outline, rfl⟩ := mirrors
  exact ⟨top, d', by rw [load, ran], sound, grows, outline⟩

/-- It fails if the plain reading does, with the same error. -/
theorem load_of_read_error (hd : d.Sound) (hs : d.outlineNamespaces? = some scopes)
    {strict : Bool} {doc : Json} (wf : doc.WellFormed) {e : LoadError}
    (h : Plain.read strict doc scopes = .error e) :
    ∃ d', load strict doc d = .error (.error e) d' := by
  have mirrors := mirrors_read hd hs strict wf
  rw [h] at mirrors
  obtain ⟨d', ran, -⟩ := mirrors
  exact ⟨_, by rw [load, ran]⟩

end Document

end Netlist
