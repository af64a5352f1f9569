-- The second pass of a load: building definitions mirrors reading them as outlines. The
-- outlines of the namespaces stay as the first pass left them, so each name is looked up
-- in them.
import Netlist.Proofs.Mirror.Declarations

namespace Netlist

variable {c d : Design}

/-! ## Looking names up -/

namespace Design

/-- What a symbol of an outline stands for in the design. -/
inductive Denotes (d : Design) (scope name : String) : Target → Plain.Symbol → Prop
  | module {id m} (outline : d.outlineModule? id = some m)
    (symbol : d.symbolText? (.module id) = some (scope, name)) :
    d.Denotes scope name (.module id) (.module m)
  | generator {id g} (outline : d.outlineGenerator? id = some g)
    (symbol : d.symbolText? (.generator id) = some (scope, name)) :
    d.Denotes scope name (.generator id) (.generator g)

/-- A symbol is found by name in a namespace if it is found by text in its outline. -/
theorem Sound.symbol_iff (sound : d.Sound) {id : NamespaceId} {ns : Namespace}
    (hns : d.namespaces.get? id = some ns) {scope : String} (hs : d.text? ns.name = some scope)
    {r : Outline.Namespace} (hr : d.outlineNamespace? ns = some r) {n : Name} {name : String}
    (text : d.text? n = some name) :
    Option.Rel (d.Denotes scope name) (ns.symbol? n) (Plain.symbolIn? r name) := by
  obtain ⟨modules, generators⟩ := outlineNamespace_eq_some_iff.1 hr
  have listed := sound.namespaceSound hns
  have found := sound.get?_outlineEntries modules text
  have found' := sound.get?_outlineEntries generators text
  unfold Namespace.symbol? Plain.symbolIn?
  rw [(sound.modules hns).get?_eq, (sound.generators hns).get?_eq]
  generalize hm : Assoc.get? n ns.modules.toList = o at found
  generalize Assoc.get? name r.modules = o' at found
  cases found with
  | @some id' m outline =>
    obtain ⟨m', hm', named, inScope⟩ := listed.modules _ (Assoc.mem_of_get? hm)
    refine .some (.module outline (symbolText_eq_some_iff.2 ⟨_, _, ns, ?_, hns, hs, text⟩))
    simp [placeOf?, hm', named, inScope]
  | none =>
    generalize hg : Assoc.get? n ns.generators.toList = o at found'
    generalize Assoc.get? name r.generators = o' at found'
    cases found' with
    | none => exact .none
    | @some id' g outline =>
      obtain ⟨g', hg', named, inScope⟩ := listed.generators _ (Assoc.mem_of_get? hg)
      refine .some (.generator outline (symbolText_eq_some_iff.2 ⟨_, _, ns, ?_, hns, hs, text⟩))
      simp [placeOf?, hg', named, inScope]

/-- A name is looked up by its number as it is by its text in the outlines. -/
theorem Sound.lookup_iff (sound : d.Sound) {scopes : Plain.Scopes}
    (h : d.outlineNamespaces? = some scopes) (scope name : String) :
    ∃ t, d.lookup? scope name = some t ∧
      Option.Rel (d.Denotes scope name) t (Plain.symbol? scopes scope name) := by
  have all := (outlineNamespaces_eq_entries d _).1 h
  unfold lookup? namespaceId? Plain.symbol?
  cases hs : d.names.find? scope with
  | none =>
    rw [Assoc.get?_eq_none_iff.2 (sound.not_mem_keys all hs)]
    exact ⟨none, rfl, .none⟩
  | some s =>
    have text : d.text? s = some scope := (sound.names scope s).1 hs
    have found := sound.get?_outlineEntries all text
    rw [Option.bind_some]
    cases hi : d.scopes[s]? with
    | none =>
      have absent : Assoc.get? s d.namespaceEntries = none := by
        rw [Assoc.get?_eq_none_iff, List.mem_map]
        rintro ⟨⟨k, ns⟩, mem, rfl⟩
        obtain ⟨same, id, hns⟩ := mem_namespaceEntries.1 mem
        rw [(sound.scopes k id).2 ⟨ns, hns, same⟩] at hi
        cases hi
      rw [absent] at found
      cases hr : Assoc.get? scope scopes with
      | none => exact ⟨none, rfl, .none⟩
      | some r => rw [hr] at found; cases found
    | some id =>
      obtain ⟨ns, hns, same⟩ := (sound.scopes s id).1 hi
      rw [(Assoc.get?_eq_some_iff sound.nodup_namespaceEntries).2
        (mem_namespaceEntries.2 ⟨same, id, hns⟩)] at found
      cases hr : Assoc.get? scope scopes with
      | none => rw [hr] at found; cases found
      | some r =>
        rw [hr] at found
        cases found with
        | some outline =>
        cases hn : d.names.find? name with
        | some n =>
          have named : d.text? n = some name := (sound.names name n).1 hn
          simp only [hns, Option.map_some, Option.bind_some]
          exact ⟨_, rfl, sound.symbol_iff hns (same ▸ text) outline named⟩
        | none =>
          obtain ⟨modules, generators⟩ := outlineNamespace_eq_some_iff.1 outline
          simp only [Option.bind_some, Plain.symbolIn?,
            Assoc.get?_eq_none_iff.2 (sound.not_mem_keys modules hn),
            Assoc.get?_eq_none_iff.2 (sound.not_mem_keys generators hn)]
          exact ⟨none, rfl, .none⟩

theorem Denotes.kind {scope name : String} {t : Target} {symbol : Plain.Symbol}
    (h : d.Denotes scope name t symbol) : t.kind = symbol.kind := by
  cases h <;> rfl

theorem Denotes.symbolText {scope name : String} {t : Target} {symbol : Plain.Symbol}
    (h : d.Denotes scope name t symbol) : d.symbolText? t = some (scope, name) := by
  cases h <;> assumption

/-- What a name stands for asks for the parameters that its outline has. -/
theorem Denotes.params (sound : d.Sound) {scope name : String} {t : Target}
    {symbol : Plain.Symbol} (h : d.Denotes scope name t symbol) :
    ∃ params, d.configParams? t = some params ∧ Document.SoundParams d params symbol.params := by
  cases h with
  | module outline =>
    obtain ⟨m, hm, -, params, -⟩ := outlineModule_eq_some_iff.1 outline
    exact ⟨m.params, by simp [configParams?, hm], (sound.moduleSound hm).params, params⟩
  | generator outline =>
    obtain ⟨g, hg, -, params, -⟩ := outlineGenerator_eq_some_iff.1 outline
    exact ⟨g.params, by simp [configParams?, hg], (sound.generatorSound hg).params, params⟩

end Design

namespace Document

open Design Edit Mirrors

/-- A name is resolved if it is found in the outlines. -/
theorem resolve_cases (sound : d.Sound) {scopes : Plain.Scopes}
    (h : d.outlineNamespaces? = some scopes) (scope name : String) :
    (∃ t symbol, Plain.symbol? scopes scope name = some symbol ∧
      resolve scope name d = .ok t d ∧ d.Denotes scope name t symbol) ∨
    Plain.symbol? scopes scope name = none ∧
      resolve scope name d = .error (.error (.missingSymbol scope name)) d := by
  obtain ⟨t, found, denotes⟩ := sound.lookup_iff h scope name
  generalize Plain.symbol? scopes scope name = symbol at denotes
  have read : (live fun d => d.lookup? scope name : Edit GraphError _) d = .ok t d :=
    live_of_some found
  cases denotes with
  | none => exact Or.inr ⟨rfl, by rw [resolve, bind_of_ok read]; rfl⟩
  | some denotes => exact Or.inl ⟨_, _, rfl, by rw [resolve, bind_of_ok read]; rfl, denotes⟩

theorem mirrors_resolve (sound : d.Sound) {scopes : Plain.Scopes}
    (h : d.outlineNamespaces? = some scopes) (scope name : String) :
    Mirrors Interns d ((resolve scope name).within .ofGraph)
      (Plain.requireSymbol scopes scope name) fun d' => d'.Denotes scope name := by
  unfold Plain.requireSymbol
  rcases resolve_cases sound h scope name with ⟨t, symbol, found, ran, denotes⟩ | ⟨none, ran⟩
  · rw [found]
    exact .ok (within_of_ok ran) sound (.refl d) denotes
  · rw [none]
    exact .error (by rw [within_apply, ran]; rfl) sound

/-- The top of a document must be a module. -/
theorem mirrors_resolveModule (sound : d.Sound) {scopes : Plain.Scopes}
    (h : d.outlineNamespaces? = some scopes) (scope name : String) :
    Mirrors Interns d ((resolveModule scope name).within .ofGraph)
      (Plain.requireTop scopes scope name)
      fun d' id _ => d'.symbolText? (.module id) = some (scope, name) := by
  unfold Plain.requireTop Plain.requireSymbol
  rcases resolve_cases sound h scope name with ⟨t, symbol, found, ran, denotes⟩ | ⟨none, ran⟩
  · rw [found]
    have label := qualifiedName_of_symbolText denotes.symbolText
    cases denotes with
    | module outline symbol =>
      exact .ok (within_of_ok (by rw [resolveModule, bind_of_ok ran]; rfl)) sound (.refl d) symbol
    | generator outline symbol =>
      refine .error ?_ sound
      rw [within_apply, resolveModule, bind_of_ok ran]
      simp only [Target.asModule?, failWith_apply, label]
      rfl
  · rw [none]
    exact .error (by rw [within_apply, resolveModule, bind_of_error ran]; rfl) sound

/-! ## Definitions while they are read -/

/-- A sound definition of a module, and its outline. -/
structure Drafts (d : Design) (id : ModuleId) (owner : String) (x : Definition)
    (r : Outline.Definition) : Prop where
  sound : x.Sound d
  outline : d.outlineDefinition? x = some r
  ofModule : x.owner = id
  label : d.qualifiedName? (.module id) = some owner

variable {id : ModuleId} {owner : String} {x : Definition} {r : Outline.Definition} {scopes : Plain.Scopes}

theorem Drafts.keep (h : Drafts c id owner x r) (k : c.Keeps d) (hd : d.Sound) :
    Drafts d id owner x r := by
  refine ⟨h.sound.keep k, k.outlineDefinition hd h.outline, h.ofModule, ?_⟩
  obtain ⟨s, hs, same⟩ := Option.bind_eq_some_iff.1 h.label
  exact Option.bind_eq_some_iff.2 ⟨s, k.symbolText hs, same⟩

/-- The instances by name, as they are outlined. -/
theorem outline_instances (h : x.Sound d) (outline : d.outlineDefinition? x = some r) :
    d.outlineEntries? d.outlineInstance? x.instances.toList = some r.instances := by
  have values := (outlineDefinition_eq_some_iff.1 outline).1
  rw [NameMap.values, List.forall₂_map_left_iff] at values
  rw [outlineEntries_eq_some_iff]
  exact ((List.forall₂_and_left _ _).2 ⟨h.instance_name, values⟩).imp
    fun e r h => ⟨h.1.1 ▸ h.2.1, h.2.2⟩

theorem Drafts.instances (h : Drafts d id owner x r) :
    d.outlineEntries? d.outlineInstance? x.instances.toList = some r.instances :=
  outline_instances h.sound h.outline

/-- A word names an instance of the definition if it is listed in the outline. -/
theorem Drafts.contains_iff (h : Drafts d id owner x r) (hd : d.Sound) {n : Name} {word : String}
    (text : d.text? n = some word) :
    x.instances.contains n = true ↔ word ∈ Assoc.keys r.instances := by
  rw [h.sound.instances.consistent.contains_iff]
  exact hd.mem_keys_iff h.instances text

/-! ## Instances -/

/-- A draft with one more instance. -/
theorem Drafts.append (h : Drafts d id owner x r) {i : Instance} (hi : i.Sound d) {name : String}
    (text : d.text? i.name = some name) (other : i.name ≠ selfName)
    (fresh : x.instances.contains i.name = false) {i' : Outline.Instance}
    (outline : d.outlineInstance? i = some i') :
    Drafts d id owner { x with instances := x.instances.append i.name i }
      { r with instances := r.instances ++ [(name, i')] } := by
  refine ⟨h.sound.append hi (Option.isSome_of_eq_some text) other fresh, ?_, h.ofModule, h.label⟩
  rw [outlineDefinition_eq_some_iff]
  obtain ⟨instances, rest⟩ := outlineDefinition_eq_some_iff.1 h.outline
  refine ⟨?_, rest⟩
  rw [NameMap.values, NameMap.toList_append, List.map_append]
  exact List.rel_append instances (.cons ⟨text, outline⟩ .nil)

/-- A new instance is refused for its name if it is refused for its text. -/
theorem Drafts.requireNew_cases (h : Drafts d id owner x r) (hd : d.Sound) {i : Instance}
    {name : String} (text : d.text? i.name = some name) :
    (Plain.requireNew owner name r.instances = .ok () ∧ i.name ≠ selfName ∧
      x.instances.contains i.name = false) ∨
    ∃ e, Plain.requireNew owner name r.instances = .error (.ofGraph e) ∧
      x.insertInstance i d = .error (.error e) d := by
  unfold Plain.requireNew
  rw [Definition.insertInstance_apply, h.ofModule, h.label, text]
  have reserved := hd.text_eq_iff text hd.self
  have taken := h.contains_iff hd text
  by_cases hs : name = selfWord
  · rw [if_pos hs, if_pos (reserved.2 hs)]
    exact Or.inr ⟨_, rfl, rfl⟩
  · rw [if_neg hs, if_neg fun h => hs (reserved.1 h)]
    by_cases hk : name ∈ Assoc.keys r.instances
    · rw [if_pos hk, if_pos (taken.2 hk)]
      exact Or.inr ⟨_, rfl, rfl⟩
    · rw [if_neg hk]
      exact Or.inl ⟨rfl, fun h => hs (reserved.1 h), Bool.eq_false_iff.2 fun h => hk (taken.1 h)⟩

theorem mirrors_addInstance (hd : d.Sound) (h : Drafts d id owner x r) (name : String)
    {scope ref : String} {target : ModuleId}
    (symbol : d.symbolText? (.module target) = some (scope, ref)) {params : Params} {config : Args}
    (hp : d.configParams? (.module target) = some params) (fits : params.Fits config)
    {bs : List (String × ArgTree)} (hc : SoundArgs d config bs) {metadata : Reading Metadata}
    (wf : ∀ {md}, metadata = .ok md → md.WellFormed) (warnings : List Diagnostic) :
    Mirrors Interns d
      (do
        let (x, i) ← (x.addInstance name target config).within .ofGraph
        let md ← metadata
        return (x.annotate i.name md, warnings) : Load (Definition × List Diagnostic))
      (do
        Plain.requireNew owner name r.instances
        let md ← metadata
        return (r.instances ++ [(name, ⟨.module, (scope, ref), none, bs, md⟩)], warnings))
      fun d' y r' => Drafts d' id owner y.1 { r with instances := r'.1 } ∧ y.2 = r'.2 := by
  have interns := interns_withName d name
  have sound₁ := hd.withName name
  have text := hd.text_withName name
  have h₁ := h.keep interns.keeps sound₁
  obtain ⟨mod, hm, rfl⟩ := Option.map_eq_some_iff.1 hp
  have label := qualifiedName_of_symbolText symbol
  have added := Definition.addInstance_apply x name config hm label
  rw [fits] at added
  rcases h₁.requireNew_cases sound₁
    (i := ⟨(d.names.intern name).1, .module target, config, none, ∅⟩) text with
    ⟨new, other, fresh⟩ | ⟨e, refused, refused'⟩
  · have stepped := added.trans ((Definition.insertInstance_apply ..).trans
      ((if_neg other).trans (if_neg (by simp [fresh]))))
    rw [new]
    cases hmd : metadata with
    | error e => exact .error (bind_of_ok (within_of_ok stepped)) sound₁
    | ok md =>
      have config₁ := hc.keep sound₁ interns.keeps
      have soundInstance : Instance.Sound (d.withName name)
          ⟨(d.names.intern name).1, .module target, config, none, md⟩ :=
        ⟨⟨mod.params, interns.keeps.configParams hp, fits⟩, config₁.1, trivial, wf hmd⟩
      have outline : (d.withName name).outlineInstance?
          ⟨(d.names.intern name).1, .module target, config, none, md⟩ =
            some ⟨.module, (scope, ref), none, bs, md⟩ :=
        outlineInstance_eq_some_iff.2
          ⟨rfl, interns.keeps.symbolText symbol, rfl, config₁.2, rfl⟩
      refine .ok (bind_of_ok (within_of_ok stepped)) sound₁ interns ⟨?_, rfl⟩
      change Drafts _ id _ { x with instances := (x.instances.append _ _).modify _ _ } _
      rw [NameMap.modify_append]
      exact h₁.append soundInstance text other fresh outline
  · rw [refused]
    exact .error (bind_of_error (by rw [within_apply, added, refused']; rfl)) sound₁

theorem mirrors_readInstance (hd : d.Sound) (hs : d.outlineNamespaces? = some scopes)
    (h : Drafts d id owner x r) (strict : Bool) (name : String) {node : Json}
    (wf : node.WellFormed) :
    Mirrors Interns d (readInstance strict owner x name node)
      (Plain.readInstance strict scopes owner name node r.instances)
      fun d' y r' => Drafts d' id owner y.1 { r with instances := r'.1 } ∧ y.2 = r'.2 := by
  unfold readInstance Plain.readInstance
  refine (Mirrors.reading hd _).bind fun {ms _ d₁} hms sound₁ i₁ same => ?_
  subst same
  refine (Mirrors.reading sound₁ _).bind fun {ref _ d₂} _ sound₂ i₂ same => ?_
  subst same
  refine (Mirrors.reading sound₂ _).bind fun {pair _ d₃} _ sound₃ i₃ same => ?_
  subst same
  have i := (i₁.trans i₂).trans i₃
  refine (mirrors_resolve sound₃ (i.outlineNamespaces sound₃ hs) _ _).bind
    fun {t symbol d₄} _ sound₄ i₄ denotes => ?_
  obtain ⟨params, hp, soundParams⟩ := denotes.params sound₄
  refine .look (live_of_some hp) ?_
  refine (mirrors_readArgs sound₄ soundParams _ _ strict).bind
    fun {answer answer' d₅} _ sound₅ i₅ ⟨hc, fits, same⟩ => ?_
  obtain ⟨config, warnings⟩ := answer
  obtain ⟨bs, warnings'⟩ := answer'
  cases same
  have h₅ := h.keep ((i.trans i₄).trans i₅).keeps sound₅
  have params₅ := i₅.keeps.configParams hp
  cases denotes with
  | module outline symbol =>
    cases (Assoc.get? "genargs" ms).isSome with
    | true => exact .fail sound₅ _
    | false =>
      exact mirrors_addInstance sound₅ h₅ name (i₅.keeps.symbolText symbol)
        (i₅.keeps.configParams hp) fits hc
        (wellFormed_readMetadata? (wellFormed_members wf hms)) warnings
  | generator => cases (Assoc.get? "genargs" ms).isSome <;> exact .fail sound₅ _

theorem mirrors_readInstances (strict : Bool) {ms : List (String × Json)}
    (wf : ∀ m ∈ ms, m.2.WellFormed) : ∀ {d : Design} {x : Definition} {r : Outline.Definition},
    d.Sound → d.outlineNamespaces? = some scopes → Drafts d id owner x r →
    Mirrors Interns d (readInstances strict owner x ms)
      (Plain.readInstances strict scopes owner ms r.instances)
      fun d' y r' => Drafts d' id owner y.1 { r with instances := r'.1 } ∧ y.2 = r'.2 := by
  induction ms with
  | nil => exact fun hd _ h => .pure hd ⟨h, rfl⟩ (.refl _)
  | cons m rest ih =>
    intro d x r hd hs h
    rw [List.forall_mem_cons] at wf
    refine (mirrors_readInstance hd hs h strict m.1 wf.1).bind
      fun {y r' d₁} _ sound₁ i₁ ⟨h₁, same⟩ => ?_
    refine (ih wf.2 sound₁ (i₁.outlineNamespaces sound₁ hs) h₁).bind
      fun {z r'' d₂} _ sound₂ i₂ ⟨h₂, same'⟩ => ?_
    exact .pure sound₂ ⟨h₂, by rw [same, same']⟩ (.refl d₂)

/-! ## Connections -/

theorem mirrors_readWords (malformed : LoadError) {words : List Json} :
    ∀ {d : Design}, d.Sound →
    Mirrors Interns d (readWords malformed words) (Plain.readWords malformed words)
      fun d' => List.Forall₂ fun n w => d'.text? n = some w := by
  induction words with
  | nil => exact fun hd => .pure hd .nil (.refl _)
  | cons node rest ih =>
    intro d hd
    cases node with
    | string word =>
      obtain ⟨n, d₁, ran, sound₁, i₁, text⟩ := (Mirrors.intern hd word : Mirrors (ε := LoadError) ..)
      refine .after ran i₁ ((ih sound₁).bind fun _ sound₂ i₂ h => ?_)
      exact .pure sound₂ (.cons (i₂.keeps.names text) h) (.refl _)
    | null | bool | number | array | object => exact .fail hd _

theorem mirrors_readWirePath (hd : d.Sound) (node : Json) (what : String) :
    Mirrors Interns d (readWirePath node what) (Plain.readWirePath node what)
      fun d' p words => d'.outlinePath? p = some words := by
  unfold readWirePath Plain.readWirePath
  cases node with
  | array words =>
    refine (mirrors_readWords _ hd).bind fun {ns ws d₁} _ sound₁ _ h => ?_
    cases h with
    | nil => exact .fail sound₁ _
    | cons text rest => exact .pure sound₁ (outlinePath_eq_some_iff.2 (.cons text rest)) (.refl d₁)
  | null | bool | number | string | object => exact .fail hd _

/-- An end of a connection is refused if its words are. -/
theorem Drafts.requireEnd_cases (h : Drafts d id owner x r) (hd : d.Sound) {p : WirePath}
    {words : List String} (hp : d.outlinePath? p = some words) :
    (Plain.requireEnd owner r.instances words = .ok () ∧ x.checkEnd d p = .ok () ∧
      x.SoundEnd d p) ∨
    ∃ e, Plain.requireEnd owner r.instances words = .error (.ofGraph e) ∧
      x.checkEnd d p = .error (.error e) := by
  have texts := outlinePath_eq_some_iff.1 hp
  have named : ∀ n ∈ p.root :: p.selectors, (d.text? n).isSome := fun n hn => by
    obtain ⟨w, -, text⟩ := exists_of_forall₂ texts hn
    exact Option.isSome_of_eq_some text
  cases texts with
  | @cons _ root _ _ text _ =>
  have checked := Definition.checkEnd_eq (x := x) text
  have self := hd.text_eq_iff text hd.self
  have inst := h.contains_iff hd text
  unfold Plain.requireEnd Plain.root
  rw [List.headD_cons]
  rw [h.ofModule, h.label] at checked
  by_cases empty : root = ""
  · rw [if_pos empty] at checked ⊢
    exact Or.inr ⟨_, rfl, checked⟩
  · rw [if_neg empty] at checked ⊢
    by_cases known : root = selfWord ∨ root ∈ Assoc.keys r.instances
    · rw [if_pos (known.imp self.2 inst.2)] at checked
      rw [if_pos known]
      exact Or.inl ⟨rfl, checked, Definition.soundEnd_of_checkEnd named checked⟩
    · rw [if_neg fun h => known (h.imp self.1 inst.1)] at checked
      rw [if_neg known]
      exact Or.inr ⟨_, rfl, checked⟩

/-- Paths are the same exactly when their words are. -/
theorem path_eq_iff (hd : d.Sound) {p q : WirePath} {v w : List String}
    (hp : d.outlinePath? p = some v) (hq : d.outlinePath? q = some w) : p = q ↔ v = w := by
  rw [outlinePath_eq_some_iff] at hp hq
  rw [← eq_iff_of_forall₂ (fun hn hk => hd.text_eq_iff hn hk) hp hq, List.cons.injEq]
  cases p
  cases q
  rw [WirePath.mk.injEq]

/-- A link is put in among the outlines of the connections as it is among the connections. -/
theorem outline_linked (hd : d.Sound) {connections : Array Connection}
    {rs : List Outline.Connection}
    (h : List.Forall₂ (fun c r => d.outlineConnection? c = some r) connections.toList rs)
    {a b : WirePath} {v w : List String} (ha : d.outlinePath? a = some v)
    (hb : d.outlinePath? b = some w) (metadata : Metadata) :
    List.Forall₂ (fun c r => d.outlineConnection? c = some r)
      (Definition.linked connections a b metadata).1.toList (Plain.link rs v w metadata) := by
  rw [Definition.toList_linked, Plain.link]
  refine forall₂_updateFirst h (fun {c r} hr => ?_) (fun {c r} hr => ?_)
    (outlineConnection_eq_some_iff.2 ⟨ha, hb, rfl⟩)
  · obtain ⟨first, second, -⟩ := outlineConnection_eq_some_iff.1 hr
    rw [Bool.eq_iff_iff]
    simp only [Connection.links, Plain.links, Definition.sameEnds, Bool.or_eq_true,
      Bool.and_eq_true, beq_iff_eq, path_eq_iff hd first ha, path_eq_iff hd first hb,
      path_eq_iff hd second ha, path_eq_iff hd second hb]
  · obtain ⟨first, second, same⟩ := outlineConnection_eq_some_iff.1 hr
    exact outlineConnection_eq_some_iff.2 ⟨first, second, by rw [same]⟩

theorem mirrors_connect (hd : d.Sound) (h : Drafts d id owner x r) {a b : WirePath}
    {v w : List String} (ha : d.outlinePath? a = some v) (hb : d.outlinePath? b = some w)
    {metadata : Metadata} (wf : metadata.WellFormed) :
    Mirrors Interns d
      (do
        let (y, _) ← (check fun d => x.connect d a b metadata).within .ofGraph
        return y : Load Definition)
      (do
        Plain.requireEnd owner r.instances v
        Plain.requireEnd owner r.instances w
        return Plain.link r.connections v w metadata)
      fun d' y cs => Drafts d' id owner y { r with connections := cs } := by
  rcases h.requireEnd_cases hd ha with ⟨first, checked, sound⟩ | ⟨e, refused, refused'⟩
  · rcases h.requireEnd_cases hd hb with ⟨second, checked', sound'⟩ | ⟨e, refused, refused'⟩
    · obtain ⟨c, connected⟩ := Definition.connect_of_ok checked checked' metadata
      obtain ⟨instances, connections, rest⟩ := outlineDefinition_eq_some_iff.1 h.outline
      have linked : Drafts d id owner
          { x with connections := (Definition.linked x.connections a b metadata).1 }
          { r with connections := Plain.link r.connections v w metadata } :=
        ⟨h.sound.link sound sound' wf, outlineDefinition_eq_some_iff.2
          ⟨instances, outline_linked hd connections ha hb metadata, rest⟩, h.ofModule, h.label⟩
      have stepped : ((check fun d => x.connect d a b metadata).within .ofGraph : Load _) d =
          .ok ({ x with connections := (Definition.linked x.connections a b metadata).1 }, c) d := by
        rw [within_apply, check_apply, connected]
      rw [first, second]
      exact .ok (bind_of_ok stepped) hd (.refl d) linked
    · rw [first, refused]
      refine .error (bind_of_error ?_) hd
      rw [within_apply, check_apply, Definition.connect, checked, refused']
      rfl
  · rw [refused]
    refine .error (bind_of_error ?_) hd
    rw [within_apply, check_apply, Definition.connect, refused']
    rfl

theorem items_eq_ok {node : Json} {what : String} {vs : List Json}
    (h : items node what = .ok vs) : node = .array vs := by
  cases node <;> cases h
  rfl

theorem connectionParts_eq_ok_iff {node : Json} {what : String} {a b m : Json} :
    connectionParts node what = .ok (a, b, m) ↔
      node = .array [a, b] ∧ m = .null ∨ node = .array [a, b, m] := by
  constructor
  · intro h
    cases node with
    | array vs =>
      match vs, h with
      | [_, _], h => cases h; exact Or.inl ⟨rfl, rfl⟩
      | [_, _, _], h => cases h; exact Or.inr rfl
      | [], h | [_], h | _ :: _ :: _ :: _ :: _, h => cases h
    | null | bool | number | string | object => cases h
  · rintro (⟨rfl, rfl⟩ | rfl) <;> rfl

theorem mirrors_readConnection (hd : d.Sound) (h : Drafts d id owner x r) {node : Json}
    (wf : node.WellFormed) :
    Mirrors Interns d (readConnection owner x node)
      (Plain.readConnection owner r.instances node r.connections)
      fun d' y cs => Drafts d' id owner y { r with connections := cs } := by
  unfold readConnection Plain.readConnection
  refine (Mirrors.reading hd _).bind fun {parts _ d₁} hparts sound₁ i₁ same => ?_
  subst same
  refine (mirrors_readWirePath sound₁ _ _).bind fun {a v d₂} _ sound₂ i₂ ha => ?_
  refine (mirrors_readWirePath sound₂ _ _).bind fun {b w d₃} _ sound₃ i₃ hb => ?_
  refine (Mirrors.reading sound₃ _).bind fun {md _ d₄} hmd sound₄ i₄ same => ?_
  subst same
  have wf' : parts.2.2.WellFormed := by
    rcases connectionParts_eq_ok_iff.1 hparts with ⟨-, null⟩ | rfl
    · rw [null]
      trivial
    · exact Json.wellFormed_array_iff.1 wf _ (by simp)
  have i := i₃.trans i₄
  exact mirrors_connect sound₄ (h.keep ((i₁.trans i₂).trans i).keeps sound₄)
    (i.keeps.outlinePath ha) (i₄.keeps.outlinePath hb) (wellFormed_readMetadata wf' hmd)

theorem mirrors_readConnections {nodes : List Json} (wf : ∀ v ∈ nodes, v.WellFormed) :
    ∀ {d : Design} {x : Definition} {r : Outline.Definition}, d.Sound → Drafts d id owner x r →
    Mirrors Interns d (readConnections owner x nodes)
      (Plain.readConnections owner r.instances nodes r.connections)
      fun d' y cs => Drafts d' id owner y { r with connections := cs } := by
  induction nodes with
  | nil => exact fun hd h => .pure hd h (.refl _)
  | cons node rest ih =>
    intro d x r hd h
    rw [List.forall_mem_cons] at wf
    exact (mirrors_readConnection hd h wf.1).bind fun _ sound₁ _ h₁ => ih wf.2 sound₁ h₁

/-! ## Definitions -/

theorem mirrors_readInstancesOf (hd : d.Sound) (hs : d.outlineNamespaces? = some scopes)
    (hm : (d.modules.get? id).isSome) (label : d.qualifiedName? (.module id) = some owner)
    (strict : Bool) {ms : List (String × Json)} (wf : (Json.object ms).WellFormed) :
    Mirrors Interns d (readInstancesOf strict owner id ms)
      (Plain.readInstancesOf strict scopes owner ms)
      fun d' y r => Drafts d' id owner y.1 ⟨r.1, [], ∅, ∅⟩ ∧ y.2 = r.2 := by
  have start : Drafts d id owner (.empty id) ⟨[], [], ∅, ∅⟩ := ⟨.empty hm, rfl, rfl, label⟩
  unfold readInstancesOf Plain.readInstancesOf
  cases hn : optional ms "instances" with
  | none => exact .pure hd ⟨start, rfl⟩ (.refl d)
  | some node =>
    refine (Mirrors.reading hd _).bind fun {entries _ d₁} hes sound₁ i₁ same => ?_
    subst same
    have nodes :=
      (Json.wellFormed_object_iff.1 (wellFormed_members (wellFormed_optional wf hn) hes)).2
    exact mirrors_readInstances strict nodes sound₁ (i₁.outlineNamespaces sound₁ hs)
      (start.keep i₁.keeps sound₁)

theorem mirrors_readConnectionsOf (hd : d.Sound) {instances : List (String × Outline.Instance)}
    (h : Drafts d id owner x ⟨instances, [], ∅, ∅⟩) {ms : List (String × Json)}
    (wf : (Json.object ms).WellFormed) :
    Mirrors Interns d (readConnectionsOf owner x ms) (Plain.readConnectionsOf owner instances ms)
      fun d' y cs => Drafts d' id owner y ⟨instances, cs, ∅, ∅⟩ := by
  unfold readConnectionsOf Plain.readConnectionsOf
  cases hn : optional ms "connections" with
  | none => exact .pure hd h (.refl d)
  | some node =>
    refine (Mirrors.reading hd _).bind fun {nodes _ d₁} hes sound₁ i₁ same => ?_
    subst same
    have wf' := Json.wellFormed_array_iff.1 (items_eq_ok hes ▸ wellFormed_optional wf hn)
    exact mirrors_readConnections wf' sound₁ (h.keep i₁.keeps sound₁)

/-- A definition that was read: sound, of the module that awaits it, and with this outline. -/
structure Reads (d : Design) (u : Undefined) (x : Definition) (r : Outline.Definition) :
    Prop where
  owner : x.owner = u.id
  sound : x.Sound d
  outline : d.outlineDefinition? x = some r

theorem Reads.keep {u : Undefined} (h : Reads c u x r) (k : c.Keeps d) (hd : d.Sound) :
    Reads d u x r :=
  ⟨h.owner, h.sound.keep k, k.outlineDefinition hd h.outline⟩

theorem mirrors_readDefinition (hd : d.Sound) (hs : d.outlineNamespaces? = some scopes)
    (strict : Bool) {u : Undefined} {p : Plain.Pending} (awaits : Awaits d u p) :
    Mirrors Interns d (readDefinition strict u) (Plain.readDefinition strict scopes p)
      fun d' y r => Reads d' u y.1 r.1 ∧ y.2 = r.2 := by
  have label := qualifiedName_of_symbolText awaits.symbol
  obtain ⟨m, hm, -⟩ := awaits.undefined
  unfold readDefinition Plain.readDefinition
  refine .look (live_of_some label) ?_
  rw [awaits.node]
  refine (Mirrors.reading hd _).bind fun {ms _ d₁} hms sound₁ i₁ same => ?_
  subst same
  have wf' := wellFormed_members awaits.wellFormed hms
  refine (mirrors_readInstancesOf sound₁ (i₁.outlineNamespaces sound₁ hs)
    (i₁.keeps.module_isSome (Option.isSome_of_eq_some hm))
    (qualifiedName_of_symbolText (i₁.keeps.symbolText awaits.symbol)) strict wf').bind
    fun {y r d₂} _ sound₂ i₂ ⟨h₂, same⟩ => ?_
  refine (mirrors_readConnectionsOf sound₂ h₂ wf').bind fun {z cs d₃} _ sound₃ i₃ h₃ => ?_
  refine (Mirrors.reading sound₃ _).bind fun {implementations _ d₄} him sound₄ i₄ same' => ?_
  subst same'
  refine (Mirrors.reading sound₄ _).bind fun {metadata _ d₅} hmd sound₅ i₅ same' => ?_
  subst same'
  have h₅ := h₃.keep (i₄.trans i₅).keeps sound₅
  have readSound : { z with implementations, metadata }.Sound d₅ :=
    { h₅.sound with
      implementations := wellFormed_readMetadata? wf' him
      metadata := wellFormed_readMetadata? wf' hmd
      ends := fun c hc => ⟨{ (h₅.sound.ends c hc).1 with }, { (h₅.sound.ends c hc).2 with }⟩ }
  obtain ⟨instances, connections, -⟩ := outlineDefinition_eq_some_iff.1 h₅.outline
  exact .pure sound₅ ⟨⟨h₅.ofModule, readSound,
    outlineDefinition_eq_some_iff.2 ⟨instances, connections, rfl, rfl⟩⟩, same⟩ (.refl d₅)

/-- Modules that await the definitions that were read for them, one after another. -/
inductive AllRead (d : Design) :
    List Undefined → List Plain.Pending → List Definition → List Outline.Definition → Prop
  | nil : AllRead d [] [] [] []
  | cons {u us p ps x xs r rs} (awaits : Awaits d u p) (reads : Reads d u x r)
    (rest : AllRead d us ps xs rs) : AllRead d (u :: us) (p :: ps) (x :: xs) (r :: rs)

theorem mirrors_readDefinitions (strict : Bool) {us : List Undefined} {ps : List Plain.Pending} :
    ∀ {d : Design}, d.Sound → d.outlineNamespaces? = some scopes →
    List.Forall₂ (Awaits d) us ps →
    Mirrors Interns d (readDefinitions strict us) (Plain.readDefinitions strict scopes ps)
      fun d' y r => AllRead d' us ps y.1 r.1 ∧ y.2 = r.2 := by
  induction us generalizing ps with
  | nil =>
    intro d hd _ awaiting
    cases awaiting
    exact .pure hd ⟨.nil, rfl⟩ (.refl d)
  | cons u us ih =>
    intro d hd hs awaiting
    cases awaiting with
    | cons awaits rest =>
    refine (mirrors_readDefinition hd hs strict awaits).bind
      fun {y r d₁} _ sound₁ i₁ ⟨reads, same⟩ => ?_
    refine (ih sound₁ (i₁.outlineNamespaces sound₁ hs)
      (rest.imp fun _ _ h => h.extend i₁.extends)).bind fun {ys rs d₂} _ sound₂ i₂ ⟨more, same'⟩ => ?_
    have i := i₁.trans i₂
    exact .pure sound₂ ⟨.cons (awaits.extend i.extends) (reads.keep i₂.keeps sound₂) more,
      by rw [same, same']⟩ (.refl d₂)

end Document

end Netlist
