-- Loads side by side. A document that is read into twins is refused by both with one error, or
-- is accepted by both with one answer and the same warnings. A refused one is taken back from
-- both, so they are twins again, whatever strings were met on the way.
import Netlist.Document.File
import Netlist.Proofs.Twins.Steps

namespace Netlist.Document

open Design Edit Parallel

/-! ## Types -/

/-- A type node gives the same number in both. The induction follows the node down, through
arrays, records and lists of fields. -/
theorem parallel_readType (node : Json) : ∀ {c d : Design}, c.Twins d →
    Parallel c d (readType node) (readType node) Renaming.Equal := by
  refine typeNode_induction
    (P := fun node => ∀ {c d : Design}, c.Twins d →
      Parallel c d (readType node) (readType node) Renaming.Equal)
    (Q := fun entries => ∀ {c d : Design}, c.Twins d →
      Parallel c d (readFields entries) (readFields entries) Renaming.Equal)
    ?leaf ?array ?record ?malformed ?nil ?field ?noField node
  case leaf =>
    intro word id leaf c d twins
    rw [readType_leaf leaf]
    exact .pure twins rfl
  case array =>
    intro length element ih c d twins
    rw [readType_array]
    exact reading_bind twins _ fun {n} _ => (ih twins).bind_eq fun {id} _ _ twins' _ =>
      array twins' id n
  case record =>
    intro entries ih c d twins
    rw [readType_record]
    exact (ih twins).bind_eq fun twins' _ => (record twins' _).within _
  case malformed =>
    intro node text h c d twins
    rw [h.readType]
    exact .fail twins _
  case nil =>
    intro c d twins
    rw [readFields]
    exact .pure twins rfl
  case field =>
    intro name node rest ih ih' c d twins
    rw [readFields]
    exact (ih twins).bind_eq fun twins' _ => (ih' twins').bind_eq fun twins'' _ => .pure twins'' rfl
  case noField =>
    intro entry rest h c d twins
    rw [h.readFields]
    exact .fail twins _

/-! ## Parameters and arguments -/

theorem parallel_readParamMembers (ms : List (String × Json)) : ∀ {c d : Design}, c.Twins d →
    ∀ {params params' : Params}, (c.spelled d).TwinParams params params' →
    Parallel c d (readParamMembers params ms) (readParamMembers params' ms)
      Renaming.TwinParams := by
  induction ms with
  | nil => exact fun h _ _ same => .pure h same
  | cons m rest ih =>
    intro c d h params params' same
    refine reading_bind h _ fun {kind} _ => (intern h m.1).bind fun h' more names => ?_
    exact ih h' ((same.mono more).insert h'.once names rfl)

theorem parallel_readParams {c d : Design} (h : c.Twins d) (node : Json) :
    Parallel c d (readParams node) (readParams node) Renaming.TwinParams := by
  unfold readParams
  split
  · exact .pure h .empty
  · exact parallel_readParamMembers _ h .empty
  · exact .fail h _

theorem parallel_readParams? {c d : Design} (h : c.Twins d) (ms : List (String × Json))
    (key : String) : Parallel c d (readParams? ms key) (readParams? ms key) Renaming.TwinParams := by
  unfold readParams?
  split
  · exact parallel_readParams h _
  · exact .pure h .empty

theorem parallel_readArg {c d : Design} (h : c.Twins d) (kind : ParamKind) (key what : String)
    (node : Json) :
    Parallel c d (readArg kind key what node) (readArg kind key what node)
      fun r => Option.Rel r.SameArg := by
  cases kind with
  | int =>
    refine .pure h ?_
    cases node.asInt64? with
    | none => exact .none
    | some i => exact .some (.int i)
  | string =>
    refine .pure h ?_
    cases node.asString? with
    | none => exact .none
    | some s => exact .some (.string s)
  | type =>
    exact ((parallel_readType node h).within _).bind_eq fun h' _ => .pure h' (.some (.type rfl))

/-- Parameters are bound one after another, each under names that are taken for each other. -/
theorem parallel_readBindings (ms : List (String × Json)) (what : String)
    {ps ps' : List (Name × ParamKind)} : ∀ {c d : Design}, c.Twins d →
    ∀ {args args' : Args}, (c.spelled d).TwinArgs args args' →
    (c.spelled d).SameEntries Eq ps ps' →
    Parallel c d (readBindings ms what args ps) (readBindings ms what args' ps')
      Renaming.TwinArgs := by
  induction ps generalizing ps' with
  | nil =>
    intro c d h args args' same params
    cases params
    exact .pure h same
  | cons p rest ih =>
    intro c d h args args' same params
    cases params with
    | @cons _ p' _ _ here others =>
      obtain ⟨n, kind⟩ := p
      obtain ⟨k, kind'⟩ := p'
      obtain ⟨names, ⟨⟩⟩ := here
      have texts : Option.Rel Eq (c.text? n) (d.text? k) := by
        obtain ⟨key, hn, hk⟩ := names
        rw [show c.text? n = some key from hn, show d.text? k = some key from hk]
        exact .some rfl
      refine live_bind h texts fun {key key'} same_key => ?_
      cases same_key
      split
      · exact .fail h _
      · refine (parallel_readArg h kind key what _).bind fun h' more arg => ?_
        cases arg with
        | none => exact .fail h' _
        | some arg =>
          exact ih h' ((same.mono more).insert h'.once (more names) arg)
            (Renaming.SameEntries.mono more (fun same => same) others)

/-- The keys that no parameter has are the same, also where only one side has met them. -/
theorem unknownKeys_twins {c d : Design} (h : c.Twins d) {params params' : Params}
    (same : (c.spelled d).TwinParams params params') (ms : List (String × Json)) :
    unknownKeys c params ms = unknownKeys d params' ms := by
  unfold unknownKeys
  refine List.filter_congr fun key _ => ?_
  have unknown := h.elim_find? key (f := fun n => !params.contains n)
    (g := fun k => !params'.contains k) (a := true) (fun names => by rw [same.contains h.once names])
    (fun alone => by rw [same.contains_left alone]; rfl)
    fun alone => by rw [same.contains_right alone]; rfl
  cases hn : c.names.find? key <;> cases hk : d.names.find? key <;> rw [hn, hk] at unknown <;>
    exact unknown

theorem parallel_readArgs {c d : Design} (h : c.Twins d) {params params' : Params}
    (same : (c.spelled d).TwinParams params params') (node : Json) (what : String)
    (strict : Bool) :
    Parallel c d (readArgs params node what strict) (readArgs params' node what strict)
      fun r a b => r.TwinArgs a.1 b.1 ∧ a.2 = b.2 := by
  refine reading_bind h _ fun {ms} _ =>
    (parallel_readBindings ms what h .empty same.entries).bind fun {args args' c' d'} h' more bound =>
    look (get_apply c') (get_apply d') ?_
  have unknown := unknownKeys_twins h' (same.mono more) ms
  dsimp only
  rw [unknown]
  split
  · exact .fail h' _
  · exact .pure h' ⟨bound, rfl⟩

/-! ## Declarations -/

theorem parallel_declareModule {c d : Design} (h : c.Twins d) (scope : NamespaceId)
    (scopeName name : String) (node : Json) :
    Parallel c d (declareModule scope scopeName name node)
      (declareModule scope scopeName name node) Renaming.Equal :=
  reading_bind h _ fun {ms} _ => reading_bind h _ fun {typeNode} _ =>
    (parallel_readType typeNode h).bind_eq fun {type} _ _ h₁ _ =>
    (parallel_readParams? h₁ ms _).bind fun h₂ _ params =>
    ((Parallel.declareModule h₂ scope name type params).within _).bind_eq fun {id} _ _ h₃ _ =>
    reading_bind h₃ _ fun {metadata} _ =>
    (setModuleMetadata h₃ id metadata).bind_eq fun h₄ _ => .pure h₄ rfl

theorem parallel_declareModules (scope : NamespaceId) (scopeName : String)
    (ms : List (String × Json)) : ∀ {c d : Design}, c.Twins d →
    Parallel c d (declareModules scope scopeName ms) (declareModules scope scopeName ms)
      Renaming.Equal := by
  induction ms with
  | nil => exact fun h => .pure h rfl
  | cons m rest ih =>
    intro c d h
    exact (parallel_declareModule h scope scopeName m.1 m.2).bind_eq fun h₁ _ =>
      (ih h₁).bind_eq fun h₂ _ => .pure h₂ rfl

theorem parallel_declareGenerator {c d : Design} (h : c.Twins d) (scope : NamespaceId)
    (scopeName name : String) (node : Json) :
    Parallel c d (declareGenerator scope scopeName name node)
      (declareGenerator scope scopeName name node) Renaming.Equal :=
  reading_bind h _ fun {ms} _ => (parallel_readParams? h ms _).bind fun h₁ _ genparams =>
    (parallel_readParams? h₁ ms _).bind fun h₂ more params =>
    ((Parallel.declareGenerator h₂ scope name (genparams.mono more) params).within _).bind_eq
      fun {id} _ _ h₃ _ => reading_bind h₃ _ fun {metadata} _ => setGeneratorMetadata h₃ id metadata

theorem parallel_declareGenerators (scope : NamespaceId) (scopeName : String)
    (ms : List (String × Json)) : ∀ {c d : Design}, c.Twins d →
    Parallel c d (declareGenerators scope scopeName ms) (declareGenerators scope scopeName ms)
      Renaming.Equal := by
  induction ms with
  | nil => exact fun h => .pure h rfl
  | cons m rest ih =>
    intro c d h
    exact (parallel_declareGenerator h scope scopeName m.1 m.2).bind_eq fun h₁ _ => ih h₁

theorem parallel_declareNamespace {c d : Design} (h : c.Twins d) (name : String) (node : Json) :
    Parallel c d (declareNamespace name node) (declareNamespace name node) Renaming.Equal := by
  refine (openNamespace h name).bind_eq fun {scope c' d'} h₁ _ => ?_
  split
  · exact .pure h₁ rfl
  · refine reading_bind h₁ _ fun {ms} _ => .bind_eq (x := declareModulesOf scope name ms) ?_
      fun h₂ _ => .bind_eq (x := declareGeneratorsOf scope name ms) ?_ fun h₃ _ => .pure h₃ rfl
    · unfold declareModulesOf
      split
      · exact reading_bind h₁ _ fun _ => parallel_declareModules scope name _ h₁
      · exact .pure h₁ rfl
    · unfold declareGeneratorsOf
      split
      · exact reading_bind h₂ _ fun _ => parallel_declareGenerators scope name _ h₂
      · exact .pure h₂ rfl

theorem parallel_declareNamespaces (ms : List (String × Json)) : ∀ {c d : Design}, c.Twins d →
    Parallel c d (declareNamespaces ms) (declareNamespaces ms) Renaming.Equal := by
  induction ms with
  | nil => exact fun h => .pure h rfl
  | cons m rest ih =>
    intro c d h
    exact (parallel_declareNamespace h m.1 m.2).bind_eq fun h₁ _ =>
      (ih h₁).bind_eq fun h₂ _ => .pure h₂ rfl

/-! ## Definitions -/

/-- A definition with warnings, for the same with the same warnings. -/
abbrev Warned (r : Renaming) (a b : Definition × List Diagnostic) : Prop :=
  r.TwinDefinition a.1 b.1 ∧ a.2 = b.2

theorem parallel_readInstance {c d : Design} (h : c.Twins d) (strict : Bool) (owner : String)
    {x y : Definition} (same : (c.spelled d).TwinDefinition x y) (name : String) (node : Json) :
    Parallel c d (readInstance strict owner x name node) (readInstance strict owner y name node)
      Warned := by
  refine reading_bind h _ fun {ms} _ => reading_bind h _ fun {ref} _ =>
    reading_bind h _ fun {symbol} _ => ((resolve h _ _).within _).bind_eq fun {target c₁ d₁} h₁ more₁ =>
    live_bind h₁ (h₁.configParams target) fun {params params'} params_same =>
    (parallel_readArgs h₁ params_same _ _ strict).bind fun {a b c₂ d₂} h₂ more₂ args => ?_
  obtain ⟨config, warnings⟩ := a
  obtain ⟨config', warnings'⟩ := b
  obtain ⟨args, ⟨⟩⟩ := args
  refine reading_bind h₂ _ fun {id} _ =>
    ((addInstance h₂ ((same.mono more₁).mono more₂) name id args).within _).bind
      fun {a b c₃ d₃} h₃ _ added => reading_bind h₃ _ fun {metadata} _ => ?_
  exact .pure h₃ ⟨added.1.annotate h₃.once added.2.name metadata, rfl⟩

theorem parallel_readInstances (strict : Bool) (owner : String) (ms : List (String × Json)) :
    ∀ {c d : Design}, c.Twins d → ∀ {x y : Definition}, (c.spelled d).TwinDefinition x y →
    Parallel c d (readInstances strict owner x ms) (readInstances strict owner y ms) Warned := by
  induction ms with
  | nil => exact fun h _ _ same => .pure h ⟨same, rfl⟩
  | cons m rest ih =>
    intro c d h x y same
    refine (parallel_readInstance h strict owner same m.1 m.2).bind fun h₁ _ first =>
      (ih h₁ first.1).bind fun h₂ _ others => .pure h₂ ⟨others.1, ?_⟩
    rw [first.2, others.2]

theorem parallel_readWords (malformed : LoadError) (words : List Json) :
    ∀ {c d : Design}, c.Twins d →
    Parallel c d (readWords malformed words) (readWords malformed words)
      fun r => List.Forall₂ r.takes := by
  fun_induction readWords malformed words with
  | case1 => exact fun h => .pure h .nil
  | case2 word rest ih =>
    intro c d h
    exact (intern h word).bind fun h₁ _ first => (ih h₁).bind fun h₂ more others =>
      .pure h₂ (.cons (more first) others)
  | case3 => exact fun h => .fail h _

theorem parallel_readWirePath {c d : Design} (h : c.Twins d) (node : Json) (what : String) :
    Parallel c d (readWirePath node what) (readWirePath node what) Renaming.SamePath := by
  unfold readWirePath
  dsimp only
  split
  · refine (parallel_readWords _ _ h).bind fun h' _ names => ?_
    cases names with
    | nil => exact .fail h' _
    | cons root selectors => exact .pure h' (.cons root selectors)
  · exact .fail h _

theorem parallel_readConnection {c d : Design} (h : c.Twins d) (owner : String)
    {x y : Definition} (same : (c.spelled d).TwinDefinition x y) (node : Json) :
    Parallel c d (readConnection owner x node) (readConnection owner y node)
      Renaming.TwinDefinition :=
  reading_bind h _ fun _ => (parallel_readWirePath h _ _).bind fun h₁ more₁ first =>
    (parallel_readWirePath h₁ _ _).bind fun h₂ more₂ second => reading_bind h₂ _ fun {metadata} _ =>
    ((connect h₂ ((same.mono more₁).mono more₂) (first.mono more₂) second metadata).within _).bind
      fun h₃ _ connected => .pure h₃ connected.1

theorem parallel_readConnections (owner : String) (nodes : List Json) :
    ∀ {c d : Design}, c.Twins d → ∀ {x y : Definition}, (c.spelled d).TwinDefinition x y →
    Parallel c d (readConnections owner x nodes) (readConnections owner y nodes)
      Renaming.TwinDefinition := by
  induction nodes with
  | nil => exact fun h _ _ same => .pure h same
  | cons node rest ih =>
    intro c d h x y same
    exact (parallel_readConnection h owner same node).bind fun h' _ same' => ih h' same'

theorem parallel_readDefinition {c d : Design} (h : c.Twins d) (strict : Bool) (u : Undefined) :
    Parallel c d (readDefinition strict u) (readDefinition strict u) Warned := by
  refine live_bind_eq h (h.qualifiedName _) fun {owner} => reading_bind h _ fun {ms} _ =>
    .bind (x := readInstancesOf strict owner u.id ms) (R := Warned) ?_ fun {a b c₁ d₁} h₁ _ first => ?_
  · unfold readInstancesOf
    split
    · exact reading_bind h _ fun _ =>
        parallel_readInstances strict owner _ h (Twins.empty_definition u.id)
    · exact .pure h ⟨Twins.empty_definition u.id, rfl⟩
  · obtain ⟨x, warnings⟩ := a
    obtain ⟨y, warnings'⟩ := b
    obtain ⟨same, ⟨⟩⟩ := first
    refine .bind (x := readConnectionsOf owner x ms) (R := Renaming.TwinDefinition) ?_
      fun h₂ _ same => reading_bind h₂ _ fun _ => reading_bind h₂ _ fun _ =>
        .pure h₂ ⟨{ same with implementations := rfl, metadata := rfl }, rfl⟩
    unfold readConnectionsOf
    split
    · exact reading_bind h₁ _ fun _ => parallel_readConnections owner _ h₁ same
    · exact .pure h₁ same

theorem parallel_readDefinitions (strict : Bool) (us : List Undefined) :
    ∀ {c d : Design}, c.Twins d →
    Parallel c d (readDefinitions strict us) (readDefinitions strict us)
      fun r a b => List.Forall₂ r.TwinDefinition a.1 b.1 ∧ a.2 = b.2 := by
  induction us with
  | nil => exact fun h => .pure h ⟨.nil, rfl⟩
  | cons u rest ih =>
    intro c d h
    refine (parallel_readDefinition h strict u).bind fun h₁ _ first =>
      (ih h₁).bind fun h₂ more others => .pure h₂ ⟨.cons (first.1.mono more) others.1, ?_⟩
    rw [first.2, others.2]

theorem parallel_attachAll {xs ys : List Definition} : ∀ {c d : Design}, c.Twins d →
    List.Forall₂ (c.spelled d).TwinDefinition xs ys →
    Parallel c d (attachAll xs) (attachAll ys) Renaming.Equal := by
  induction xs generalizing ys with
  | nil =>
    intro c d h same
    cases same
    exact .pure h rfl
  | cons x rest ih =>
    intro c d h same
    cases same with
    | cons first others =>
      exact ((attach h first.toSameDefinition).within _).bind_eq fun h' more =>
        ih h' (others.imp fun _ _ same => same.mono more)

/-! ## Documents -/

/-- Twins read a document alike, up to the end or to the same error. -/
theorem parallel_read {c d : Design} (h : c.Twins d) (strict : Bool) (doc : Json) :
    Parallel c d (read strict doc) (read strict doc) Renaming.Equal := by
  refine reading_bind h _ fun _ => reading_bind h _ fun _ => reading_bind h _ fun _ =>
    reading_bind h _ fun _ => reading_bind h _ fun {namespaces} _ =>
    (parallel_declareNamespaces namespaces h).bind_eq fun {undefined} _ _ h₁ _ =>
    (parallel_readDefinitions strict undefined h₁).bind fun {a b c₂ d₂} h₂ _ same => ?_
  obtain ⟨definitions, warnings⟩ := a
  obtain ⟨definitions', warnings'⟩ := b
  obtain ⟨same, ⟨⟩⟩ := same
  exact ((resolveModule h₂ _ _).within _).bind_eq fun h₃ more =>
    (parallel_attachAll h₃ (same.imp fun _ _ same => same.mono more)).bind_eq fun h₄ _ =>
    .pure h₄ rfl

/-- Twins load a document alike, and what is taken back from both leaves twins. -/
theorem parallel_load {c d : Design} (h : c.Twins d) (strict : Bool) (doc : Json) :
    Parallel c d (load strict doc) (load strict doc) Renaming.Equal := by
  cases parallel_read h strict doc with
  | ok left right twins more same =>
    exact .ok (by rw [load, left]) (by rw [load, right]) twins more same
  | @error e c' d' left right twins more =>
    cases e with
    | stale => exact .error (by rw [load, left]) (by rw [load, right]) twins more
    | error e =>
      refine .error (e := .error e) ?_ ?_ (twins.restore d.snapshot) more
      · rw [load, left, h.snapshot]
      · rw [load, right]

theorem parallel_loadText {c d : Design} (h : c.Twins d) (strict : Bool) (text : String) :
    Parallel c d (loadText strict text) (loadText strict text) Renaming.Equal := by
  unfold loadText
  split
  · exact parallel_load h strict _
  · exact .fail h _

theorem parallel_loadFile {c d : Design} (h : c.Twins d) (strict : Bool) (path : String)
    (content : Except FileError String) (log : Diagnostic.Log) :
    Parallel c d (loadFile strict path content log) (loadFile strict path content log)
      Renaming.Equal := by
  have loaded : Parallel c d (loadContent strict path content) (loadContent strict path content)
      Renaming.Equal := by
    unfold loadContent
    split
    · exact parallel_loadText h strict _
    · exact .fail h _
  cases loaded with
  | ok left right twins more same =>
    cases same
    exact .ok (by rw [loadFile, left]) (by rw [loadFile, right]) twins more rfl
  | @error e c' d' left right twins more =>
    cases e with
    | stale => exact .error (by rw [loadFile, left]) (by rw [loadFile, right]) twins more
    | error e => exact .ok (by rw [loadFile, left]) (by rw [loadFile, right]) twins more rfl

end Netlist.Document
