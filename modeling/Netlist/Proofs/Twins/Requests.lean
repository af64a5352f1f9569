-- Requests: what a user asks of a design by strings, and what the user gets to see. Handles come
-- into a request only as an earlier answer gave them, and names never come into an answer. So
-- twins cannot be told apart, however long they are asked.
import Netlist.Proofs.Live
import Netlist.Proofs.Twins.Load

namespace Netlist

/-! ## Desks -/

/-- What a user holds: a design with its log, the definitions that are built for it, and its
restore points. -/
structure Desk where
  design : Design
  log : Diagnostic.Log
  drafts : List Definition
  points : List Snapshot

/-- Requests. Drafts and restore points are given by their positions, words by strings. -/
inductive Request where
  | load (strict : Bool) (doc : Json)
  | loadText (strict : Bool) (text : String)
  | loadFile (strict : Bool) (path : String) (content : Except FileError String)
  | document (top : ModuleId)
  | save (top : ModuleId) (indent : Nat)
  | openNamespace (name : String)
  | findNamespace (name : String)
  | namespaces
  | symbol (scope : NamespaceId) (name : String)
  | resolve (scope name : String)
  | resolveModule (scope name : String)
  | qualifiedName (target : Target)
  | declareModule (scope : NamespaceId) (name : String) (type : TypeId)
      (params : List (String × ParamKind))
  | declareGenerator (scope : NamespaceId) (name : String)
      (genparams params : List (String × ParamKind))
  | annotateModule (id : ModuleId) (metadata : Metadata)
  | annotateGenerator (id : GeneratorId) (metadata : Metadata)
  | module (id : ModuleId)
  | array (element : TypeId) (length : Nat)
  | record (fields : List (String × TypeId))
  | readType (node : Json)
  | readParams (node : Json)
  | readArgs (params : List (String × ParamKind)) (node : Json) (what : String) (strict : Bool)
  | typeNode (id : TypeId)
  | newDraft (owner : ModuleId)
  | addInstance (k : Nat) (name : String) (id : ModuleId) (config : List (String × Arg))
  | addGeneratorInstance (k : Nat) (name : String) (id : GeneratorId)
      (genargs config : List (String × Arg))
  | annotateInstance (k : Nat) (name : String) (metadata : Metadata)
  | connect (k : Nat) (a b : String × List String) (metadata : Metadata)
  | annotateConnection (k i : Nat) (metadata : Metadata)
  | annotateDraft (k : Nat) (implementations metadata : Metadata)
  | draft (k : Nat)
  | attach (k : Nat)
  | snapshot
  | restore (k : Nat)

/-- Answers. No name is in them. -/
inductive Answer where
  | done
  /-- There is no draft or restore point at the position. -/
  | absent
  /-- A handle that stands for nothing was read. -/
  | stale
  | refused (e : GraphError)
  | rejected (e : LoadError)
  | top (id : Option ModuleId)
  | document (doc : Json)
  | text (s : String)
  | scope (id : Option NamespaceId)
  | listing (scopes : List (String × NamespaceId × List (String × ModuleId) ×
      List (String × GeneratorId)))
  | symbol (target : Option Target)
  | generator (id : GeneratorId)
  | module (symbol : String × String) (type : TypeId) (outline : Outline.Module)
  | type (id : TypeId)
  | instance (name : String) (outline : Outline.Instance)
  | connection (outline : Outline.Connection) (count : Nat)
  | definition (owner : ModuleId) (outline : Outline.Definition)

/-- An answer, and what of the log and of the extent of the design is seen with it. -/
structure Report where
  answer : Answer
  log : Diagnostic.Log
  extent : Snapshot

/-! ## Showing -/

namespace Design

/-- The namespaces with their symbols, each by its text and its number. -/
def listing? (d : Design) : Option (List (String × NamespaceId × List (String × ModuleId) ×
    List (String × GeneratorId))) :=
  d.namespaces.toList.mapM fun ns => do
    return (← d.text? ns.name, ns.id, ← d.outlineEntries? some ns.modules.toList,
      ← d.outlineEntries? some ns.generators.toList)

def showModule? (d : Design) (id : ModuleId) : Option Answer := do
  let m ← d.modules.get? id
  return .module (← d.symbolText? (.module id)) m.type (← d.outlineModule? id)

def showInstance? (d : Design) (i : Instance) : Option Answer := do
  return .instance (← d.text? i.name) (← d.outlineInstance? i)

end Design

namespace Edit

variable {ε α : Type}

/-- The map of entries whose strings become names, from left to right. -/
def internMap (es : List (String × α)) : Edit ε (NameMap α) := do
  return .ofList ((← internAll (es.map (·.1))).zip (es.map (·.2)))

def internPath (p : String × List String) : Edit ε WirePath := do
  let root ← intern p.1
  return ⟨root, ← internAll p.2⟩

/-- What a string stands for in a namespace. -/
def symbol (scope : NamespaceId) (name : String) : Edit ε (Option Target) := do
  let n ← intern name
  let ns ← live fun d => d.namespaces.get? scope
  return ns.symbol? n

end Edit

/-! ## Serving requests -/

namespace Desk

/-- Makes a step in the design, and goes on with what it gives. -/
def edit {ε α : Type} (desk : Desk) (refuse : ε → Answer) (step : Edit ε α)
    (next : α → Desk → Answer × Desk) : Answer × Desk :=
  match step desk.design with
  | .ok a design => next a { desk with design }
  | .error (.error e) design => (refuse e, { desk with design })
  | .error .stale design => (.stale, { desk with design })

/-- Reads an answer off the design. -/
def ask (desk : Desk) (read : Design → Option Answer) : Answer × Desk :=
  ((read desk.design).getD .stale, desk)

/-- Builds on a draft, and shows what came of it. -/
def build {α : Type} (desk : Desk) (k : Nat)
    (step : Definition → Edit GraphError (Definition × α))
    (show? : Design → Definition × α → Option Answer) : Answer × Desk :=
  match desk.drafts[k]? with
  | none => (.absent, desk)
  | some x => desk.edit .refused (step x) fun r desk =>
    { desk with drafts := desk.drafts.set k r.1 }.ask (show? · r)

/-- The warnings of a load go to the log. -/
def loaded (r : ModuleId × List Diagnostic) (desk : Desk) : Answer × Desk :=
  (.top (some r.1), { desk with log := desk.log.emitAll r.2 })

def serve (desk : Desk) : Request → Answer × Desk
  | .load strict doc => desk.edit .rejected (Document.load strict doc) loaded
  | .loadText strict text => desk.edit .rejected (Document.loadText strict text) loaded
  | .loadFile strict path content =>
    desk.edit .rejected (Document.loadFile strict path content desk.log) fun (top, log) desk =>
      (.top top, { desk with log })
  | .document top => desk.ask fun d => (d.document? top).map .document
  | .save top indent => desk.ask fun d => (d.save? top indent).map .text
  | .openNamespace name =>
    desk.edit .refused (Edit.openNamespace name) fun id desk => (.scope (some id), desk)
  | .findNamespace name => desk.ask fun d => some (.scope (d.namespaceId? name))
  | .namespaces => desk.ask fun d => d.listing?.map .listing
  | .symbol scope name =>
    desk.edit .refused (Edit.symbol scope name) fun t desk => (.symbol t, desk)
  | .resolve scope name =>
    desk.edit .refused (Edit.resolve scope name) fun t desk => (.symbol (some t), desk)
  | .resolveModule scope name =>
    desk.edit .refused (Edit.resolveModule scope name) fun id desk => (.top (some id), desk)
  | .qualifiedName target => desk.ask fun d => (d.qualifiedName? target).map .text
  | .declareModule scope name type params =>
    desk.edit .refused (do Edit.declareModule scope name type (← Edit.internMap params))
      fun id desk => (.top (some id), desk)
  | .declareGenerator scope name genparams params =>
    desk.edit .refused
      (do
        let genparams ← Edit.internMap genparams
        Edit.declareGenerator scope name genparams (← Edit.internMap params))
      fun id desk => (.generator id, desk)
  | .annotateModule id metadata =>
    desk.edit .refused (Edit.setModuleMetadata id metadata) fun _ desk => (.done, desk)
  | .annotateGenerator id metadata =>
    desk.edit .refused (Edit.setGeneratorMetadata id metadata) fun _ desk => (.done, desk)
  | .module id => desk.ask fun d => d.showModule? id
  | .array element length =>
    desk.edit .refused (Edit.array element length) fun id desk => (.type id, desk)
  | .record fields => desk.edit .refused (Edit.record fields) fun id desk => (.type id, desk)
  | .readType node =>
    desk.edit .rejected (Document.readType node) fun id desk => (.type id, desk)
  | .readParams node =>
    desk.edit .rejected (Document.readParams node) fun params desk =>
      desk.ask fun d => (d.paramsNode? params).map .document
  | .readArgs params node what strict =>
    desk.edit .rejected
      (do Document.readArgs (← Edit.internMap params) node what strict)
      fun (args, warnings) desk =>
        { desk with log := desk.log.emitAll warnings }.ask fun d => (d.argsNode? args).map .document
  | .typeNode id => desk.ask fun d => (d.typeNode? id).map .document
  | .newDraft owner => (.done, { desk with drafts := desk.drafts ++ [.empty owner] })
  | .addInstance k name id config =>
    desk.build k (fun x => do x.addInstance name id (← Edit.internMap config))
      fun d r => d.showInstance? r.2
  | .addGeneratorInstance k name id genargs config =>
    desk.build k
      (fun x => do
        let config ← Edit.internMap config
        x.addGeneratorInstance name id (← Edit.internMap genargs) config)
      fun d r => d.showInstance? r.2
  | .annotateInstance k name metadata =>
    desk.build k (fun x => do return (x.annotate (← Edit.intern name) metadata, ()))
      fun _ _ => some .done
  | .connect k a b metadata =>
    desk.build k
      (fun x => do
        let a ← Edit.internPath a
        let b ← Edit.internPath b
        Edit.check fun d => x.connect d a b metadata)
      fun d r => (d.outlineConnection? r.2).map fun c => .connection c r.1.connections.size
  | .annotateConnection k i metadata =>
    desk.build k (fun x => pure (x.annotateConnection i metadata, ())) fun _ _ => some .done
  | .annotateDraft k implementations metadata =>
    desk.build k (fun x => pure ({ x with implementations, metadata }, ())) fun _ _ => some .done
  | .draft k =>
    desk.build k (fun x => pure (x, ())) fun d r =>
      (d.outlineDefinition? r.1).map (.definition r.1.owner)
  | .attach k =>
    desk.build k (fun x => do return (x, ← Edit.attach x)) fun _ _ => some .done
  | .snapshot => (.done, { desk with points := desk.points ++ [desk.design.snapshot] })
  | .restore k =>
    match desk.points[k]? with
    | none => (.absent, desk)
    | some s => (.done, { desk with design := desk.design.restore s })

/-- What is seen of some requests, one after another. -/
def answers (desk : Desk) : List Request → List Report
  | [] => []
  | r :: rest =>
    let (answer, desk) := desk.serve r
    ⟨answer, desk.log, desk.design.snapshot⟩ :: desk.answers rest

end Desk

/-! ## Twins are served alike -/

open Design

/-- Desks with twin designs, and for the rest the same. -/
structure Desk.Twins (p q : Desk) : Prop where
  design : p.design.Twins q.design
  log : p.log = q.log
  drafts : List.Forall₂ (p.design.spelled q.design).TwinDefinition p.drafts q.drafts
  points : p.points = q.points

/-- Two desks that answered the same, and are twins afterwards. -/
def ServedAlike (r r' : Answer × Desk) : Prop := r.1 = r'.1 ∧ r.2.Twins r'.2

namespace Desk.Twins

variable {p q : Desk} (h : p.Twins q)
include h

theorem after {c d : Design} (twins : c.Twins d) (more : p.design.spelled q.design ≤ c.spelled d) :
    { p with design := c }.Twins { q with design := d } where
  design := twins
  log := h.log
  drafts := h.drafts.imp fun _ _ same => same.mono more
  points := h.points

theorem edit {ε α : Type} {refuse : ε → Answer} {x y : Edit ε α} {R : Renaming → α → α → Prop}
    {next next' : α → Desk → Answer × Desk} (steps : Parallel p.design q.design x y R)
    (then_alike : ∀ {a b p' q'}, p'.Twins q' → R (p'.design.spelled q'.design) a b →
      ServedAlike (next a p') (next' b q')) :
    ServedAlike (p.edit refuse x next) (q.edit refuse y next') := by
  unfold Desk.edit
  cases steps with
  | ok left right twins more same =>
    rw [left, right]
    exact then_alike (h.after twins more) same
  | @error e _ _ left right twins more =>
    rw [left, right]
    cases e with
    | error e => exact ⟨rfl, h.after twins more⟩
    | stale => exact ⟨rfl, h.after twins more⟩

/-- A step with one answer, which is shown. -/
theorem edit_eq {ε α : Type} {refuse : ε → Answer} {x : Edit ε α} {answer : α → Answer}
    (steps : Parallel p.design q.design x x Renaming.Equal) :
    ServedAlike (p.edit refuse x fun a desk => (answer a, desk))
      (q.edit refuse x fun a desk => (answer a, desk)) :=
  h.edit steps fun h' same => ⟨congrArg answer same, h'⟩

theorem ask {read read' : Design → Option Answer} (same : read p.design = read' q.design) :
    ServedAlike (p.ask read) (q.ask read') :=
  ⟨congrArg (·.getD .stale) same, h⟩

theorem build {α : Type} {k : Nat} {step : Definition → Edit GraphError (Definition × α)}
    {show? : Design → Definition × α → Option Answer}
    {R : Renaming → Definition × α → Definition × α → Prop}
    (steps : ∀ {x y}, (p.design.spelled q.design).TwinDefinition x y →
      Parallel p.design q.design (step x) (step y) R)
    (built : ∀ {r a b}, R r a b → r.TwinDefinition a.1 b.1)
    (shown : ∀ {c d : Design} {a b}, c.Twins d → R (c.spelled d) a b → show? c a = show? d b) :
    ServedAlike (p.build k step show?) (q.build k step show?) := by
  unfold Desk.build
  rcases rel_cases (rel_getElem? h.drafts k) with ⟨none, none'⟩ | ⟨x, y, some, some', same⟩
  · rw [none, none']
    exact ⟨rfl, h⟩
  · rw [some, some']
    refine h.edit (steps same) fun {a b p' q'} h' same => ?_
    have kept : { p' with drafts := p'.drafts.set k a.1 }.Twins
        { q' with drafts := q'.drafts.set k b.1 } :=
      { h' with drafts := forall₂_set h'.drafts k (built same) }
    exact kept.ask (shown h'.design same)

end Desk.Twins

namespace Parallel

open Edit

variable {ε α : Type} {c d : Design} (h : c.Twins d)
include h

theorem internMap {R : Renaming → α → α → Prop} (es : List (String × α))
    (values : ∀ {c d : Design} a, R (c.spelled d) a a) :
    Parallel c d (internMap es : Edit ε (NameMap α)) (internMap es) fun r => r.SameMap (R r) :=
  (internAll _ h).bind fun h' _ names =>
    .pure h' (.ofList h'.once (.zip names fun a _ => values a))

theorem internParams (params : List (String × ParamKind)) :
    Parallel c d (Edit.internMap params : Edit ε Params) (Edit.internMap params)
      Renaming.TwinParams :=
  internMap (R := fun _ => Eq) h params fun _ => rfl

theorem internArgs (args : List (String × Arg)) :
    Parallel c d (Edit.internMap args : Edit ε Args) (Edit.internMap args) Renaming.TwinArgs := by
  refine internMap (R := fun r => r.SameArg) h args fun a => ?_
  cases a with
  | int i => exact .int i
  | string s => exact .string s
  | type id => exact .type rfl

theorem internPath (w : String × List String) :
    Parallel c d (internPath w : Edit ε WirePath) (internPath w) Renaming.SamePath :=
  (intern h w.1).bind fun h' _ first => (internAll _ h').bind fun h'' more others =>
    .pure h'' (.cons (more first) others)

theorem symbol (scope : NamespaceId) (name : String) :
    Parallel c d (symbol scope name : Edit ε (Option Target)) (symbol scope name)
      Renaming.Equal := by
  exact (intern h name).bind fun h' _ names => live_bind h' (h'.namespaces scope) fun agree =>
    .pure h' (h'.symbol agree names)

end Parallel

/-! ## Showing twins -/

namespace Design.Twins

variable {c d : Design} (h : c.Twins d)
include h

theorem listing : c.listing? = d.listing? := by
  refine mapM_eq_of_forall₂ ((Table.forall₂_of_rel h.namespaces).imp fun ns ns' same => ?_)
  have modules : c.outlineEntries? some ns.modules.toList =
      d.outlineEntries? some ns'.modules.toList :=
    h.agrees.outlineEntries (R := Eq) (congrArg some) same.modules
  have generators : c.outlineEntries? some ns.generators.toList =
      d.outlineEntries? some ns'.generators.toList :=
    h.agrees.outlineEntries (R := Eq) (congrArg some) same.generators
  rw [text same.name, show ns.id = ns'.id from same.id, modules, generators]

theorem showModule (id : ModuleId) : c.showModule? id = d.showModule? id := by
  rw [Design.showModule?, Design.showModule?, h.agrees.symbolText (sameTarget (.module id)),
    h.agrees.outlineModule rfl]
  rcases rel_cases (h.modules id) with ⟨none, none'⟩ | ⟨m, m', some, some', same⟩
  · rw [none, none']
  · rw [some, some']
    simp only [Option.bind_eq_bind, Option.bind_some, show m.type = m'.type from same.type]

theorem showInstance {i j : Instance} (same : (c.spelled d).SameInstance i j) :
    c.showInstance? i = d.showInstance? j := by
  rw [Design.showInstance?, Design.showInstance?, text same.name, h.agrees.outlineInstance same]

end Design.Twins

/-! ## Serving twins -/

namespace Desk.Twins

variable {p q : Desk} (h : p.Twins q)
include h

theorem loaded (r : ModuleId × List Diagnostic) : ServedAlike (Desk.loaded r p) (Desk.loaded r q) :=
  ⟨rfl, { h with log := congrArg (·.emitAll r.2) h.log }⟩

/-- One request is served alike, and leaves twins. -/
theorem serve (r : Request) : ServedAlike (p.serve r) (q.serve r) := by
  have twins := h.design
  cases r with
  | load strict doc =>
    exact h.edit (Document.parallel_load twins strict doc) fun h' same => same ▸ h'.loaded _
  | loadText strict text =>
    exact h.edit (Document.parallel_loadText twins strict text) fun h' same => same ▸ h'.loaded _
  | loadFile strict path content =>
    rw [Desk.serve, Desk.serve, h.log]
    refine h.edit (Document.parallel_loadFile twins strict path content q.log) fun h' same => ?_
    cases same
    exact ⟨rfl, { h' with log := rfl }⟩
  | document top => exact h.ask (by rw [twins.document])
  | save top indent => exact h.ask (by rw [Design.save?, Design.save?, twins.document])
  | openNamespace name => exact h.edit_eq (Parallel.openNamespace twins name)
  | findNamespace name => exact h.ask (by rw [twins.namespaceId])
  | namespaces => exact h.ask (by rw [twins.listing])
  | symbol scope name => exact h.edit_eq (Parallel.symbol twins scope name)
  | resolve scope name => exact h.edit_eq (Parallel.resolve twins scope name)
  | resolveModule scope name => exact h.edit_eq (Parallel.resolveModule twins scope name)
  | qualifiedName target => exact h.ask (by rw [twins.qualifiedName])
  | declareModule scope name type params =>
    exact h.edit_eq ((Parallel.internParams twins params).bind fun twins' _ same =>
      Parallel.declareModule twins' scope name type same)
  | declareGenerator scope name genparams params =>
    exact h.edit_eq ((Parallel.internParams twins genparams).bind fun twins₁ _ gen =>
      (Parallel.internParams twins₁ params).bind fun twins₂ more same =>
      Parallel.declareGenerator twins₂ scope name (gen.mono more) same)
  | annotateModule id metadata => exact h.edit_eq (Parallel.setModuleMetadata twins id metadata)
  | annotateGenerator id metadata =>
    exact h.edit_eq (Parallel.setGeneratorMetadata twins id metadata)
  | module id => exact h.ask (twins.showModule id)
  | array element length => exact h.edit_eq (Parallel.array twins element length)
  | record fields => exact h.edit_eq (Parallel.record twins fields)
  | readType node => exact h.edit_eq (Document.parallel_readType node twins)
  | readParams node =>
    refine h.edit (Document.parallel_readParams twins node) fun {a b p' q'} h' same => h'.ask ?_
    rw [Design.paramsNode?, Design.paramsNode?, h'.design.agrees.outlineParams same.entries]
  | readArgs params node what strict =>
    refine h.edit ((Parallel.internParams twins params).bind fun twins' _ same =>
      Document.parallel_readArgs twins' same node what strict) fun {a b p' q'} h' same => ?_
    have logged : { p' with log := p'.log.emitAll a.2 }.Twins
        { q' with log := q'.log.emitAll b.2 } := { h' with log := by rw [h'.log, same.2] }
    refine logged.ask ?_
    rw [Design.argsNode?, Design.argsNode?, h'.design.agrees.outlineArgs same.1.entries]
  | typeNode id => exact h.ask (by rw [Design.typeNode?, Design.typeNode?, twins.typeTree])
  | newDraft owner =>
    exact ⟨rfl, { h with
      drafts := List.rel_append h.drafts (.cons (Design.Twins.empty_definition owner) .nil) }⟩
  | addInstance k name id config =>
    refine h.build (R := Parallel.Added) (fun same => ?_) (fun same => same.1)
      fun twins' same => twins'.showInstance same.2
    exact (Parallel.internArgs twins config).bind fun twins' more args =>
      Parallel.addInstance twins' (same.mono more) name id args
  | addGeneratorInstance k name id genargs config =>
    refine h.build (R := Parallel.Added) (fun same => ?_) (fun same => same.1)
      fun twins' same => twins'.showInstance same.2
    exact (Parallel.internArgs twins config).bind fun twins₁ more₁ args =>
      (Parallel.internArgs twins₁ genargs).bind fun twins₂ more₂ gen =>
      Parallel.addGeneratorInstance twins₂ ((same.mono more₁).mono more₂) name id gen
        (args.mono more₂)
  | annotateInstance k name metadata =>
    refine h.build (R := fun r a b => r.TwinDefinition a.1 b.1) (fun same => ?_) id fun _ _ => rfl
    exact (Parallel.intern twins name).bind fun twins' more names =>
      .pure twins' ((same.mono more).annotate twins'.once names metadata)
  | connect k a b metadata =>
    refine h.build (R := Parallel.Connected) (fun same => ?_) (fun same => same.1)
      fun twins' same => ?_
    · exact (Parallel.internPath twins a).bind fun twins₁ more₁ first =>
        (Parallel.internPath twins₁ b).bind fun twins₂ more₂ second =>
        Parallel.connect twins₂ ((same.mono more₁).mono more₂) (first.mono more₂) second metadata
    · have count := same.1.connections.length_eq
      rw [Array.length_toList, Array.length_toList] at count
      rw [twins'.agrees.outlineConnection same.2, count]
  | annotateConnection k i metadata =>
    refine h.build (R := fun r a b => r.TwinDefinition a.1 b.1) (fun same => ?_) id fun _ _ => rfl
    exact .pure twins (same.annotateConnection i metadata)
  | annotateDraft k implementations metadata =>
    refine h.build (R := fun r a b => r.TwinDefinition a.1 b.1) (fun same => ?_) id fun _ _ => rfl
    exact .pure twins { same with implementations := rfl, metadata := rfl }
  | draft k =>
    refine h.build (R := fun r a b => r.TwinDefinition a.1 b.1) (fun same => .pure twins same) id
      fun {c d a b} twins' same => ?_
    rw [twins'.agrees.outlineDefinition same.toSameDefinition,
      show a.1.owner = b.1.owner from same.owner]
  | attach k =>
    refine h.build (R := fun r a b => r.TwinDefinition a.1 b.1) (fun same => ?_) id fun _ _ => rfl
    exact (Parallel.attach twins same.toSameDefinition).bind_eq fun twins' more =>
      .pure twins' (same.mono more)
  | snapshot =>
    have points : p.points ++ [p.design.snapshot] = q.points ++ [q.design.snapshot] := by
      rw [h.points, twins.snapshot]
    exact ⟨rfl, { h with points }⟩
  | restore k =>
    have points : p.points[k]? = q.points[k]? := by rw [h.points]
    simp only [Desk.serve, points]
    cases q.points[k]? with
    | none => exact ⟨rfl, h⟩
    | some s => exact ⟨rfl, h.after (twins.restore s) (Renaming.le_refl _)⟩

omit h in
/-- Twins give the same reports, request after request. -/
theorem answers (requests : List Request) : ∀ {p q : Desk}, p.Twins q →
    p.answers requests = q.answers requests := by
  induction requests with
  | nil => exact fun _ => rfl
  | cons r rest ih =>
    intro p q h
    have served := h.serve r
    rw [Desk.answers, Desk.answers]
    generalize p.serve r = a at served ⊢
    generalize q.serve r = b at served ⊢
    obtain ⟨answer, p'⟩ := a
    obtain ⟨answer', q'⟩ := b
    obtain ⟨⟨⟩, after⟩ := served
    simp only [show p'.log = q'.log from after.log,
      show p'.design.snapshot = q'.design.snapshot from after.design.snapshot, ih after]

end Desk.Twins

end Netlist
