-- A load that fails changes nothing. Wherever it stops, the design has only grown until
-- then, so the restore finds the old one again; and no warning is reported.
import Netlist.Document.Load
import Netlist.Proofs.Steps
import Netlist.Proofs.TypeShapes

namespace Netlist.Document

open Edit

/-! ## The reading of types -/

/-- A property that a reading of a type has because all steps of it have it. -/
class TypeSteps (P : ∀ {ε α : Type}, Edit ε α → Prop) : Prop where
  pure {ε α : Type} (a : α) : P (pure a : Edit ε α)
  fail {ε α : Type} (e : ε) : P (Edit.fail e : Edit ε α)
  ofExcept {ε α : Type} (x : Except ε α) : P (Edit.ofExcept x)
  bind {ε α β : Type} {x : Edit ε α} {f : α → Edit ε β} (hx : P x) (hf : ∀ a, P (f a)) : P (x >>= f)
  within {ε ε' α : Type} {x : Edit ε α} (hx : P x) (f : ε → ε') : P (x.within f)
  array {ε : Type} (element : TypeId) (length : Nat) : P (Edit.array element length : Edit ε TypeId)
  record (fields : List (String × TypeId)) : P (Edit.record fields)

theorem TypeSteps.readType (P : ∀ {ε α : Type}, Edit ε α → Prop) [steps : TypeSteps P]
    (node : Json) : P (Document.readType node) := by
  refine typeNode_induction (P := fun node => P (Document.readType node))
    (Q := fun entries => P (readFields entries))
    ?leaf ?array ?record ?malformed ?nil ?field ?noField node
  case leaf =>
    intro word id leaf
    rw [readType_leaf leaf]
    exact steps.pure id
  case array =>
    intro length element ih
    rw [readType_array]
    exact steps.bind (steps.ofExcept _) fun n => steps.bind ih fun id => steps.array id n
  case record =>
    intro entries ih
    rw [readType_record]
    exact steps.bind ih fun fields => steps.within (steps.record fields) _
  case malformed =>
    intro node text h
    rw [h.readType]
    exact steps.fail _
  case nil =>
    rw [readFields]
    exact steps.pure []
  case field =>
    intro name node rest ih ih'
    rw [readFields]
    exact steps.bind ih fun _ => steps.bind ih' fun _ => steps.pure _
  case noField =>
    intro entry rest h
    rw [h.readFields]
    exact steps.fail _

/-! ## Reading only lets a design grow -/

instance : TypeSteps OnlyGrows where
  pure := .pure
  fail := .fail
  ofExcept := .ofExcept
  bind := .bind
  within := .within
  array := .array
  record := .record

theorem onlyGrows_readType (node : Json) : OnlyGrows (readType node) :=
  TypeSteps.readType OnlyGrows node

/-- A relation that the reading of types leads to as well. -/
class ReadsTypes (R : Design → Design → Prop) : Prop extends Design.Leading R where
  readType (node : Json) : Leads R (readType node)

instance : ReadsTypes Design.Builds := ⟨onlyGrows_readType⟩

variable {R : Design → Design → Prop} [ReadsTypes R]

theorem leads_readParamMembers (params : Params) (ms : List (String × Json)) :
    Leads R (readParamMembers params ms) := by
  induction ms generalizing params with
  | nil => exact .pure _
  | cons m rest ih =>
    exact (Leads.ofExcept _).bind fun kind => (Leads.intern m.1).bind fun n => ih _

theorem leads_readParams (node : Json) : Leads R (readParams node) := by
  unfold readParams
  split
  · exact .pure _
  · exact leads_readParamMembers ∅ _
  · exact .fail _

theorem leads_readParams? (ms : List (String × Json)) (key : String) :
    Leads R (readParams? ms key) := by
  unfold readParams?
  split
  · exact leads_readParams _
  · exact .pure _

theorem leads_readArg (kind : ParamKind) (key what : String) (node : Json) :
    Leads R (readArg kind key what node) := by
  cases kind with
  | int => exact .pure _
  | string => exact .pure _
  | type => exact ((ReadsTypes.readType node).within _).bind fun _ => .pure _

theorem leads_readBindings (ms : List (String × Json)) (what : String) (args : Args)
    (params : List (Name × ParamKind)) : Leads R (readBindings ms what args params) := by
  induction params generalizing args with
  | nil => exact .pure _
  | cons p rest ih =>
    refine (Leads.live _).bind fun key => ?_
    split
    · exact .fail _
    · refine (leads_readArg p.2 key what _).bind fun a => ?_
      split
      · exact ih _
      · exact .fail _

theorem leads_readArgs (params : Params) (node : Json) (what : String) (strict : Bool) :
    Leads R (readArgs params node what strict) := by
  refine (Leads.ofExcept _).bind fun ms =>
    (leads_readBindings ms what ∅ _).bind fun args => .bind (.of_left_eq fun _ => rfl) fun d => ?_
  dsimp only
  split
  · exact .fail _
  · exact .pure _

/-! ## The first pass -/

/-- A declaration puts one thing at the end of a table, and it may as well come with its
metadata at once. -/
def Declares {ι : Type} (R : Design → Design → Prop) (declare : Load ι)
    (annotate : ι → Metadata → Load Unit) : Prop :=
  ∀ d : Design,
    (∃ e d', declare d = .error e d' ∧ R d d') ∨
    ∃ id d', declare d = .ok id d' ∧ R d d' ∧
      ∀ md, ∃ d'', annotate id md d' = .ok () d'' ∧ R d d''

theorem declares_module (scope : NamespaceId) (name : String) (type : TypeId) (params : Params) :
    Declares R ((Edit.declareModule scope name type params).within .ofGraph)
      Edit.setModuleMetadata := by
  intro d
  by_cases free : (d.withName name).Free scope (d.names.intern name).1
  · exact Or.inr ⟨_, _, within_of_ok (declareModule_of_free free type params),
      Design.Leading.move (.module free ..) rfl, fun md =>
        ⟨_, setModuleMetadata_addModule (d := d.withName name) ..,
          Design.Leading.move (.module free ..) rfl⟩⟩
  · obtain ⟨e, he⟩ := declareModule_of_not_free free type params
    exact Or.inl ⟨_, _, by rw [within_apply, he], Design.Leading.move (.name d name) rfl⟩

theorem declares_generator (scope : NamespaceId) (name : String) (genparams params : Params) :
    Declares R ((Edit.declareGenerator scope name genparams params).within .ofGraph)
      Edit.setGeneratorMetadata := by
  intro d
  by_cases free : (d.withName name).Free scope (d.names.intern name).1
  · exact Or.inr ⟨_, _, within_of_ok (declareGenerator_of_free free genparams params),
      Design.Leading.move (.generator free ..) rfl, fun md =>
        ⟨_, setGeneratorMetadata_addGenerator (d := d.withName name) ..,
          Design.Leading.move (.generator free ..) rfl⟩⟩
  · obtain ⟨e, he⟩ := declareGenerator_of_not_free free genparams params
    exact Or.inl ⟨_, _, by rw [within_apply, he], Design.Leading.move (.name d name) rfl⟩

theorem Declares.leads {ι α : Type} {declare : Load ι} {annotate : ι → Metadata → Load Unit}
    (h : Declares R declare annotate) (metadata : Reading Metadata) {rest : ι → Load α}
    (hrest : ∀ id, Leads R (rest id)) :
    Leads R (do
      let id ← declare
      annotate id (← metadata)
      rest id) := by
  intro d
  rcases h d with ⟨e, d', he, leads⟩ | ⟨id, d', hid, leads, annotated⟩
  · rw [left_of_error (bind_of_error he)]
    exact leads
  · rw [left, bind_of_ok hid]
    cases metadata with
    | error e => exact leads
    | ok md =>
      obtain ⟨d₂, hd₂, leads₂⟩ := annotated md
      have read : (liftM (Except.ok md : Reading Metadata) : Load Metadata) d' = .ok md d' := rfl
      rw [bind_of_ok read, bind_of_ok hd₂]
      exact Design.Leading.trans leads₂ (hrest id d₂)

theorem leads_declareModule (scope : NamespaceId) (scopeName name : String) (node : Json) :
    Leads R (declareModule scope scopeName name node) := by
  refine (Leads.ofExcept _).bind fun ms => (Leads.ofExcept _).bind fun typeNode =>
    (ReadsTypes.readType typeNode).bind fun type => (leads_readParams? ms _).bind fun params => ?_
  exact (declares_module scope name type params).leads _ fun id => .pure _

theorem leads_declareModules (scope : NamespaceId) (scopeName : String)
    (ms : List (String × Json)) : Leads R (declareModules scope scopeName ms) := by
  induction ms with
  | nil => exact .pure _
  | cons m rest ih =>
    exact (leads_declareModule scope scopeName m.1 m.2).bind fun _ => ih.bind fun _ => .pure _

theorem leads_declareGenerator (scope : NamespaceId) (scopeName name : String)
    (node : Json) : Leads R (declareGenerator scope scopeName name node) := by
  refine (Leads.ofExcept _).bind fun ms => (leads_readParams? ms _).bind fun genparams =>
    (leads_readParams? ms _).bind fun params => ?_
  simpa only [bind_pure_unit] using
    (declares_generator scope name genparams params).leads _
      fun _ => .pure ()

theorem leads_declareGenerators (scope : NamespaceId) (scopeName : String)
    (ms : List (String × Json)) : Leads R (declareGenerators scope scopeName ms) := by
  induction ms with
  | nil => exact .pure _
  | cons m rest ih => exact (leads_declareGenerator scope scopeName m.1 m.2).bind fun _ => ih

theorem leads_declareNamespace (name : String) (node : Json) :
    Leads R (declareNamespace name node) := by
  refine (Leads.openNamespace name).bind fun scope => ?_
  split
  · exact .pure _
  · refine (Leads.ofExcept _).bind fun ms => .bind ?_ fun undefined => .bind ?_ fun _ => .pure _
    · unfold declareModulesOf
      split
      · exact (Leads.ofExcept _).bind fun _ => leads_declareModules scope name _
      · exact .pure _
    · unfold declareGeneratorsOf
      split
      · exact (Leads.ofExcept _).bind fun _ => leads_declareGenerators scope name _
      · exact .pure _

theorem leads_declareNamespaces (ms : List (String × Json)) :
    Leads R (declareNamespaces ms) := by
  induction ms with
  | nil => exact .pure _
  | cons m rest ih => exact (leads_declareNamespace m.1 m.2).bind fun _ => ih.bind fun _ => .pure _

/-! ## The second pass -/

theorem leads_resolve (scope name : String) : Leads R (Edit.resolve scope name) := by
  refine (Leads.live _).bind fun found => ?_
  split
  · exact .pure _
  · exact .fail _

theorem leads_resolveModule (scope name : String) :
    Leads R (Edit.resolveModule scope name) := by
  refine (leads_resolve scope name).bind fun t => ?_
  split
  · exact .pure _
  · exact .failWith _

theorem leads_insertInstance (definition : Definition) (i : Instance) :
    Leads R (definition.insertInstance i) := by
  unfold Definition.insertInstance
  split
  · exact .fail _
  · split
    · exact .pure _
    · exact .failWith _

theorem leads_addInstance (definition : Definition) (name : String) (id : ModuleId)
    (config : Args) : Leads R (definition.addInstance name id config) :=
  (Leads.live _).bind fun _ => (Leads.live _).bind fun _ => (Leads.check _).bind fun _ =>
    (Leads.intern name).bind fun _ => leads_insertInstance definition _

theorem leads_addGeneratorInstance (definition : Definition) (name : String)
    (id : GeneratorId) (genargs config : Args) :
    Leads R (definition.addGeneratorInstance name id genargs config) :=
  (Leads.live _).bind fun _ => (Leads.live _).bind fun _ => (Leads.check _).bind fun _ =>
    (Leads.check _).bind fun _ => (Leads.intern name).bind fun _ =>
    leads_insertInstance definition _

theorem leads_readInstance (strict : Bool) (owner : String) (definition : Definition)
    (name : String) (node : Json) : Leads R (readInstance strict owner definition name node) := by
  refine (Leads.ofExcept _).bind fun ms => (Leads.ofExcept _).bind fun ref =>
    (Leads.ofExcept _).bind fun _ =>
    ((leads_resolve _ _).within _).bind fun target => (Leads.live _).bind fun params =>
    (leads_readArgs params _ _ strict).bind fun _ =>
    (Leads.ofExcept _).bind fun id =>
    ((leads_addInstance definition name id _).within _).bind fun _ =>
    (Leads.ofExcept _).bind fun _ => .pure _

theorem leads_readInstances (strict : Bool) (owner : String) (definition : Definition)
    (ms : List (String × Json)) : Leads R (readInstances strict owner definition ms) := by
  induction ms generalizing definition with
  | nil => exact .pure _
  | cons m rest ih =>
    exact (leads_readInstance strict owner definition m.1 m.2).bind fun _ =>
      (ih _).bind fun _ => .pure _

theorem leads_readWords (malformed : LoadError) (words : List Json) :
    Leads R (readWords malformed words) := by
  fun_induction readWords malformed words with
  | case1 => exact .pure _
  | case2 word rest ih => exact (Leads.intern word).bind fun _ => ih.bind fun _ => .pure _
  | case3 => exact .fail _

theorem leads_readWirePath (node : Json) (what : String) :
    Leads R (readWirePath node what) := by
  unfold readWirePath
  dsimp only
  split
  · refine (leads_readWords _ _).bind fun names => ?_
    split
    · exact .pure _
    · exact .fail _
  · exact .fail _

theorem leads_readConnection (owner : String) (definition : Definition) (node : Json) :
    Leads R (readConnection owner definition node) :=
  (Leads.ofExcept _).bind fun _ => (leads_readWirePath _ _).bind fun _ =>
    (leads_readWirePath _ _).bind fun _ => (Leads.ofExcept _).bind fun _ =>
    ((Leads.check _).within _).bind fun _ => .pure _

theorem leads_readConnections (owner : String) (definition : Definition) (nodes : List Json) :
    Leads R (readConnections owner definition nodes) := by
  induction nodes generalizing definition with
  | nil => exact .pure _
  | cons node rest ih =>
    exact (leads_readConnection owner definition node).bind fun _ => ih _

theorem leads_readDefinition (strict : Bool) (u : Undefined) :
    Leads R (readDefinition strict u) := by
  refine (Leads.live _).bind fun owner => (Leads.ofExcept _).bind fun ms =>
    .bind ?_ fun _ => .bind ?_ fun _ => (Leads.ofExcept _).bind fun _ =>
    (Leads.ofExcept _).bind fun _ => .pure _
  · unfold readInstancesOf
    split
    · exact (Leads.ofExcept _).bind fun _ => leads_readInstances strict owner _ _
    · exact .pure _
  · unfold readConnectionsOf
    split
    · exact (Leads.ofExcept _).bind fun _ => leads_readConnections owner _ _
    · exact .pure _

theorem leads_readDefinitions (strict : Bool) (us : List Undefined) :
    Leads R (readDefinitions strict us) := by
  induction us with
  | nil => exact .pure _
  | cons u rest ih => exact (leads_readDefinition strict u).bind fun _ => ih.bind fun _ => .pure _

theorem leads_attachAll (definitions : List Definition) : Leads R (attachAll definitions) := by
  induction definitions with
  | nil => exact .pure _
  | cons definition rest ih => exact ((Leads.attach definition).within _).bind fun _ => ih

/-- Reading a document lets a design grow, also where it stops at an error. -/
theorem leads_read (strict : Bool) (doc : Json) : Leads R (read strict doc) :=
  (Leads.ofExcept _).bind fun _ => (Leads.ofExcept _).bind fun _ =>
    (Leads.ofExcept _).bind fun _ => (Leads.ofExcept _).bind fun _ =>
    (Leads.ofExcept _).bind fun namespaces =>
    (leads_declareNamespaces namespaces).bind fun undefined =>
    (leads_readDefinitions strict undefined).bind fun _ =>
    ((leads_resolveModule _ _).within _).bind fun _ =>
    (leads_attachAll _).bind fun _ => .pure _

end Netlist.Document
