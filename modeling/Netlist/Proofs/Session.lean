-- Sessions: the ways in which a design comes about. A session holds a design, the
-- definitions that are built for it and its restore points, and each call of the
-- library is one step of the session. What every step keeps holds of every design.
import Netlist.Proofs.Rollback

namespace Netlist

/-! ## Sessions and calls -/

/-- A definition that is being built. It is current until a restore takes away something
that it names. -/
structure Draft where
  definition : Definition
  current : Bool

/-- A restore point. It is valid until an older one is restored. -/
structure Point where
  snapshot : Snapshot
  valid : Bool

/-- A design with what its users hold besides. The newest restore point comes first. -/
structure Session where
  design : Design
  drafts : List Draft
  points : List Point

/-- The calls of the library. Drafts and restore points are given by their positions, and
parameters and arguments by the entries put in them one after another. -/
inductive Call where
  | intern (s : String)
  | array (element : TypeId) (length : Nat)
  | record (fields : List (String × TypeId))
  | readType (node : Json)
  | readParams (node : Json)
  | readArgs (params : List (Name × ParamKind)) (node : Json) (what : String) (strict : Bool)
  | openNamespace (name : String)
  | declareModule (scope : NamespaceId) (name : String) (type : TypeId)
      (params : List (Name × ParamKind))
  | declareGenerator (scope : NamespaceId) (name : String)
      (genparams params : List (Name × ParamKind))
  | annotateModule (id : ModuleId) (metadata : Metadata)
  | annotateGenerator (id : GeneratorId) (metadata : Metadata)
  | writeModule (id : ModuleId) (f : Module → Module)
  | writeGenerator (id : GeneratorId) (f : Generator → Generator)
  | newDraft (owner : ModuleId)
  | addInstance (k : Nat) (name : String) (id : ModuleId) (config : List (Name × Arg))
  | addGeneratorInstance (k : Nat) (name : String) (id : GeneratorId)
      (genargs config : List (Name × Arg))
  | connect (k : Nat) (a b : WirePath) (metadata : Metadata)
  | annotateInstance (k : Nat) (name : Name) (metadata : Metadata)
  | annotateConnection (k i : Nat) (metadata : Metadata)
  | annotateDraft (k : Nat) (implementations metadata : Metadata)
  | writeDraft (k : Nat) (f : Definition → Definition)
  | attach (k : Nat)
  | load (strict : Bool) (doc : Json)
  | snapshot
  | restore (k : Nat)

/-- Replaces the metadata of a connection. -/
def Definition.annotateConnection (d : Definition) (i : Nat) (metadata : Metadata) : Definition :=
  { d with connections := d.connections.modify i fun c => { c with metadata } }

/-! ## What is left after a restore -/

def Arg.within (s : Snapshot) : Arg → Bool
  | .type id => decide (id.index < s.types)
  | _ => true

def Target.within (s : Snapshot) : Target → Bool
  | .module id => decide (id.index < s.modules)
  | .generator id => decide (id.index < s.generators)

def Instance.within (s : Snapshot) (i : Instance) : Bool :=
  i.target.within s && i.config.values.all (·.within s) &&
    (match i.genargs with
      | some args => args.values.all (·.within s)
      | none => true)

/-- Whether a restore leaves everything that a definition names. -/
def Definition.within (s : Snapshot) (d : Definition) : Bool :=
  decide (d.owner.index < s.modules) && d.instances.values.all (·.within s)

namespace Session

/-- Every session begins with an empty design. -/
def start : Session := ⟨.empty, [], []⟩

/-- The session after a step that only concerns the design. -/
def after {ε α : Type} (s : Session) (step : Edit ε α) : Session :=
  { s with design := step.left s.design }

/-- The session after a step that builds a draft. -/
def build {α : Type} (s : Session) (k : Nat)
    (step : Definition → Edit GraphError (Definition × α)) : Session :=
  match s.drafts[k]? with
  | none => s
  | some draft =>
    match step draft.definition s.design with
    | .ok (definition, _) design =>
      { s with design, drafts := s.drafts.set k { draft with definition } }
    | .error _ design => { s with design }

/-- The session after a draft was changed in place. -/
def write (s : Session) (k : Nat) (f : Definition → Definition) : Session :=
  { s with drafts := s.drafts.modify k fun draft =>
      { draft with definition := f draft.definition } }

/-- The session after a restore. Points that are newer are no longer valid. -/
def restore (s : Session) (k : Nat) : Session :=
  match s.points[k]? with
  | none => s
  | some p =>
    { design := s.design.restore p.snapshot
      drafts := s.drafts.map fun draft =>
        { draft with current := draft.current && draft.definition.within p.snapshot }
      points := (s.points.take k).map (fun q => { q with valid := false }) ++ s.points.drop k }

/-- The session after a call, whether it succeeds or fails. -/
def step (s : Session) : Call → Session
  | .intern t => s.after (Edit.intern t : Document.Load Name)
  | .array element length => s.after (Edit.array element length : Document.Load TypeId)
  | .record fields => s.after (Edit.record fields)
  | .readType node => s.after (Document.readType node)
  | .readParams node => s.after (Document.readParams node)
  | .readArgs params node what strict =>
    s.after (Document.readArgs (.ofList params) node what strict)
  | .openNamespace name => s.after (Edit.openNamespace name : Document.Load NamespaceId)
  | .declareModule scope name type params =>
    s.after (Edit.declareModule scope name type (.ofList params))
  | .declareGenerator scope name genparams params =>
    s.after (Edit.declareGenerator scope name (.ofList genparams) (.ofList params))
  | .annotateModule id metadata => s.after (Edit.setModuleMetadata id metadata : Document.Load Unit)
  | .annotateGenerator id metadata =>
    s.after (Edit.setGeneratorMetadata id metadata : Document.Load Unit)
  | .writeModule id f =>
    { s with design := { s.design with modules := s.design.modules.modify id f } }
  | .writeGenerator id f =>
    { s with design := { s.design with generators := s.design.generators.modify id f } }
  | .newDraft owner => { s with drafts := s.drafts ++ [⟨.empty owner, true⟩] }
  | .addInstance k name id config => s.build k (·.addInstance name id (.ofList config))
  | .addGeneratorInstance k name id genargs config =>
    s.build k (·.addGeneratorInstance name id (.ofList genargs) (.ofList config))
  | .connect k a b metadata =>
    s.build k fun definition => Edit.check fun d => definition.connect d a b metadata
  | .annotateInstance k name metadata => s.write k (·.annotate name metadata)
  | .annotateConnection k i metadata => s.write k (·.annotateConnection i metadata)
  | .annotateDraft k implementations metadata =>
    s.write k fun definition => { definition with implementations, metadata }
  | .writeDraft k f => s.write k f
  | .attach k =>
    match s.drafts[k]? with
    | none => s
    | some draft => s.after (Edit.attach draft.definition)
  | .load strict doc => s.after (Document.load strict doc)
  | .snapshot => { s with points := ⟨s.design.snapshot, true⟩ :: s.points }
  | .restore k => s.restore k

/-- The sessions that calls lead to, each of which is admitted where it is made. -/
inductive Reachable (admitted : Session → Call → Prop) : Session → Prop
  | start : Reachable admitted start
  | step {s : Session} {c : Call} (reached : Reachable admitted s) (ok : admitted s c) :
    Reachable admitted (s.step c)

/-- The session after some calls, one after another. -/
def run (s : Session) (calls : List Call) : Session := calls.foldl step s

/-- Whether each of some calls is admitted where it is made. -/
def Admitted (admitted : Session → Call → Prop) : Session → List Call → Prop
  | _, [] => True
  | s, c :: rest => admitted s c ∧ Admitted admitted (s.step c) rest

def decideAdmitted {admitted : Session → Call → Prop} [∀ s c, Decidable (admitted s c)] :
    (s : Session) → (calls : List Call) → Decidable (Admitted admitted s calls)
  | _, [] => .isTrue trivial
  | s, c :: rest => @instDecidableAnd _ _ inferInstance (decideAdmitted (s.step c) rest)

instance {admitted : Session → Call → Prop} [∀ s c, Decidable (admitted s c)] (s : Session)
    (calls : List Call) : Decidable (Admitted admitted s calls) := decideAdmitted s calls

theorem Reachable.run {admitted : Session → Call → Prop} {s : Session} {calls : List Call}
    (h : Reachable admitted s) (ok : Admitted admitted s calls) :
    Reachable admitted (s.run calls) := by
  induction calls generalizing s with
  | nil => exact h
  | cons c rest ih => exact ih (h.step ok.1) ok.2

/-- No call is refused, not even with handles that stand for nothing. -/
def anyCall (_ : Session) (_ : Call) : Prop := True

end Session

/-! ## No call makes a design irregular -/

namespace Design

variable {d : Design}

theorem Regular.restore (h : d.Regular) (s : Snapshot) : (d.restore s).Regular := by
  have old : ∀ {id ns}, (d.restore s).namespaces.get? id = some ns →
      ∃ ns', d.namespaces.get? id = some ns' ∧ id.index < s.namespaces ∧
        ns = restoreNamespace s id.index ns' := by
    intro id ns hns
    rw [Design.restore, Table.get?_mapWithIndex, Table.get?_take] at hns
    split at hns
    · obtain ⟨ns', h', rfl⟩ := Option.map_eq_some_iff.1 hns
      exact ⟨ns', h', ‹_›, rfl⟩
    · cases hns
  have name : ∀ i ns, (restoreNamespace s i ns).name = ns.name := by
    intro i ns
    unfold restoreNamespace
    split <;> rfl
  refine ⟨h.names, h.types.take _, ?_, ?_, ?_, ?_⟩
  · have := h.leaves
    simp only [Design.restore, TypeTable.keep, Pool.take, Pool.size, Table.size_take] at this ⊢
    omega
  · intro n id
    rw [Design.restore, Std.ExtTreeMap.getElem?_filter, Option.pfilter_eq_filter,
      Option.filter_eq_some_iff, h.scopes]
    constructor
    · rintro ⟨⟨ns, hns, rfl⟩, hlt⟩
      have hlt := of_decide_eq_true hlt
      refine ⟨restoreNamespace s id.index ns, ?_, name _ _⟩
      rw [Table.get?_mapWithIndex, Table.get?_take, if_pos hlt, hns]
      rfl
    · rintro ⟨ns, hns, rfl⟩
      obtain ⟨ns', h', hlt, rfl⟩ := old hns
      exact ⟨⟨ns', h', (name _ _).symm⟩, decide_eq_true hlt⟩
  · intro id ns hns
    obtain ⟨ns', h', _, rfl⟩ := old hns
    unfold restoreNamespace
    split
    · exact (h.modules h').take _
    · exact h.modules h'
  · intro id ns hns
    obtain ⟨ns', h', _, rfl⟩ := old hns
    unfold restoreNamespace
    split
    · exact (h.generators h').take _
    · exact h.generators h'

end Design

namespace Document

open Edit

/-- A load leaves what the reading left, or restores what was there before. -/
theorem left_load_cases (strict : Bool) (doc : Json) (d : Design) :
    (load strict doc).left d = (read strict doc).left d ∨
      (load strict doc).left d = ((read strict doc).left d).restore d.snapshot := by
  unfold left load
  cases read strict doc d with
  | ok a d' => exact Or.inl rfl
  | error e d' =>
    cases e with
    | error e => exact Or.inr rfl
    | stale => exact Or.inl rfl

end Document

/-! ## What holds between a design and what a call makes of it -/

/-- A relation to which every call leads, but for new types. It allows that modules and
generators are written in place, and that a restore is made of any extent. -/
class Call.Leading (R : Design → Design → Prop) : Prop extends Document.ReadsTypes R where
  modules (d : Design) (modules : Table .module Module) : R d { d with modules }
  generators (d : Design) (generators : Table .generator Generator) : R d { d with generators }
  restore (d : Design) (p : Snapshot) : R d (d.restore p)

section

variable {R : Design → Design → Prop} [Call.Leading R] {ε α : Type}

theorem Edit.leads_setModuleMetadata (id : ModuleId) (metadata : Metadata) :
    Leads R (setModuleMetadata id metadata : Edit ε Unit) :=
  (Leads.live _).bind fun _ d => Call.Leading.modules d _

theorem Edit.leads_setGeneratorMetadata (id : GeneratorId) (metadata : Metadata) :
    Leads R (setGeneratorMetadata id metadata : Edit ε Unit) :=
  (Leads.live _).bind fun _ d => Call.Leading.generators d _

theorem Document.leads_load (strict : Bool) (doc : Json) : Edit.Leads R (load strict doc) := by
  intro d
  have read := leads_read (R := R) strict doc d
  rcases left_load_cases strict doc d with same | same <;> rw [same]
  · exact read
  · exact Design.Leading.trans read (Call.Leading.restore _ _)

namespace Session

theorem leads_build (s : Session) (k : Nat)
    {step : Definition → Edit GraphError (Definition × α)} (h : ∀ x, Edit.Leads R (step x)) :
    R s.design (s.build k step).design := by
  unfold build
  split
  · exact Design.Leading.refl _
  · rename_i draft _
    have left := h draft.definition s.design
    unfold Edit.left at left
    split <;> rename_i hx <;> rw [hx] at left <;> exact left

/-- What a call makes of a design, whatever handles it is given. -/
theorem leads_step (s : Session) (c : Call)
    (array : ∀ element length, c = .array element length → R s.design (s.step c).design)
    (record : ∀ fields, c = .record fields → R s.design (s.step c).design) :
    R s.design (s.step c).design := by
  cases c with
  | intern t => exact Edit.Leads.intern (ε := LoadError) t s.design
  | array element length => exact array element length rfl
  | record fields => exact record fields rfl
  | readType node => exact Document.ReadsTypes.readType node s.design
  | readParams node => exact Document.leads_readParams node s.design
  | readArgs params node what strict => exact Document.leads_readArgs _ node what strict s.design
  | openNamespace name => exact Edit.Leads.openNamespace (ε := LoadError) name s.design
  | declareModule scope name type params =>
    exact Edit.Leads.declareModule scope name type _ s.design
  | declareGenerator scope name genparams params =>
    exact Edit.Leads.declareGenerator scope name _ _ s.design
  | annotateModule id metadata =>
    exact Edit.leads_setModuleMetadata (ε := LoadError) id metadata s.design
  | annotateGenerator id metadata =>
    exact Edit.leads_setGeneratorMetadata (ε := LoadError) id metadata s.design
  | writeModule id f => exact Call.Leading.modules _ _
  | writeGenerator id f => exact Call.Leading.generators _ _
  | addInstance k name id config =>
    exact leads_build s k fun x => Document.leads_addInstance x name id _
  | addGeneratorInstance k name id genargs config =>
    exact leads_build s k fun x => Document.leads_addGeneratorInstance x name id _ _
  | connect k a b metadata => exact leads_build s k fun _ => .check _
  | newDraft | annotateInstance | annotateConnection | annotateDraft | writeDraft | snapshot =>
    exact Design.Leading.refl _
  | attach k =>
    simp only [step]
    split
    · exact Design.Leading.refl _
    · exact Edit.Leads.attach _ s.design
  | load strict doc => exact Document.leads_load strict doc s.design
  | restore k =>
    simp only [step, restore]
    split
    · exact Design.Leading.refl _
    · exact Call.Leading.restore _ _

end Session

end

/-! ## Every design is regular -/

/-- Whether a design is regular if another one is. -/
def Design.KeepsRegular (c d : Design) : Prop := c.Regular → d.Regular

instance : Call.Leading Design.KeepsRegular where
  refl _ h := h
  trans h k hb := k (h hb)
  move h _ := h.regular
  readType node _ := (Document.onlyGrows_readType node).regular
  modules _ _ h := { h with }
  generators _ _ h := { h with }
  restore _ p h := h.restore p

theorem Document.regular_load {d : Design} (hd : d.Regular) (strict : Bool) (doc : Json) :
    ((load strict doc).left d).Regular :=
  leads_load (R := Design.KeepsRegular) strict doc d hd

namespace Session

theorem regular_step {s : Session} (hs : s.design.Regular) (c : Call) :
    (s.step c).design.Regular := by
  refine leads_step (R := Design.KeepsRegular) s c ?_ ?_ hs
  · rintro element length rfl
    exact (Edit.OnlyGrows.array (ε := LoadError) element length).regular
  · rintro fields rfl
    exact (Edit.OnlyGrows.record fields).regular

/-- The design of every session is regular, whatever calls were made. -/
theorem Reachable.regular {admitted : Session → Call → Prop} {s : Session}
    (h : Reachable admitted s) : s.design.Regular := by
  induction h with
  | start => exact Design.regular_empty
  | step _ _ ih => exact regular_step ih _

end Session

end Netlist
