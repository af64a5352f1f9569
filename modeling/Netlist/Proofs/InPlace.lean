-- Definitions that are built in place. Each call checks what it is given before it changes
-- anything, so a definition only ever holds what was checked, and a call that fails leaves it
-- exactly as it was.
import Netlist.Proofs.Live

namespace Netlist

open Design Edit

/-! ## Names keep their texts -/

/-- Whether each name of a design has the same text in another one. -/
def Design.KeepsTexts (c d : Design) : Prop := ∀ n s, c.text? n = some s → d.text? n = some s

instance : Call.Leading Design.KeepsTexts where
  refl _ _ _ h := h
  trans h k n s hn := k n s (h n s hn)
  move h _ _ _ := h.grows.names
  readType node d _ _ := ((Document.onlyGrows_readType node).grows d).names
  modules _ _ _ _ h := h
  generators _ _ _ _ h := h
  restore _ _ _ _ h := h

/-- The word at the root of inner wire paths has its name in every session. -/
theorem Session.Reachable.self {admitted : Session → Call → Prop} {s : Session}
    (h : Reachable admitted s) : s.design.text? selfName = some selfWord := by
  induction h with
  | start => exact sound_empty.self
  | @step s c _ _ ih =>
    refine leads_step (R := Design.KeepsTexts) s c ?_ ?_ selfName selfWord ih
    · rintro element length rfl n w
      exact ((OnlyGrows.array (ε := LoadError) element length).grows s.design).names
    · rintro fields rfl n w
      exact ((OnlyGrows.record fields).grows s.design).names

/-! ## Building in place -/

/-- A step that changes a definition in place. What it did before it failed is not undone. -/
abbrev Building := EStateM (Failure GraphError) (Design × Definition)

namespace Building

variable {α β : Type}

def definition : Building Definition := return (← get).2

def write (f : Definition → Definition) : Building Unit := modify fun (d, x) => (d, f x)

/-- Puts in an instance whose arguments are already checked. -/
def insertInstance (i : Instance) : Building Instance := do
  if i.name = selfName then throw (.error (.reservedInstanceName selfWord))
  let x ← definition
  match x.instances.tryInsert? i.name i with
  | some instances =>
    write fun x => { x with instances }
    return i
  | none => beside (Edit.failWith fun d => do
    return .duplicateInstance (← d.qualifiedName? (.module x.owner)) (← d.text? i.name))

def addInstance (name : String) (id : ModuleId) (config : Args) : Building Instance := do
  let target := Target.module id
  let m ← beside (live fun d => d.modules.get? id)
  let label ← beside (live fun d => d.qualifiedName? target)
  beside (Edit.check fun d => m.params.check config label d.names)
  let n ← beside (intern name)
  insertInstance ⟨n, target, config, none, ∅⟩

def addGeneratorInstance (name : String) (id : GeneratorId) (genargs config : Args) :
    Building Instance := do
  let target := Target.generator id
  let label ← beside (live fun d => d.qualifiedName? target)
  let g ← beside (live fun d => d.generators.get? id)
  beside (Edit.check fun d => g.genparams.check genargs label d.names)
  beside (Edit.check fun d => g.params.check config label d.names)
  let n ← beside (intern name)
  insertInstance ⟨n, target, config, some genargs, ∅⟩

def checkEnd (p : WirePath) : Building Unit := do
  let x ← definition
  beside (Edit.check fun d => x.checkEnd d p)

/-- Connects two terminals, and gives the position of the link. -/
def connect (a b : WirePath) : Building Nat := do
  checkEnd a
  checkEnd b
  let x ← definition
  match x.connections.findIdx? (·.links a b) with
  | some i => return i
  | none =>
    write fun x => { x with connections := x.connections.push ⟨a, b, ∅⟩ }
    return x.connections.size

/-- The same, and puts metadata on top of that of the link. -/
def connectWithMetadata (a b : WirePath) (metadata : Metadata) : Building Nat := do
  let i ← connect a b
  write fun x => { x with connections := x.connections.modify i fun c =>
    { c with metadata := c.metadata.extend metadata } }
  return i

/-! ## All at once -/

/-- A step that gives a whole new definition if it succeeds, and nothing of it if it fails. -/
def whole (step : Definition → Edit GraphError (Definition × α)) : Building α := fun (d, x) =>
  match step x d with
  | .ok (y, a) d' => .ok a (d', y)
  | .error e d' => .error e (d', x)

theorem beside_bind_whole (step : Edit GraphError α)
    (f : α → Definition → Edit GraphError (Definition × β)) :
    (beside step >>= fun a => whole (f a)) = whole fun x => step >>= fun a => f a x := by
  funext ⟨d, x⟩
  cases h : step d with
  | ok a d' => rw [bind_of_ok (beside_of_ok h x), whole, whole, bind_of_ok h]
  | error e d' => rw [bind_of_error (beside_of_error h x), whole, bind_of_error h]

/-- What such a step answers may be left out. -/
theorem discard_whole (step : Definition → Edit GraphError (Definition × α)) (d : Design)
    (x : Definition) : (do let _ ← whole step : Building Unit) (d, x) =
      match (do return (← step x).1 : Edit GraphError Definition) d with
      | .ok y d' => .ok () (d', y)
      | .error e d' => .error e (d', x) := by
  cases h : step x d with
  | ok r d' =>
    rw [bind_of_ok h, bind_of_ok (by rw [whole, h])]
    rfl
  | error e d' => rw [bind_of_error h, bind_of_error (by rw [whole, h])]

theorem insertInstance_eq (i : Instance) : insertInstance i = whole (·.insertInstance i) := by
  funext ⟨d, x⟩
  rw [whole, Definition.insertInstance_apply]
  unfold insertInstance
  by_cases reserved : i.name = selfName
  · rw [if_pos reserved, if_pos reserved]
    rfl
  · rw [if_neg reserved, if_neg reserved]
    refine (bind_of_ok rfl).trans ?_
    unfold NameMap.tryInsert?
    cases x.instances.contains i.name <;> rfl

theorem addInstance_eq (name : String) (id : ModuleId) (config : Args) :
    addInstance name id config = whole (·.addInstance name id config) := by
  unfold addInstance Definition.addInstance
  simp only [insertInstance_eq, beside_bind_whole]

theorem addGeneratorInstance_eq (name : String) (id : GeneratorId) (genargs config : Args) :
    addGeneratorInstance name id genargs config =
      whole (·.addGeneratorInstance name id genargs config) := by
  unfold addGeneratorInstance Definition.addGeneratorInstance
  simp only [insertInstance_eq, beside_bind_whole]

theorem checkEnd_of_ok {d : Design} {x : Definition} {p : WirePath} (h : x.checkEnd d p = .ok ()) :
    checkEnd p (d, x) = .ok () (d, x) :=
  (bind_of_ok rfl).trans (beside_of_ok (check_eq_ok_iff.2 ⟨h, rfl⟩) x)

theorem checkEnd_of_error {d : Design} {x : Definition} {p : WirePath} {e : Failure GraphError}
    (h : x.checkEnd d p = .error e) : checkEnd p (d, x) = .error e (d, x) :=
  (bind_of_ok rfl).trans (beside_of_error (by rw [check_apply, h]) x)

/-- Between ends that pass their checks, a link is found or put in. -/
theorem connect_of_ok {d : Design} {x : Definition} {a b : WirePath}
    (ha : x.checkEnd d a = .ok ()) (hb : x.checkEnd d b = .ok ()) : connect a b (d, x) =
      match x.connections.findIdx? (·.links a b) with
      | some i => .ok i (d, x)
      | none =>
        .ok x.connections.size (d, { x with connections := x.connections.push ⟨a, b, ∅⟩ }) := by
  refine (bind_of_ok (checkEnd_of_ok ha)).trans ((bind_of_ok (checkEnd_of_ok hb)).trans ?_)
  refine (bind_of_ok rfl).trans ?_
  cases x.connections.findIdx? (·.links a b) <;> rfl

theorem modify_push {α : Type} (xs : Array α) (a : α) (f : α → α) :
    (xs.push a).modify xs.size f = xs.push (f a) := by
  simp [Array.modify, Array.modifyM, Array.set_push]

theorem connectWithMetadata_of_ok {d : Design} {x : Definition} {a b : WirePath}
    (ha : x.checkEnd d a = .ok ()) (hb : x.checkEnd d b = .ok ()) (metadata : Metadata) :
    connectWithMetadata a b metadata (d, x) =
      .ok (Definition.linked x.connections a b metadata).2
        (d, { x with connections := (Definition.linked x.connections a b metadata).1 }) := by
  have slot := connect_of_ok ha hb
  unfold connectWithMetadata Definition.linked
  cases hi : x.connections.findIdx? (·.links a b) with
  | some i =>
    rw [hi] at slot
    exact bind_of_ok slot
  | none =>
    rw [hi] at slot
    refine (bind_of_ok slot).trans ?_
    exact congrArg (fun connections => EStateM.Result.ok _ (d, { x with connections }))
      (modify_push ..)

theorem connectWithMetadata_eq (a b : WirePath) (metadata : Metadata) :
    connectWithMetadata a b metadata = whole fun x => do
      let (y, _) ← Edit.check fun d => x.connect d a b metadata
      return (y, (Definition.linked x.connections a b metadata).2) := by
  funext ⟨d, x⟩
  cases ha : x.checkEnd d a with
  | error e =>
    have refused : x.connect d a b metadata = .error e := by
      unfold Definition.connect
      rw [ha]
      rfl
    rw [whole, bind_of_error (by rw [check_apply, refused])]
    exact bind_of_error (bind_of_error (checkEnd_of_error ha))
  | ok _ =>
    cases hb : x.checkEnd d b with
    | error e =>
      have refused : x.connect d a b metadata = .error e := by
        unfold Definition.connect
        rw [ha, hb]
        rfl
      rw [whole, bind_of_error (by rw [check_apply, refused])]
      exact bind_of_error ((bind_of_ok (checkEnd_of_ok ha)).trans
        (bind_of_error (checkEnd_of_error hb)))
    | ok _ =>
      obtain ⟨c, linked⟩ := Definition.connect_of_ok ha hb metadata
      rw [whole, bind_of_ok (by rw [check_apply, linked]), connectWithMetadata_of_ok ha hb]
      rfl

/-- Without metadata the connection stays as it is. -/
theorem connect_eq (a b : WirePath) : connect a b = connectWithMetadata a b ∅ := by
  have same (i : Nat) : (write fun x => { x with connections := x.connections.modify i fun c =>
      { c with metadata := c.metadata.extend ∅ } }) = pure () := by
    funext ⟨d, x⟩
    refine congrArg (fun connections => EStateM.Result.ok () (d, { x with connections })) ?_
    refine Array.toList_inj.1 ?_
    rw [Array.toList_modify]
    exact List.modify_id _ _
  unfold connectWithMetadata
  simp only [same, pure_bind, bind_pure]

end Building

/-! ## Requests -/

/-- The calls that build a definition, and those that annotate what it holds. -/
inductive BuildRequest where
  | addInstance (name : String) (id : ModuleId) (config : Args)
  | addGeneratorInstance (name : String) (id : GeneratorId) (genargs config : Args)
  | connect (a b : WirePath)
  | connectWithMetadata (a b : WirePath) (metadata : Metadata)
  | annotateInstance (name : Name) (metadata : Metadata)
  | annotateConnection (i : Nat) (metadata : Metadata)
  | annotate (implementations metadata : Metadata)

namespace BuildRequest

/-- What a request does in place. -/
def perform : BuildRequest → Building Unit
  | addInstance name id config => do let _ ← Building.addInstance name id config
  | addGeneratorInstance name id genargs config => do
    let _ ← Building.addGeneratorInstance name id genargs config
  | connect a b => do let _ ← Building.connect a b
  | connectWithMetadata a b metadata => do let _ ← Building.connectWithMetadata a b metadata
  | annotateInstance name metadata => Building.write (·.annotate name metadata)
  | annotateConnection i metadata => Building.write (·.annotateConnection i metadata)
  | annotate implementations metadata =>
    Building.write fun x => { x with implementations, metadata }

/-- The definition that a request makes of another one. -/
def build : BuildRequest → Definition → Edit GraphError Definition
  | addInstance name id config, x => do return (← x.addInstance name id config).1
  | addGeneratorInstance name id genargs config, x => do
    return (← x.addGeneratorInstance name id genargs config).1
  | connect a b, x => do return (← Edit.check fun d => x.connect d a b ∅).1
  | connectWithMetadata a b metadata, x => do
    return (← Edit.check fun d => x.connect d a b metadata).1
  | annotateInstance name metadata, x => return x.annotate name metadata
  | annotateConnection i metadata, x => return x.annotateConnection i metadata
  | annotate implementations metadata, x => return { x with implementations, metadata }

/-- A request that fails in place leaves the definition as it was, and one that succeeds leaves
the definition that it makes of it. -/
theorem perform_apply (r : BuildRequest) (d : Design) (x : Definition) :
    r.perform (d, x) =
      match r.build x d with
      | .ok y d' => .ok () (d', y)
      | .error e d' => .error e (d', x) := by
  cases r with
  | addInstance name id config =>
    rw [perform, Building.addInstance_eq]
    exact Building.discard_whole ..
  | addGeneratorInstance name id genargs config =>
    rw [perform, Building.addGeneratorInstance_eq]
    exact Building.discard_whole ..
  | connect a b =>
    rw [perform, Building.connect_eq, Building.connectWithMetadata_eq, Building.discard_whole,
      bind_assoc]
    rfl
  | connectWithMetadata a b metadata =>
    rw [perform, Building.connectWithMetadata_eq, Building.discard_whole, bind_assoc]
    rfl
  | annotateInstance | annotateConnection | annotate => rfl

end BuildRequest

/-! ## What a definition holds -/

/-- Only a generator has generator arguments bound to it, and they pass its check. -/
def Target.Binds (d : Design) : Target → Option Args → Prop
  | module _, none => True
  | generator id, some args => ∃ g, d.generators.get? id = some g ∧
    ∀ label, g.genparams.check args label d.names = .ok ()
  | _, _ => False

theorem Target.Binds.keep {c d : Design} {t : Target} {genargs : Option Args}
    (h : t.Binds c genargs) (k : c.Keeps d) : t.Binds d genargs := by
  cases t with
  | module id =>
    cases genargs with
    | none => trivial
    | some args => exact h
  | generator id =>
    cases genargs with
    | none => exact h
    | some args =>
      obtain ⟨g, hg, ok⟩ := h
      obtain ⟨g', hg', -, -, same, -⟩ := k.generators hg
      exact ⟨g', hg', fun label => by
        rw [same]
        exact Params.check_eq_ok_iff.2 (Params.check_eq_ok_iff.1 (ok label))⟩

namespace Definition

/-- A wire path begins at an instance or at the module itself, and with a word that is not
empty. -/
def Begins (d : Design) (x : Definition) (p : WirePath) : Prop :=
  ∃ root, d.text? p.root = some root ∧ root ≠ "" ∧ (root = selfWord ∨ p.root ∈ x.instances.names)

/-- No two instances have one name, and none is called `self`. Each has arguments that pass the
checks of its target. Each connection is between instances and the module itself, and no two
connections are between the same ends. -/
structure WellBuilt (d : Design) (x : Definition) : Prop where
  consistent : x.instances.Consistent
  distinct : (x.instances.names.map d.text?).Nodup
  named : ∀ e ∈ x.instances.toList, e.2.name = e.1 ∧ ∃ s, d.text? e.1 = some s ∧ s ≠ selfWord
  config : ∀ e ∈ x.instances.toList, ∃ params, d.configParams? e.2.target = some params ∧
    ∀ label, params.check e.2.config label d.names = .ok ()
  genargs : ∀ e ∈ x.instances.toList, e.2.target.Binds d e.2.genargs
  begins : ∀ c ∈ x.connections.toList, x.Begins d c.first ∧ x.Begins d c.second
  unlinked : Unlinked x.connections.toList

variable {c d : Design} {x y : Definition}

theorem Begins.keep {p : WirePath} (h : x.Begins c p) (k : c.Keeps d) : x.Begins d p := by
  obtain ⟨root, text, full, begins⟩ := h
  exact ⟨root, k.names text, full, begins⟩

theorem Begins.of_names {p : WirePath} (h : x.Begins d p)
    (names : ∀ n ∈ x.instances.names, n ∈ y.instances.names) : y.Begins d p := by
  obtain ⟨root, text, full, begins⟩ := h
  exact ⟨root, text, full, begins.imp_right (names _)⟩

theorem wellBuilt_empty (d : Design) (owner : ModuleId) : (empty owner).WellBuilt d where
  consistent := NameMap.consistent_empty
  distinct := List.nodup_nil
  named _ he := by cases he
  config _ he := by cases he
  genargs _ he := by cases he
  begins _ hc := by cases hc
  unlinked := .nil

namespace WellBuilt

/-- A definition stays well built while the design goes on. -/
theorem keep (h : x.WellBuilt c) (k : c.Keeps d) : x.WellBuilt d where
  consistent := h.consistent
  distinct := by
    have same : ∀ n ∈ x.instances.names, d.text? n = c.text? n := by
      intro n hn
      obtain ⟨e, he, rfl⟩ := List.mem_map.1 hn
      obtain ⟨-, s, text, -⟩ := h.named e he
      rw [text, k.names text]
    rw [List.map_congr_left same]
    exact h.distinct
  named e he := by
    obtain ⟨name, s, text, other⟩ := h.named e he
    exact ⟨name, s, k.names text, other⟩
  config e he := by
    obtain ⟨params, declared, ok⟩ := h.config e he
    exact ⟨params, k.configParams declared,
      fun label => Params.check_eq_ok_iff.2 (Params.check_eq_ok_iff.1 (ok label))⟩
  genargs e he := (h.genargs e he).keep k
  begins c hc := ⟨(h.begins c hc).1.keep k, (h.begins c hc).2.keep k⟩
  unlinked := h.unlinked

/-- A definition stays well built with one more instance under a new name. -/
theorem append (h : x.WellBuilt d) (regular : d.Regular) (self : d.text? selfName = some selfWord)
    {i : Instance} {s : String} (text : d.text? i.name = some s) (other : i.name ≠ selfName)
    (fresh : x.instances.contains i.name = false) {params : Params}
    (declared : d.configParams? i.target = some params) (fits : params.Fits i.config)
    (genargs : i.target.Binds d i.genargs) :
    { x with instances := x.instances.append i.name i }.WellBuilt d := by
  have names : ∀ n ∈ x.instances.names, n ∈ (x.instances.append i.name i).names := fun n hn => by
    rw [NameMap.names_append]
    exact List.mem_append_left _ hn
  refine ⟨h.consistent.append fresh i, ?_, NameMap.forall_append h.named ⟨rfl, s, text, ?_⟩,
    NameMap.forall_append h.config ⟨params, declared, fun _ => Params.check_eq_ok_iff.2 fits⟩,
    NameMap.forall_append h.genargs genargs, fun c hc => ?_, h.unlinked⟩
  · rw [NameMap.names_append, List.map_append, List.nodup_append]
    refine ⟨h.distinct, List.pairwise_singleton _ _, fun t ht u hu same => ?_⟩
    obtain ⟨n, hn, rfl⟩ := List.mem_map.1 ht
    rw [List.map_singleton, List.mem_singleton] at hu
    have one : n = i.name := regular.names.get?_injective ((same.trans hu).trans text) text
    exact (h.consistent.contains_eq_false_iff _).1 fresh (one ▸ hn)
  · rintro rfl
    exact other (regular.names.get?_injective text self)
  · exact ⟨(h.begins c hc).1.of_names names, (h.begins c hc).2.of_names names⟩

theorem begins_of_checkEnd (h : x.WellBuilt d) (self : d.text? selfName = some selfWord)
    {p : WirePath} (ok : x.checkEnd d p = .ok ()) : x.Begins d p := by
  cases text : d.text? p.root with
  | none =>
    unfold checkEnd at ok
    rw [text] at ok
    cases ok
  | some root =>
    rw [checkEnd_eq text] at ok
    split at ok
    · cases ok
    · rename_i full
      split at ok
      · rename_i begins
        refine ⟨root, text, full, begins.imp (fun is => ?_) (h.consistent.contains_iff _).1⟩
        rw [is, self] at text
        exact (Option.some.inj text).symm
      · cases ok

/-- A definition stays well built when a link is put in between ends that were checked. -/
theorem link (h : x.WellBuilt d) {a b : WirePath} (ha : x.Begins d a) (hb : x.Begins d b)
    (metadata : Metadata) :
    { x with connections := (linked x.connections a b metadata).1 }.WellBuilt d :=
  { h with
    begins := forall_linked h.begins h.begins ⟨ha, hb⟩
    unlinked := unlinked_linked h.unlinked a b metadata }

theorem addInstance (h : x.WellBuilt d) (regular : d.Regular)
    (self : d.text? selfName = some selfWord) {name : String} {id : ModuleId} {config : Args}
    {i : Instance} {d' : Design} (ok : x.addInstance name id config d = .ok (y, i) d') :
    y.WellBuilt d' := by
  obtain ⟨rfl, rfl, ⟨m, hm, fits⟩, other, fresh, rfl⟩ := addInstance_eq_ok ok
  have keeps := (d.grows_withName name).keeps
  have declared : d.configParams? (.module id) = some m.params := by
    rw [configParams?, hm]
    rfl
  exact (h.keep keeps).append (regular.withName name) (keeps.names self)
    (regular.names.get?_intern name) other fresh (keeps.configParams declared) fits trivial

theorem addGeneratorInstance (h : x.WellBuilt d) (regular : d.Regular)
    (self : d.text? selfName = some selfWord) {name : String} {id : GeneratorId}
    {genargs config : Args} {i : Instance} {d' : Design}
    (ok : x.addGeneratorInstance name id genargs config d = .ok (y, i) d') : y.WellBuilt d' := by
  obtain ⟨rfl, rfl, ⟨g, hg, fitsGen, fits⟩, other, fresh, rfl⟩ := addGeneratorInstance_eq_ok ok
  have keeps := (d.grows_withName name).keeps
  have declared : d.configParams? (.generator id) = some g.params := by
    rw [configParams?, hg]
    rfl
  have binds : Target.Binds d (.generator id) (some genargs) :=
    ⟨g, hg, fun _ => Params.check_eq_ok_iff.2 fitsGen⟩
  exact (h.keep keeps).append (regular.withName name) (keeps.names self)
    (regular.names.get?_intern name) other fresh (keeps.configParams declared) fits
    (binds.keep keeps)

theorem connect (h : x.WellBuilt d) (self : d.text? selfName = some selfWord) {a b : WirePath}
    {metadata : Metadata} {l : Connection} (ok : x.connect d a b metadata = .ok (y, l)) :
    y.WellBuilt d := by
  obtain ⟨first, second, rfl⟩ := connect_eq_ok ok
  exact h.link (h.begins_of_checkEnd self first) (h.begins_of_checkEnd self second) metadata

theorem annotate (h : x.WellBuilt d) (name : Name) (metadata : Metadata) :
    (x.annotate name metadata).WellBuilt d := by
  have names : (x.annotate name metadata).instances.names = x.instances.names :=
    NameMap.names_modify ..
  refine
    { consistent := h.consistent.modify name _
      distinct := names ▸ h.distinct
      named := h.consistent.forall_modify h.named h.named name
      config := h.consistent.forall_modify h.config h.config name
      genargs := h.consistent.forall_modify h.genargs h.genargs name
      begins := fun c hc => ?_
      unlinked := h.unlinked }
  exact ⟨(h.begins c hc).1.of_names fun n hn => names ▸ hn,
    (h.begins c hc).2.of_names fun n hn => names ▸ hn⟩

theorem annotateConnection (h : x.WellBuilt d) (i : Nat) (metadata : Metadata) :
    (x.annotateConnection i metadata).WellBuilt d :=
  { h with
    begins := forall_annotateConnection h.begins h.begins i
    unlinked := h.unlinked.of_ends (ends_annotateConnection x i metadata) }

end WellBuilt

end Definition

/-! ## What requests make of a definition -/

namespace BuildRequest

variable {d d' : Design} {x y : Definition}

open Definition

theorem onlyGrows_build (r : BuildRequest) (x : Definition) : OnlyGrows (r.build x) := by
  cases r with
  | addInstance name id config =>
    exact (Document.leads_addInstance x name id config).bind fun _ => .pure _
  | addGeneratorInstance name id genargs config =>
    exact (Document.leads_addGeneratorInstance x name id genargs config).bind fun _ => .pure _
  | connect | connectWithMetadata => exact (Leads.check _).bind fun _ => .pure _
  | annotateInstance | annotateConnection | annotate => exact .pure _

/-- A request that succeeds makes a well built definition of a well built one. -/
theorem wellBuilt_of_build (regular : d.Regular) (self : d.text? selfName = some selfWord)
    (h : x.WellBuilt d) (r : BuildRequest) (ok : r.build x d = .ok y d') : y.WellBuilt d' := by
  cases r with
  | addInstance name id config =>
    obtain ⟨⟨_, _⟩, _, added, ⟨⟩⟩ := seq_eq_ok_iff.1 ok
    exact h.addInstance regular self added
  | addGeneratorInstance name id genargs config =>
    obtain ⟨⟨_, _⟩, _, added, ⟨⟩⟩ := seq_eq_ok_iff.1 ok
    exact h.addGeneratorInstance regular self added
  | connect a b =>
    obtain ⟨⟨_, _⟩, _, checked, ⟨⟩⟩ := seq_eq_ok_iff.1 ok
    obtain ⟨connected, rfl⟩ := check_eq_ok_iff.1 checked
    exact h.connect self connected
  | connectWithMetadata a b metadata =>
    obtain ⟨⟨_, _⟩, _, checked, ⟨⟩⟩ := seq_eq_ok_iff.1 ok
    obtain ⟨connected, rfl⟩ := check_eq_ok_iff.1 checked
    exact h.connect self connected
  | annotateInstance name metadata =>
    cases ok
    exact h.annotate name metadata
  | annotateConnection i metadata =>
    cases ok
    exact h.annotateConnection i metadata
  | annotate =>
    cases ok
    exact { h with }

/-- What a request leaves behind, whether it succeeds or fails. -/
def left (r : BuildRequest) (s : Design × Definition) : Design × Definition :=
  match r.perform s with
  | .ok _ s' => s'
  | .error _ s' => s'

end BuildRequest

/-- A regular design in which the word `self` has its name, and a definition that is well built
there. -/
structure Building.Sound (s : Design × Definition) : Prop where
  regular : s.1.Regular
  self : s.1.text? selfName = some selfWord
  built : s.2.WellBuilt s.1

/-- Whether a request succeeds or fails, it leaves a well built definition. -/
theorem Building.Sound.left {s : Design × Definition} (h : Sound s) (r : BuildRequest) :
    Sound (r.left s) := by
  obtain ⟨d, x⟩ := s
  have grows := (r.onlyGrows_build x).grows d
  have regular := (r.onlyGrows_build x).regular h.regular
  rw [BuildRequest.left, r.perform_apply]
  cases ran : r.build x d with
  | ok y d' =>
    rw [left_of_ok ran] at grows regular
    have built := BuildRequest.wellBuilt_of_build h.regular h.self h.built r ran
    exact ⟨regular, grows.names h.self, built⟩
  | error e d' =>
    -- the definition is the old one, but the name of a refused instance has come to the design
    rw [left_of_error ran] at grows regular
    exact ⟨regular, grows.names h.self, h.built.keep grows.keeps⟩

/-- What requests make of a new definition, whether they succeed or fail. Meanwhile the design
may become another one that keeps what was there. -/
inductive Built (owner : ModuleId) (c : Design) : Design × Definition → Prop
  | new : Built owner c (c, .empty owner)
  | request {s : Design × Definition} (h : Built owner c s) (r : BuildRequest) :
    Built owner c (r.left s)
  | meanwhile {d d' : Design} {x : Definition} (h : Built owner c (d, x)) (keeps : d.Keeps d')
      (regular : d'.Regular) : Built owner c (d', x)

/-- What some requests leave behind, one after another. -/
def BuildRequest.run (rs : List BuildRequest) (s : Design × Definition) : Design × Definition :=
  rs.foldl (fun s r => r.left s) s

theorem Built.run {owner : ModuleId} {c : Design} {s : Design × Definition} (h : Built owner c s)
    (rs : List BuildRequest) : Built owner c (BuildRequest.run rs s) := by
  induction rs generalizing s with
  | nil => exact h
  | cons r rest ih => exact ih (h.request r)

theorem Built.sound {owner : ModuleId} {c : Design} (regular : c.Regular)
    (self : c.text? selfName = some selfWord) {s : Design × Definition} (h : Built owner c s) :
    Building.Sound s := by
  induction h with
  | new => exact ⟨regular, self, Definition.wellBuilt_empty c owner⟩
  | request _ r ih => exact ih.left r
  | meanwhile _ keeps regular ih => exact ⟨regular, keeps.names ih.self, ih.built.keep keeps⟩

namespace Session

/-- Whatever is requested of a new definition in a session, it is well built, and each request
that fails leaves it exactly as it was. -/
theorem wellBuilt_of_reachable {s : Session} (reached : s.Reachable anyCall) {owner : ModuleId}
    {d : Design} {x : Definition} (built : Built owner s.design (d, x)) :
    x.WellBuilt d ∧ ∀ r e d' y, BuildRequest.perform r (d, x) = .error e (d', y) → y = x := by
  refine ⟨(built.sound reached.regular reached.self).built, fun r e d' y failed => ?_⟩
  rw [r.perform_apply] at failed
  cases ran : r.build x d with
  | ok => rw [ran] at failed; cases failed
  | error =>
    rw [ran] at failed
    cases failed
    rfl

/-- A module and a generator, each with a parameter, and an instance name and the empty word. -/
def callsWithTargets : List Call := [
  .intern "width", .openNamespace "lib", .declareModule ⟨0⟩ "cell" ⟨0⟩ [(⟨1⟩, .int)],
  .declareGenerator ⟨0⟩ "maker" [(⟨1⟩, .int)] [], .intern "a", .intern ""]

/-- Requests for instances and links, of which half are refused. -/
def requestsWithRefusals : List BuildRequest := [
  .addInstance "a" ⟨0⟩ (.ofList [(⟨1⟩, .int 8)]), .addInstance "a" ⟨0⟩ (.ofList [(⟨1⟩, .int 9)]),
  .addInstance "self" ⟨0⟩ (.ofList [(⟨1⟩, .int 8)]), .addInstance "b" ⟨0⟩ ∅,
  .addGeneratorInstance "g" ⟨0⟩ (.ofList [(⟨1⟩, .int 2)]) ∅, .connect ⟨⟨0⟩, [⟨1⟩]⟩ ⟨⟨5⟩, []⟩,
  .connectWithMetadata ⟨⟨5⟩, []⟩ ⟨⟨0⟩, [⟨1⟩]⟩ ⟨[("note", .null)]⟩, .connect ⟨⟨6⟩, []⟩ ⟨⟨5⟩, []⟩,
  .connect ⟨⟨99⟩, []⟩ ⟨⟨5⟩, []⟩, .annotateInstance ⟨5⟩ ⟨[("note", .null)]⟩]

theorem wellBuilt_with_refusals :
    let built := BuildRequest.run requestsWithRefusals
      ((start.run callsWithTargets).design, .empty ⟨0⟩)
    built.2.instances.names.map built.1.text? = [some "a", some "g"] ∧
      built.2.connections.size = 1 ∧ built.2.WellBuilt built.1 := by
  intro built
  have reached : Reachable anyCall (start.run callsWithTargets) :=
    .run .start ⟨trivial, trivial, trivial, trivial, trivial, trivial, trivial⟩
  have made : Built ⟨0⟩ (start.run callsWithTargets).design (built.1, built.2) :=
    Built.new.run requestsWithRefusals
  exact ⟨by decide +kernel, by decide +kernel, (wellBuilt_of_reachable reached made).1⟩

end Session

end Netlist
