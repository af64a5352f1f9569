-- Live sessions: each call is only given handles that stand for something, current drafts
-- and valid restore points. The design of such a session is sound, and so are the drafts
-- that are current. Behind each valid point stands the design that it will give back.
import Netlist.Proofs.Mirror.Document
import Netlist.Proofs.Session

namespace Netlist

/-! ## Live calls -/

namespace Session

/-- Whether each name of the entries has a text. -/
def Named {α : Type} (s : Session) (entries : List (Name × α)) : Prop :=
  ∀ e ∈ entries, (s.design.text? e.1).isSome

/-- Whether arguments have names with texts, and values that are in the design. -/
def Bound (s : Session) (args : List (Name × Arg)) : Prop :=
  s.Named args ∧ ∀ e ∈ args, e.2.Sound s.design

/-- Whether a draft is there that no restore has made stale. -/
def Current (s : Session) (k : Nat) : Prop :=
  ∃ draft, s.drafts[k]? = some draft ∧ draft.current = true

def Spelled (s : Session) (p : WirePath) : Prop :=
  ∀ n ∈ p.root :: p.selectors, (s.design.text? n).isSome

/-- A call whose handles all stand for something. Of what is in a design or in a draft, only
metadata is written in place. -/
def Live (s : Session) : Call → Prop
  | .intern _ | .readType _ | .readParams _ | .openNamespace _ | .snapshot => True
  | .array element length => (s.design.types.get? element).isSome ∧ length < UInt32.size
  | .record fields => ∀ f ∈ fields, (s.design.types.get? f.2).isSome
  | .readArgs params _ _ _ => s.Named params
  | .declareModule scope _ type params =>
    (s.design.namespaces.get? scope).isSome ∧ (s.design.types.get? type).isSome ∧ s.Named params
  | .declareGenerator scope _ genparams params =>
    (s.design.namespaces.get? scope).isSome ∧ s.Named genparams ∧ s.Named params
  | .annotateModule id metadata => (s.design.modules.get? id).isSome ∧ metadata.WellFormed
  | .annotateGenerator id metadata => (s.design.generators.get? id).isSome ∧ metadata.WellFormed
  | .newDraft owner => (s.design.modules.get? owner).isSome
  | .addInstance k _ id config =>
    s.Current k ∧ (s.design.modules.get? id).isSome ∧ s.Bound config
  | .addGeneratorInstance k _ id genargs config =>
    s.Current k ∧ (s.design.generators.get? id).isSome ∧ s.Bound genargs ∧ s.Bound config
  | .connect k a b metadata => s.Current k ∧ s.Spelled a ∧ s.Spelled b ∧ metadata.WellFormed
  | .annotateInstance k _ metadata | .annotateConnection k _ metadata =>
    s.Current k ∧ metadata.WellFormed
  | .annotateDraft k implementations metadata =>
    s.Current k ∧ implementations.WellFormed ∧ metadata.WellFormed
  | .attach k => s.Current k
  | .load _ doc => doc.WellFormed
  | .restore k => ∃ p, s.points[k]? = some p ∧ p.valid = true
  | .writeModule _ _ | .writeGenerator _ _ | .writeDraft _ _ => False

/-- A call as before, but a definition that a restore made stale may be built on like any
other. It may only not be attached. -/
def Careful (s : Session) : Call → Prop
  | .addInstance _ _ id config => (s.design.modules.get? id).isSome ∧ s.Bound config
  | .addGeneratorInstance _ _ id genargs config =>
    (s.design.generators.get? id).isSome ∧ s.Bound genargs ∧ s.Bound config
  | .connect _ a b metadata => s.Spelled a ∧ s.Spelled b ∧ metadata.WellFormed
  | .annotateInstance _ _ metadata | .annotateConnection _ _ metadata => metadata.WellFormed
  | .annotateDraft _ implementations metadata => implementations.WellFormed ∧ metadata.WellFormed
  | c => s.Live c

theorem Live.careful {s : Session} {c : Call} (live : s.Live c) : s.Careful c := by
  cases c with
  | addInstance | addGeneratorInstance | connect | annotateInstance | annotateConnection
  | annotateDraft => exact live.2
  | _ => exact live

end Session

instance (d : Design) : (a : Arg) → Decidable (a.Sound d)
  | .int i => inferInstanceAs (Decidable (Json.fitsInt64 i = true))
  | .string _ => .isTrue trivial
  | .type id => inferInstanceAs (Decidable ((d.types.get? id).isSome = true))

namespace Session

variable {α : Type}

instance (s : Session) (entries : List (Name × α)) : Decidable (s.Named entries) :=
  inferInstanceAs (Decidable (∀ e ∈ entries, (s.design.text? e.1).isSome = true))

instance (s : Session) (args : List (Name × Arg)) : Decidable (s.Bound args) :=
  inferInstanceAs (Decidable (s.Named args ∧ ∀ e ∈ args, e.2.Sound s.design))

instance (s : Session) (k : Nat) : Decidable (s.Current k) :=
  decidable_of_iff (∃ draft ∈ s.drafts[k]?, draft.current = true) Iff.rfl

instance (s : Session) (p : WirePath) : Decidable (s.Spelled p) :=
  inferInstanceAs (Decidable (∀ n ∈ p.root :: p.selectors, (s.design.text? n).isSome = true))

instance (s : Session) : (c : Call) → Decidable (s.Live c)
  | .intern _ | .readType _ | .readParams _ | .openNamespace _ | .snapshot => .isTrue trivial
  | .array .. | .declareModule .. | .declareGenerator .. | .annotateModule ..
  | .annotateGenerator .. | .addInstance .. | .addGeneratorInstance .. | .connect ..
  | .annotateInstance .. | .annotateConnection .. | .annotateDraft .. => instDecidableAnd
  | .record fields =>
    inferInstanceAs (Decidable (∀ f ∈ fields, (s.design.types.get? f.2).isSome = true))
  | .readArgs params _ _ _ => inferInstanceAs (Decidable (s.Named params))
  | .newDraft owner => inferInstanceAs (Decidable ((s.design.modules.get? owner).isSome = true))
  | .attach k => inferInstanceAs (Decidable (s.Current k))
  | .load _ doc => inferInstanceAs (Decidable doc.WellFormed)
  | .restore k => decidable_of_iff (∃ p ∈ s.points[k]?, p.valid = true) Iff.rfl
  | .writeModule _ _ | .writeGenerator _ _ | .writeDraft _ _ => .isFalse id

end Session

namespace Session

/-! ## What live calls keep -/

/-- The points, the newest first, before this design. A valid point is the extent of a sound
design that only grew since. -/
def Chain : List Point → Design → Prop
  | [], _ => True
  | p :: older, d =>
    if p.valid then ∃ c : Design, c.Sound ∧ p.snapshot = c.snapshot ∧ c.Grows d ∧ Chain older c
    else Chain older d

structure Sound (s : Session) : Prop where
  design : s.design.Sound
  drafts : ∀ draft ∈ s.drafts, draft.current = true → draft.definition.Sound s.design
  points : Chain s.points s.design

end Session

/-! ## Restore points -/

namespace Session

variable {c d : Design} {ps : List Point}

theorem Chain.grow (h : Chain ps c) (g : c.Grows d) : Chain ps d := by
  induction ps with
  | nil => trivial
  | cons p older ih =>
    rw [Chain] at h ⊢
    split at h <;> rename_i hp
    · obtain ⟨b, sound, same, grows, rest⟩ := h
      exact (if_pos hp).symm ▸ ⟨b, sound, same, grows.trans g, rest⟩
    · rw [if_neg hp]
      exact ih h

/-- Points that are no longer valid may come in between. -/
theorem Chain.skip (h : Chain ps d) {newer : List Point} (stale : ∀ p ∈ newer, p.valid = false) :
    Chain (newer ++ ps) d := by
  induction newer with
  | nil => exact h
  | cons p rest ih =>
    rw [List.forall_mem_cons] at stale
    rw [List.cons_append, Chain, if_neg (by simp [stale.1])]
    exact ih stale.2

/-- What stands behind a valid point. -/
theorem Chain.point (h : Chain ps d) {k : Nat} {p : Point} (hp : ps[k]? = some p)
    (valid : p.valid = true) :
    ∃ c : Design, c.Sound ∧ p.snapshot = c.snapshot ∧ c.Grows d ∧ Chain (ps.drop (k + 1)) c := by
  induction ps generalizing k d with
  | nil => cases hp
  | cons q older ih =>
    rw [Chain] at h
    cases k with
    | zero =>
      cases hp
      rw [if_pos valid] at h
      exact h
    | succ k =>
      split at h
      · obtain ⟨b, -, -, grows, rest⟩ := h
        obtain ⟨c, sound, same, grows', rest'⟩ := ih rest hp
        exact ⟨c, sound, same, grows'.trans grows, rest'⟩
      · exact ih h hp

/-- What is done to each design alike, and changes no extent, keeps the points. -/
theorem Chain.map {f : Design → Design} (sound : ∀ {c : Design}, c.Sound → (f c).Sound)
    (same : ∀ c : Design, (f c).snapshot = c.snapshot)
    (grows : ∀ {c d : Design}, c.Grows d → (f c).Grows (f d)) (h : Chain ps d) :
    Chain ps (f d) := by
  induction ps generalizing d with
  | nil => trivial
  | cons p older ih =>
    rw [Chain] at h ⊢
    split at h <;> rename_i hp
    · obtain ⟨b, hb, extent, g, rest⟩ := h
      rw [if_pos hp]
      exact ⟨f b, sound hb, extent.trans (same b).symm, grows g, ih rest⟩
    · rw [if_neg hp]
      exact ih h

end Session

/-! ## Metadata in place -/

namespace Design

variable {c d : Design}

theorem snapshot_annotateModule (d : Design) (id : ModuleId) (metadata : Metadata) :
    (d.annotateModule id metadata).snapshot = d.snapshot := by
  have defined := Table.map_items_modify d.modules id (f := fun m => { m with metadata })
    (g := fun m => m.definition.isSome) fun _ => rfl
  have size := Table.size_modify d.modules id fun m => { m with metadata }
  rw [snapshot, snapshot, annotateModule, defined, size]

theorem snapshot_annotateGenerator (d : Design) (id : GeneratorId) (metadata : Metadata) :
    (d.annotateGenerator id metadata).snapshot = d.snapshot := by
  rw [snapshot, snapshot, annotateGenerator, Table.size_modify]

/-- A design that grew still did when both got the same metadata. -/
theorem Grows.annotateModule (g : c.Grows d) (id : ModuleId) (metadata : Metadata) :
    (c.annotateModule id metadata).Grows (d.annotateModule id metadata) :=
  { g with
    modules := fun {k m} hm => by
      rw [Design.annotateModule, Table.get?_modify] at hm ⊢
      split at hm <;> rename_i hk
      · obtain ⟨m₀, hm₀, rfl⟩ := Option.map_eq_some_iff.1 hm
        obtain ⟨m', hm', grown⟩ := g.modules hm₀
        rw [if_pos hk, hm']
        refine ⟨_, rfl, ?_⟩
        rcases grown with rfl | ⟨none, same⟩
        · exact .refl _
        · exact Or.inr ⟨none, by rw [same]⟩
      · rw [if_neg hk]
        exact g.modules hm }

theorem Grows.annotateGenerator (g : c.Grows d) (id : GeneratorId) (metadata : Metadata) :
    (c.annotateGenerator id metadata).Grows (d.annotateGenerator id metadata) :=
  { g with
    generators := fun {k x} hx => by
      rw [Design.annotateGenerator, Table.get?_modify] at hx ⊢
      split at hx <;> rename_i hk
      · obtain ⟨x₀, hx₀, rfl⟩ := Option.map_eq_some_iff.1 hx
        rw [if_pos hk, g.generators hx₀]
        rfl
      · rw [if_neg hk]
        exact g.generators hx }

end Design

/-! ## Drafts after a restore -/

section

variable {c d : Design}

theorem Args.Sound.restore {args : Args} (h : Args.Sound d args)
    (within : args.values.all (·.within c.snapshot) = true) :
    Args.Sound { c with names := d.names } args := by
  refine ⟨⟨h.consistent, h.named⟩, fun e he => ?_⟩
  have sound := h.values e he
  have left := List.all_eq_true.1 within e.2 (List.mem_map_of_mem he)
  cases ha : e.2 with
  | int i => rw [ha] at sound; exact sound
  | string s => trivial
  | type id =>
    rw [ha] at left
    exact (Table.isSome_get?_iff c.types.items id).2 (of_decide_eq_true left)

/-- What is left of the modules and generators asks for the same parameters as before. -/
theorem Design.Grows.configParams_within (g : c.Grows d) {t : Target} {params : Params}
    (h : d.configParams? t = some params) (within : t.within c.snapshot = true) :
    c.configParams? t = some params := by
  cases t with
  | module id =>
    obtain ⟨m, hm⟩ := Table.exists_get? (of_decide_eq_true within)
    have := g.keeps.configParams (t := .module id) (Option.map_eq_some_iff.2 ⟨m, hm, rfl⟩)
    cases this.symm.trans h
    exact Option.map_eq_some_iff.2 ⟨m, hm, rfl⟩
  | generator id =>
    obtain ⟨x, hx⟩ := Table.exists_get? (of_decide_eq_true within)
    have := g.keeps.configParams (t := .generator id) (Option.map_eq_some_iff.2 ⟨x, hx, rfl⟩)
    cases this.symm.trans h
    exact Option.map_eq_some_iff.2 ⟨x, hx, rfl⟩

theorem Target.Generated.restore {t : Target} {genargs : Option Args}
    (h : t.Generated d genargs) (g : c.Grows d) (within : t.within c.snapshot = true)
    (values : ∀ args ∈ genargs, args.values.all (·.within c.snapshot) = true) :
    t.Generated { c with names := d.names } genargs := by
  cases t with
  | module id => cases genargs <;> exact h
  | generator id =>
    cases genargs with
    | none => exact h
    | some args =>
      obtain ⟨sound, x, hx, fits⟩ := h
      obtain ⟨x', hx'⟩ := Table.exists_get? (of_decide_eq_true within)
      cases (g.generators hx').symm.trans hx
      exact ⟨sound.restore (values args rfl), x, hx', fits⟩

theorem Instance.Sound.restore {i : Instance} (h : i.Sound d) (g : c.Grows d)
    (within : i.within c.snapshot = true) : i.Sound { c with names := d.names } := by
  unfold Instance.within at within
  simp only [Bool.and_eq_true] at within
  obtain ⟨⟨target, config⟩, genargs⟩ := within
  obtain ⟨params, hp, fits⟩ := h.fits
  refine ⟨⟨params, g.configParams_within hp target, fits⟩, h.config.restore config,
    h.genargs.restore g target fun args hargs => ?_, h.metadata⟩
  rw [Option.mem_def.1 hargs] at genargs
  exact genargs

/-- A draft stays sound if the restore leaves everything that it names. -/
theorem Definition.Sound.restore {x : Definition} (h : x.Sound d) (g : c.Grows d)
    (within : x.within c.snapshot = true) : x.Sound { c with names := d.names } := by
  simp only [Definition.within, Bool.and_eq_true, decide_eq_true_iff, List.all_eq_true] at within
  exact
    { h with
      owner := (Table.isSome_get?_iff c.modules x.owner).2 within.1
      instances := ⟨h.instances.consistent, h.instances.named⟩
      instance_sound := fun e he =>
        (h.instance_sound e he).restore g (within.2 e.2 (List.mem_map_of_mem he))
      ends := fun l hl => ⟨{ (h.ends l hl).1 with }, { (h.ends l hl).2 with }⟩ }

end

/-! ## Calls on the design -/

section

variable {d : Design}

theorem NameMap.Sound.ofList {α : Type} {entries : List (Name × α)}
    (h : ∀ e ∈ entries, (d.text? e.1).isSome) : NameMap.Sound d (.ofList entries) := by
  refine ⟨NameMap.consistent_ofList entries, fun e he => ?_⟩
  rw [NameMap.toList_ofList] at he
  exact h e ((Assoc.mem_setAll he).resolve_left List.not_mem_nil)

theorem Args.Sound.ofList {entries : List (Name × Arg)}
    (named : ∀ e ∈ entries, (d.text? e.1).isSome) (values : ∀ e ∈ entries, e.2.Sound d) :
    Args.Sound d (.ofList entries) := by
  refine { NameMap.Sound.ofList named with values := fun e he => ?_ }
  rw [NameMap.toList_ofList] at he
  exact values e ((Assoc.mem_setAll he).resolve_left List.not_mem_nil)

namespace Edit

open Design

variable {ε : Type}

theorem sound_record (hd : d.Sound) {fields : List (String × TypeId)}
    (live : ∀ f ∈ fields, (d.types.get? f.2).isSome) : ((record fields).left d).Sound := by
  have unfolded : ∃ ts, Document.UnfoldFields d fields ts := exists_forall₂ fun f hf => by
    obtain ⟨t, ht⟩ := hd.exists_unfolds (live f hf)
    exact ⟨(f.1, t), rfl, ht⟩
  obtain ⟨ts, unfolds⟩ := unfolded
  exact (Document.mirrors_record hd unfolds).sound_left

theorem sound_openNamespace (hd : d.Sound) (name : String) :
    ((openNamespace name : Document.Load NamespaceId).left d).Sound := by
  obtain ⟨scopes, h⟩ := hd.exists_outlineNamespaces
  obtain ⟨_, d', ran, sound, -⟩ := Document.openNamespace_scoped hd h name
  rw [left_of_ok ran]
  exact sound

theorem sound_declareModule (hd : d.Sound) (scope : NamespaceId) (name : String) {type : TypeId}
    (live : (d.types.get? type).isSome) {params : Params} (hp : NameMap.Sound d params) :
    ((declareModule scope name type params).left d).Sound := by
  have sound := hd.withName name
  have keeps := (d.grows_withName name).keeps
  by_cases free : (d.withName name).Free scope (d.names.intern name).1
  · rw [left_of_ok (declareModule_of_free free type params)]
    exact sound.addModule free (Option.isSome_of_eq_some (hd.text_withName name))
      (keeps.type_isSome live) (hp.keep keeps) Metadata.wellFormed_empty
  · obtain ⟨e, refused⟩ := declareModule_of_not_free free type params
    rw [left_of_error refused]
    exact sound

theorem sound_declareGenerator (hd : d.Sound) (scope : NamespaceId) (name : String)
    {genparams params : Params} (hg : NameMap.Sound d genparams) (hp : NameMap.Sound d params) :
    ((declareGenerator scope name genparams params).left d).Sound := by
  have sound := hd.withName name
  have keeps := (d.grows_withName name).keeps
  by_cases free : (d.withName name).Free scope (d.names.intern name).1
  · rw [left_of_ok (declareGenerator_of_free free genparams params)]
    exact sound.addGenerator free (Option.isSome_of_eq_some (hd.text_withName name))
      (hg.keep keeps) (hp.keep keeps) Metadata.wellFormed_empty
  · obtain ⟨e, refused⟩ := declareGenerator_of_not_free free genparams params
    rw [left_of_error refused]
    exact sound

theorem sound_attach (hd : d.Sound) {x : Definition} (hx : x.Sound d) :
    ((attach x).left d).Sound := by
  obtain ⟨m, hm⟩ := Option.isSome_iff_exists.1 hx.owner
  have attached := attach_apply x d
  rw [hm] at attached
  by_cases defined : m.definition.isSome
  · rw [left_of_error (attached.trans (if_pos defined))]
    exact hd
  · rw [left_of_ok (attached.trans (if_neg defined))]
    exact hd.define rfl hx

theorem left_setModuleMetadata {id : ModuleId} (live : (d.modules.get? id).isSome)
    (metadata : Metadata) :
    (setModuleMetadata id metadata : Edit ε Unit).left d = d.annotateModule id metadata := by
  obtain ⟨m, hm⟩ := Option.isSome_iff_exists.1 live
  exact left_of_ok (bind_of_ok (live_of_some hm))

theorem left_setGeneratorMetadata {id : GeneratorId} (live : (d.generators.get? id).isSome)
    (metadata : Metadata) :
    (setGeneratorMetadata id metadata : Edit ε Unit).left d = d.annotateGenerator id metadata := by
  obtain ⟨g, hg⟩ := Option.isSome_iff_exists.1 live
  exact left_of_ok (bind_of_ok (live_of_some hg))

end Edit

theorem Document.sound_load (hd : d.Sound) (strict : Bool) {doc : Json} (wf : doc.WellFormed) :
    ((load strict doc).left d).Sound ∧ d.Grows ((load strict doc).left d) := by
  obtain ⟨scopes, hs⟩ := hd.exists_outlineNamespaces
  have sound := (mirrors_read hd hs strict wf).sound_left
  have grows := Edit.OnlyGrows.grows (leads_read strict doc) d
  rcases left_load_cases strict doc d with same | same <;> rw [same]
  · exact ⟨sound, grows⟩
  · refine ⟨hd.restore sound grows, ?_⟩
    rw [Design.restore_snapshot hd.toRegular sound.toRegular grows]
    exact { Design.Grows.refl d with names := grows.names }

end

/-! ## Calls on drafts -/

namespace Definition

variable {d d' : Design} {x : Definition}

open Edit

/-- A step that checks arguments before it adds an instance brings the name at most. -/
theorem left_of_checked {step : Edit GraphError (Definition × Instance)} {name : String}
    {i : Instance} {mismatch : Option Params.Mismatch} {e : Params.Mismatch → Failure GraphError}
    (ran : step d = match mismatch with
      | none => x.insertInstance i (d.withName name)
      | some m => .error (e m) d) : step.left d = d ∨ step.left d = d.withName name := by
  cases mismatch with
  | some m => exact Or.inl (left_of_error ran)
  | none =>
    refine Or.inr ?_
    rw [insertInstance_apply] at ran
    by_cases reserved : i.name = Design.selfName
    · exact left_of_error (ran.trans (if_pos reserved))
    · by_cases taken : x.instances.contains i.name
      · exact left_of_error (ran.trans ((if_neg reserved).trans (if_pos taken)))
      · exact left_of_ok (ran.trans ((if_neg reserved).trans (if_neg taken)))

theorem sound_left_addInstance (hd : d.Sound) (x : Definition) (name : String) {id : ModuleId}
    (live : (d.modules.get? id).isSome) (config : Args) :
    ((x.addInstance name id config).left d).Sound := by
  obtain ⟨m, hm⟩ := Option.isSome_iff_exists.1 live
  obtain ⟨scope, text, hs, -⟩ := hd.symbolText_module hm
  rcases left_of_checked (addInstance_apply x name config hm
    (Design.qualifiedName_of_symbolText hs)) with same | same <;> rw [same]
  · exact hd
  · exact hd.withName name

theorem sound_left_addGeneratorInstance (hd : d.Sound) (x : Definition) (name : String)
    {id : GeneratorId} (live : (d.generators.get? id).isSome) (genargs config : Args) :
    ((x.addGeneratorInstance name id genargs config).left d).Sound := by
  obtain ⟨g, hg⟩ := Option.isSome_iff_exists.1 live
  obtain ⟨scope, text, hs, -⟩ := hd.symbolText_generator hg
  rcases left_of_checked (addGeneratorInstance_apply x name genargs config hg
    (Design.qualifiedName_of_symbolText hs)) with same | same <;> rw [same]
  · exact hd
  · exact hd.withName name

/-- What holds of the connections, with this metadata or not, holds after one of them gets it. -/
theorem forall_annotateConnection {P : Connection → Prop} {metadata : Metadata}
    (old : ∀ c ∈ x.connections.toList, P c)
    (new : ∀ c ∈ x.connections.toList, P { c with metadata }) (i : Nat) :
    ∀ c ∈ (x.annotateConnection i metadata).connections.toList, P c := by
  rw [Definition.annotateConnection, Array.toList_modify]
  intro c hc
  obtain ⟨j, hj⟩ := List.mem_iff_getElem?.1 hc
  rw [List.getElem?_modify] at hj
  obtain ⟨b, hb, rfl⟩ := Option.map_eq_some_iff.1 hj
  split
  · exact new b (List.mem_of_getElem? hb)
  · exact old b (List.mem_of_getElem? hb)

theorem ends_annotateConnection (x : Definition) (i : Nat) (metadata : Metadata) :
    (x.annotateConnection i metadata).connections.toList.map ends =
      x.connections.toList.map ends := by
  rw [Definition.annotateConnection, Array.toList_modify]
  refine List.ext_getElem? fun j => ?_
  rw [List.getElem?_map, List.getElem?_map, List.getElem?_modify, Option.map_eq_map,
    Option.map_map]
  refine congrArg (Option.map · _) (funext fun c => ?_)
  dsimp only [Function.comp]
  split <;> rfl

theorem Sound.annotateConnection (h : x.Sound d) (i : Nat) {metadata : Metadata}
    (hm : metadata.WellFormed) : (x.annotateConnection i metadata).Sound d := by
  have unlinked : Unlinked x.connections.toList := h.unlinked
  refine { h with
    ends := ?_
    connection_metadata := ?_
    unlinked := unlinked.of_ends (ends_annotateConnection x i metadata) }
  · exact forall_annotateConnection
      (fun c hc => ⟨{ (h.ends c hc).1 with }, { (h.ends c hc).2 with }⟩)
      (fun c hc => ⟨{ (h.ends c hc).1 with }, { (h.ends c hc).2 with }⟩) i
  · exact forall_annotateConnection h.connection_metadata (fun _ _ => hm) i

theorem Sound.annotateDraft (h : x.Sound d) {implementations metadata : Metadata}
    (hi : implementations.WellFormed) (hm : metadata.WellFormed) :
    { x with implementations, metadata }.Sound d :=
  { h with
    implementations := hi
    metadata := hm
    ends := fun c hc => ⟨{ (h.ends c hc).1 with }, { (h.ends c hc).2 with }⟩ }

end Definition

/-! ## Sessions stay sound -/

namespace Session

variable {s : Session}

theorem sound_start : start.Sound where
  design := Design.sound_empty
  drafts draft hd := by cases hd
  points := trivial

theorem Sound.after (h : s.Sound) {ε α : Type} {step : Edit ε α}
    (sound : (step.left s.design).Sound) (grows : s.design.Grows (step.left s.design)) :
    (s.after step).Sound where
  design := sound
  drafts draft hd current := (h.drafts draft hd current).keep grows.keeps
  points := h.points.grow grows

/-- A step that only lets a design grow keeps the session sound if it keeps the design so. -/
theorem Sound.after_onlyGrows (h : s.Sound) {ε α : Type} {step : Edit ε α}
    (sound : (step.left s.design).Sound) (grows : Edit.OnlyGrows step) : (s.after step).Sound :=
  h.after sound (grows.grows s.design)

/-- A draft that is built stays sound if the step gives a sound one for a sound one. -/
theorem Sound.build (h : s.Sound) {k : Nat} {α : Type}
    {step : Definition → Edit GraphError (Definition × α)} (grows : ∀ x, Edit.OnlyGrows (step x))
    (left : ∀ x, ((step x).left s.design).Sound)
    (built : ∀ {x y a d'}, x.Sound s.design → step x s.design = .ok (y, a) d' → y.Sound d') :
    (s.build k step).Sound := by
  cases hk : s.drafts[k]? with
  | none =>
    simp only [Session.build, hk]
    exact h
  | some draft =>
    have sound := left draft.definition
    have grown := (grows draft.definition).grows s.design
    cases ran : step draft.definition s.design with
    | error e d' =>
      rw [Edit.left_of_error ran] at sound grown
      simp only [Session.build, hk, ran]
      exact ⟨sound, fun x hx hcx => (h.drafts x hx hcx).keep grown.keeps, h.points.grow grown⟩
    | ok answer d' =>
      rw [Edit.left_of_ok ran] at sound grown
      simp only [Session.build, hk, ran]
      refine ⟨sound, fun x hx hcx => ?_, h.points.grow grown⟩
      rcases List.mem_or_eq_of_mem_set hx with hx | rfl
      · exact (h.drafts x hx hcx).keep grown.keeps
      · exact built (h.drafts draft (List.mem_of_getElem? hk) hcx) ran

/-- A draft that is changed in place stays sound if the change keeps it so. -/
theorem Sound.write (h : s.Sound) {k : Nat} {f : Definition → Definition}
    (sound : ∀ {x}, x.Sound s.design → (f x).Sound s.design) : (s.write k f).Sound := by
  refine ⟨h.design, fun draft hd current => ?_, h.points⟩
  obtain ⟨j, hj⟩ := List.mem_iff_getElem?.1 hd
  rw [Session.write, List.getElem?_modify] at hj
  obtain ⟨old, ho, rfl⟩ := Option.map_eq_some_iff.1 hj
  have mem := List.mem_of_getElem? ho
  split at current <;> rename_i hk
  · rw [if_pos hk]
    exact sound (h.drafts old mem current)
  · rw [if_neg hk]
    exact h.drafts old mem current

theorem Sound.restore (h : s.Sound) {k : Nat} {p : Point} (hp : s.points[k]? = some p)
    (valid : p.valid = true) : (s.restore k).Sound := by
  obtain ⟨c, hc, extent, grows, older⟩ := h.points.point hp valid
  have restored := Design.restore_snapshot hc.toRegular h.design.toRegular grows
  have sound := hc.restore h.design grows
  have left : c.Grows (s.design.restore c.snapshot) := by
    rw [restored]
    exact { Design.Grows.refl c with names := grows.names }
  simp only [Session.restore, hp, extent]
  refine ⟨sound, fun draft hd current => ?_, Chain.skip ?_ fun q hq => ?_⟩
  · obtain ⟨old, ho, rfl⟩ := List.mem_map.1 hd
    rw [Bool.and_eq_true] at current
    change old.definition.Sound (s.design.restore c.snapshot)
    rw [restored]
    exact (h.drafts old ho current.1).restore grows current.2
  · obtain ⟨lt, same⟩ := List.getElem?_eq_some_iff.1 hp
    rw [List.drop_eq_getElem_cons lt, same, Chain, if_pos valid]
    exact ⟨c, hc, extent, left, older⟩
  · obtain ⟨_, -, rfl⟩ := List.mem_map.1 hq
    rfl

theorem Sound.annotate (h : s.Sound) {f : Design → Design}
    (sound : ∀ {c : Design}, c.Sound → (f c).Sound)
    (same : ∀ c : Design, (f c).snapshot = c.snapshot)
    (grows : ∀ {c d : Design}, c.Grows d → (f c).Grows (f d)) (keeps : s.design.Keeps (f s.design)) :
    Session.Sound { s with design := f s.design } :=
  ⟨sound h.design, fun draft hd current => (h.drafts draft hd current).keep keeps,
    h.points.map sound same grows⟩

/-- A careful call keeps a session sound, whether it succeeds or fails. -/
theorem Sound.step (h : s.Sound) {c : Call} (live : s.Careful c) : (s.step c).Sound := by
  have hd := h.design
  cases c with
  | intern t => exact h.after_onlyGrows (hd.withName t) (.intern t)
  | array element length =>
    exact h.after_onlyGrows (hd.withType (Design.sound_array live.1 live.2)) (.array element length)
  | record fields => exact h.after_onlyGrows (Edit.sound_record hd live) (.record fields)
  | readType node =>
    exact h.after_onlyGrows (Document.mirrors_readType node hd).sound_left
      (Document.onlyGrows_readType node)
  | readParams node =>
    exact h.after_onlyGrows (Document.mirrors_readParams hd node).sound_left
      (Document.leads_readParams node)
  | readArgs params node what strict =>
    have sound := NameMap.Sound.ofList live
    obtain ⟨ps, outline⟩ := Design.exists_outlineParams sound
    exact h.after_onlyGrows (Document.mirrors_readArgs hd ⟨sound, outline⟩ node what strict).sound_left
      (Document.leads_readArgs _ node what strict)
  | openNamespace name =>
    exact h.after_onlyGrows (Edit.sound_openNamespace hd name) (.openNamespace name)
  | declareModule scope name type params =>
    exact h.after_onlyGrows (Edit.sound_declareModule hd scope name live.2.1 (.ofList live.2.2))
      (.declareModule scope name type _)
  | declareGenerator scope name genparams params =>
    exact h.after_onlyGrows
      (Edit.sound_declareGenerator hd scope name (.ofList live.2.1) (.ofList live.2.2))
      (.declareGenerator scope name _ _)
  | annotateModule id metadata =>
    simp only [Session.step, Session.after, Edit.left_setModuleMetadata live.1]
    exact h.annotate (f := (·.annotateModule id metadata)) (fun hc => hc.annotateModule id live.2)
      (fun c => c.snapshot_annotateModule id metadata) (fun g => g.annotateModule id metadata)
      (Design.keeps_annotateModule _ id metadata)
  | annotateGenerator id metadata =>
    simp only [Session.step, Session.after, Edit.left_setGeneratorMetadata live.1]
    exact h.annotate (f := (·.annotateGenerator id metadata))
      (fun hc => hc.annotateGenerator id live.2)
      (fun c => c.snapshot_annotateGenerator id metadata)
      (fun g => g.annotateGenerator id metadata) (Design.keeps_annotateGenerator _ id metadata)
  | writeModule | writeGenerator | writeDraft => exact live.elim
  | newDraft owner =>
    refine ⟨hd, fun draft mem current => ?_, h.points⟩
    rcases List.mem_append.1 mem with mem | mem
    · exact h.drafts draft mem current
    · rw [List.mem_singleton.1 mem]
      exact .empty live
  | addInstance k name id config =>
    obtain ⟨target, bound⟩ := live
    refine h.build (fun x => Document.leads_addInstance x name id _)
      (fun x => x.sound_left_addInstance hd name target _) fun hx ran => ?_
    exact (hx.addInstance hd (.ofList bound.1 bound.2) ran).2
  | addGeneratorInstance k name id genargs config =>
    obtain ⟨target, bound, bound'⟩ := live
    refine h.build (fun x => Document.leads_addGeneratorInstance x name id _ _)
      (fun x => x.sound_left_addGeneratorInstance hd name target _ _) fun hx ran => ?_
    exact (hx.addGeneratorInstance hd (.ofList bound.1 bound.2) (.ofList bound'.1 bound'.2) ran).2
  | connect k a b metadata =>
    obtain ⟨spelled, spelled', wf⟩ := live
    change (s.build k fun x => Edit.check fun d => x.connect d a b metadata).Sound
    refine h.build (fun x => .check _) (fun x => ?_) fun {x y _ d'} hx ran => ?_
    · rw [Edit.left_check]
      exact hd
    rw [Edit.check_apply] at ran
    split at ran <;> cases ran
    exact hx.connect spelled spelled' wf ‹_›
  | annotateInstance k name metadata => exact h.write fun hx => hx.annotate name live
  | annotateConnection k i metadata => exact h.write fun hx => hx.annotateConnection i live
  | annotateDraft k implementations metadata =>
    exact h.write fun hx => hx.annotateDraft live.1 live.2
  | attach k =>
    obtain ⟨draft, hk, current⟩ := live
    simp only [Session.step, hk]
    exact h.after_onlyGrows
      (Edit.sound_attach hd (h.drafts draft (List.mem_of_getElem? hk) current)) (.attach _)
  | load strict doc =>
    obtain ⟨sound, grows⟩ := Document.sound_load hd strict live
    exact h.after sound grows
  | snapshot =>
    refine ⟨hd, h.drafts, ?_⟩
    exact ⟨s.design, hd, rfl, .refl _, h.points⟩
  | restore k =>
    obtain ⟨p, hp, valid⟩ := live
    exact h.restore hp valid

/-- Every session of careful calls is sound. -/
theorem Reachable.sound_of_careful (h : Reachable Careful s) : s.Sound := by
  induction h with
  | start => exact sound_start
  | step _ careful ih => exact ih.step careful

theorem Reachable.careful (h : Reachable Live s) : Reachable Careful s := by
  induction h with
  | start => exact .start
  | step _ live ih => exact .step ih live.careful

/-- Every session of live calls is sound. -/
theorem Reachable.sound (h : Reachable Live s) : s.Sound := h.careful.sound_of_careful

end Session

end Netlist
