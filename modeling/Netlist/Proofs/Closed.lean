-- No handle dangles. Whatever a careful session did, restores included, every handle that
-- its design holds stands for something: in types, in modules, in namespaces and in all that
-- the definitions name. So no question about the design runs into a handle that is stale.
import Netlist.Document.Save
import Netlist.Proofs.Interning
import Netlist.Proofs.Symbols

namespace Netlist

/-! ## The handles in a design -/

/-- The type that an argument gives, if it gives one. -/
def Arg.type? : Arg → Option TypeId
  | type id => some id
  | _ => none

/-- The types among all arguments of an instance. -/
def Instance.types (i : Instance) : List TypeId :=
  (i.config.values ++ (i.genargs.map (·.values)).getD []).filterMap Arg.type?

/-- Everything that a definition names is there. -/
structure Definition.Closed (d : Design) (x : Definition) : Prop where
  owner : (d.modules.get? x.owner).isSome
  targets : ∀ i ∈ x.instances.values, (d.placeOf? i.target).isSome
  types : ∀ i ∈ x.instances.values, ∀ t ∈ i.types, (d.types.get? t).isSome

namespace Design

/-- One type is a part of another one. -/
def PartOf (d : Design) (part id : TypeId) : Prop :=
  ∃ w, d.types.get? id = some w ∧ part ∈ w.parts

/-- Every handle that the design holds stands for something. -/
structure Closed (d : Design) : Prop where
  part : ∀ {part id}, d.PartOf part id → (d.types.get? part).isSome
  moduleType : ∀ {id m}, d.modules.get? id = some m → (d.types.get? m.type).isSome
  moduleScope : ∀ {id m}, d.modules.get? id = some m → (d.namespaces.get? m.scope).isSome
  generatorScope : ∀ {id g}, d.generators.get? id = some g → (d.namespaces.get? g.scope).isSome
  definition : ∀ {id m x}, d.modules.get? id = some m → m.definition = some x → x.Closed d
  listedModule : ∀ {id ns}, d.namespaces.get? id = some ns →
    ∀ k ∈ ns.modules.values, (d.modules.get? k).isSome
  listedGenerator : ∀ {id ns}, d.namespaces.get? id = some ns →
    ∀ k ∈ ns.generators.values, (d.generators.get? k).isSome
  scope : ∀ {n : Name} {id}, d.scopes[n]? = some id → (d.namespaces.get? id).isSome

/-- Every question about the design, and every load into it, has an answer or an error of its
own. Types are unfolded in finitely many steps. -/
structure Answers (d : Design) : Prop where
  resolve : ∀ scope name d', Edit.resolve scope name d ≠ .error .stale d'
  qualifiedName : ∀ t, (d.placeOf? t).isSome → (d.qualifiedName? t).isSome
  document : ∀ top, (d.modules.get? top).isSome → (d.document? top).isSome
  load : ∀ strict doc d', doc.WellFormed → Document.load strict doc d ≠ .error .stale d'
  unfolding : WellFounded d.PartOf
  typeNode : ∀ id, (d.types.get? id).isSome →
    ∃ t, d.Unfolds id t ∧ d.typeNode? id = some t.toJson

variable {d : Design}

theorem Sound.part_lt (h : d.Sound) {part id : TypeId} (hp : d.PartOf part id) :
    part.index < id.index := by
  obtain ⟨w, hw, mem⟩ := hp
  exact h.founded.part_lt hw part mem

theorem Sound.listed (h : d.Sound) : d.Listed :=
  { h.toRegular with
    namespaceListed := h.namespaceSound
    moduleListed := fun hm =>
      ⟨(h.moduleSound hm).id_eq, (h.moduleSound hm).name, (h.moduleSound hm).scope⟩
    generatorListed := fun hg =>
      ⟨(h.generatorSound hg).id_eq, (h.generatorSound hg).name, (h.generatorSound hg).scope⟩ }

/-- A target that asks for parameters is there. -/
theorem placeOf?_isSome_of_configParams {t : Target} {params : Params}
    (h : d.configParams? t = some params) : (d.placeOf? t).isSome := by
  cases t with
  | module id =>
    obtain ⟨m, hm, -⟩ := Option.map_eq_some_iff.1 h
    rw [placeOf?, hm]
    rfl
  | generator id =>
    obtain ⟨g, hg, -⟩ := Option.map_eq_some_iff.1 h
    rw [placeOf?, hg]
    rfl

end Design

theorem Args.Sound.types {d : Design} {args : Args} (h : Args.Sound d args) {t : TypeId}
    (mem : t ∈ args.values.filterMap Arg.type?) : (d.types.get? t).isSome := by
  obtain ⟨a, ha, type⟩ := List.mem_filterMap.1 mem
  obtain ⟨e, he, rfl⟩ := List.mem_map.1 ha
  have sound := h.values e he
  cases hv : e.2 with
  | int | string => rw [hv] at type; cases type
  | type id =>
    rw [hv] at type sound
    cases type
    exact sound

theorem Instance.Sound.types {d : Design} {i : Instance} (h : i.Sound d) {t : TypeId}
    (mem : t ∈ i.types) : (d.types.get? t).isSome := by
  rw [Instance.types, List.filterMap_append, List.mem_append] at mem
  rcases mem with mem | mem
  · exact h.config.types mem
  · have generated := h.genargs
    cases hg : i.genargs with
    | none => rw [hg] at mem; cases mem
    | some args =>
      rw [hg] at mem generated
      cases ht : i.target with
      | module id => rw [ht] at generated; exact generated.elim
      | generator id =>
        rw [ht] at generated
        exact generated.1.types mem

theorem Definition.Sound.closed {d : Design} {x : Definition} (h : x.Sound d) : x.Closed d where
  owner := h.owner
  targets i hi := by
    obtain ⟨e, he, rfl⟩ := List.mem_map.1 hi
    obtain ⟨params, hp, -⟩ := (h.instance_sound e he).fits
    exact Design.placeOf?_isSome_of_configParams hp
  types i hi t ht := by
    obtain ⟨e, he, rfl⟩ := List.mem_map.1 hi
    exact (h.instance_sound e he).types ht

namespace Design

variable {d : Design}

theorem Sound.closed (h : d.Sound) : d.Closed where
  part {part id} hp := by
    have lt := h.part_lt hp
    obtain ⟨w, hw, -⟩ := hp
    have live := (Table.isSome_get?_iff d.types.items id).1 (Option.isSome_of_eq_some hw)
    exact (Table.isSome_get?_iff d.types.items part).2 (Nat.lt_trans lt live)
  moduleType hm := (h.moduleSound hm).type
  moduleScope hm := by
    obtain ⟨ns, hns, -⟩ := (h.moduleSound hm).scope
    exact Option.isSome_of_eq_some hns
  generatorScope hg := by
    obtain ⟨ns, hns, -⟩ := (h.generatorSound hg).scope
    exact Option.isSome_of_eq_some hns
  definition hm hx := ((h.moduleSound hm).definition _ hx).2.closed
  listedModule hns k hk := by
    obtain ⟨e, he, rfl⟩ := List.mem_map.1 hk
    obtain ⟨m, hm, -⟩ := (h.namespaceSound hns).modules e he
    exact Option.isSome_of_eq_some hm
  listedGenerator hns k hk := by
    obtain ⟨e, he, rfl⟩ := List.mem_map.1 hk
    obtain ⟨g, hg, -⟩ := (h.namespaceSound hns).generators e he
    exact Option.isSome_of_eq_some hg
  scope hs := by
    obtain ⟨ns, hns, -⟩ := (h.scopes _ _).1 hs
    exact Option.isSome_of_eq_some hns

theorem Sound.answers (h : d.Sound) : d.Answers where
  resolve scope name d' stale := by
    obtain ⟨found, looked, -⟩ := h.listed.lookup?_iff scope name
    rw [Edit.resolve, Edit.bind_of_ok (Edit.live_of_some looked)] at stale
    cases found <;> cases stale
  qualifiedName t ht := by
    obtain ⟨s, hs⟩ := Option.isSome_iff_exists.1 (h.listed.isSome_symbolText ht)
    exact Option.isSome_of_eq_some (qualifiedName_of_symbolText hs)
  document top live := by
    obtain ⟨o, ho⟩ := h.exists_outline live
    exact Option.isSome_of_eq_some (congrArg (Option.map Outline.toJson) ho)
  load strict doc d' wf stale := by
    obtain ⟨scopes, hs⟩ := h.exists_outlineNamespaces
    cases hr : Plain.read strict doc scopes with
    | error e =>
      obtain ⟨_, failed⟩ := Document.load_of_read_error h hs wf hr
      cases failed.symm.trans stale
    | ok answer =>
      obtain ⟨o, warnings⟩ := answer
      obtain ⟨_, _, loaded, -⟩ := Document.load_of_read_ok h hs wf hr
      cases loaded.symm.trans stale
  unfolding := Subrelation.wf (fun hp => h.part_lt hp) (InvImage.wf Handle.index Nat.lt_wfRel.wf)
  typeNode id live := by
    obtain ⟨t, ht⟩ := h.exists_unfolds live
    exact ⟨t, ht, congrArg (Option.map TypeTree.toJson) (h.typeTree_eq_some_iff.2 ht)⟩

end Design

namespace Session

/-- After any careful calls every handle stands for something, and no question about the design
meets one that does not. -/
theorem no_handle_dangles {s : Session} (reached : s.Reachable Careful) :
    s.design.Closed ∧ s.design.Answers :=
  ⟨reached.sound_of_careful.design.closed, reached.sound_of_careful.design.answers⟩

/-- An instance of a generator with a record type among its arguments, made after a restore. -/
def callsWithGenerator : List Call := [
  .openNamespace "lib", .snapshot, .array TypeTable.bitInId 8, .restore 0,
  .record [("in", TypeTable.bitInId), ("out", TypeTable.bitOutId)], .intern "shape",
  .declareGenerator ⟨0⟩ "make" [(⟨4⟩, .type)] [], .declareModule ⟨0⟩ "main" ⟨3⟩ [],
  .newDraft ⟨0⟩, .addGeneratorInstance 0 "i" ⟨0⟩ [(⟨4⟩, .type ⟨3⟩)] [], .attach 0]

theorem no_handle_dangles_with_generator :
    let d := (start.run callsWithGenerator).design
    d.modules.items.map (fun m => m.definition.map (·.instances.size)) = #[some 1] ∧
      d.Closed ∧ d.Answers ∧ (d.document? ⟨0⟩).isSome := by
  intro d
  have live : Reachable Live (start.run callsWithGenerator) := .run .start (by decide +kernel)
  obtain ⟨closed, answers⟩ := no_handle_dangles live.careful
  exact ⟨by decide +kernel, closed, answers, answers.document ⟨0⟩ (by decide +kernel)⟩

end Session

end Netlist
