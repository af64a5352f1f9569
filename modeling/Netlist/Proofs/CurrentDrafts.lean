-- Current drafts: as long as no restore takes away what a definition names, each module and
-- generator that it names stays declared as it was. So a current draft that is attached goes
-- to the module that it was created for, and its instances still fit their targets. A draft
-- that a restore made stale is attached as well, to whatever has the number by then.
import Netlist.Proofs.Rewind

namespace Netlist

/-! ## Declarations -/

/-- What a module or generator is declared as. It may get a definition and other metadata
later, but nothing else of it changes. -/
structure Declaration where
  scope : NamespaceId
  name : Name
  type : Option TypeId
  genparams : Option Params
  params : Params

namespace Design

def declaration? (d : Design) : Target → Option Declaration
  | .module id => (d.modules.get? id).map fun m => ⟨m.scope, m.name, some m.type, none, m.params⟩
  | .generator id =>
    (d.generators.get? id).map fun g => ⟨g.scope, g.name, none, some g.genparams, g.params⟩

variable {c d : Design} {t : Target} {x : Declaration}

theorem Grows.declaration (g : c.Grows d) (h : c.declaration? t = some x) :
    d.declaration? t = some x := by
  cases t with
  | module id =>
    obtain ⟨m, hm, rfl⟩ := Option.map_eq_some_iff.1 h
    obtain ⟨m', hm', grown⟩ := g.modules hm
    obtain ⟨name, scope, type, params, -⟩ := grown.fields
    exact Option.map_eq_some_iff.2 ⟨m', hm', by rw [name, scope, type, params]⟩
  | generator id =>
    obtain ⟨y, hy, rfl⟩ := Option.map_eq_some_iff.1 h
    exact Option.map_eq_some_iff.2 ⟨y, g.generators hy, rfl⟩

/-- What comes before a snapshot is declared in it as it is now. -/
theorem Grows.declaration_within (g : c.Grows d) (within : t.within c.snapshot = true) :
    c.declaration? t = d.declaration? t := by
  have declared : ∃ x, c.declaration? t = some x := by
    cases t with
    | module id =>
      obtain ⟨m, hm⟩ := Table.exists_get? (of_decide_eq_true within)
      exact ⟨_, Option.map_eq_some_iff.2 ⟨m, hm, rfl⟩⟩
    | generator id =>
      obtain ⟨y, hy⟩ := Table.exists_get? (of_decide_eq_true within)
      exact ⟨_, Option.map_eq_some_iff.2 ⟨y, hy, rfl⟩⟩
  obtain ⟨x, declared⟩ := declared
  rw [declared, g.declaration declared]

theorem map_bare {e : Entity} {α β : Type} (bare : α → α) {f : α → β}
    (same : ∀ a, f (bare a) = f a) {s t : Table e α} (h : t.map bare = s.map bare) (id : Handle e) :
    (t.get? id).map f = (s.get? id).map f := by
  have found := congrArg (fun t => (t.get? id).map f) h
  simpa only [Table.get?_map, Option.map_map, Function.comp_def, same] using found

/-- Other metadata is no other declaration. -/
theorem Returned.declaration (h : c.Returned d) (t : Target) :
    d.declaration? t = c.declaration? t := by
  cases t with
  | module id => exact map_bare Module.bare (fun _ => rfl) h.modules id
  | generator id => exact map_bare Generator.bare (fun _ => rfl) h.generators id

end Design

/-! ## Definitions that are built on -/

namespace Definition

/-- Everything that a definition names: the module that it is for, and its targets. -/
def targets (x : Definition) : List Target :=
  .module x.owner :: x.instances.values.map (·.target)

/-- Whether a definition is for the same module and has all instances of another one, with
the same targets and the same arguments. -/
structure Extends (x y : Definition) : Prop where
  owner : y.owner = x.owner
  instances : ∀ e ∈ x.instances.toList, ∃ i, (e.1, i) ∈ y.instances.toList ∧
    i.target = e.2.target ∧ i.config = e.2.config ∧ i.genargs = e.2.genargs

variable {x y z : Definition} {d d' : Design}

theorem Extends.refl (x : Definition) : x.Extends x :=
  ⟨rfl, fun e he => ⟨e.2, he, rfl, rfl, rfl⟩⟩

theorem Extends.trans (h : x.Extends y) (k : y.Extends z) : x.Extends z := by
  refine ⟨k.owner.trans h.owner, fun e he => ?_⟩
  obtain ⟨i, hi, target, config, genargs⟩ := h.instances e he
  obtain ⟨j, hj, target', config', genargs'⟩ := k.instances _ hi
  exact ⟨j, hj, target'.trans target, config'.trans config, genargs'.trans genargs⟩

theorem Extends.targets (h : x.Extends y) {t : Target} (ht : t ∈ x.targets) : t ∈ y.targets := by
  rcases List.mem_cons.1 ht with rfl | ht
  · exact h.owner ▸ List.mem_cons_self
  · obtain ⟨i, hi, rfl⟩ := List.mem_map.1 ht
    obtain ⟨e, he, rfl⟩ := List.mem_map.1 hi
    obtain ⟨j, hj, target, -⟩ := h.instances e he
    exact List.mem_cons_of_mem _ (List.mem_map.2 ⟨j, List.mem_map_of_mem hj, target⟩)

/-- A restore that leaves everything that a definition names leaves each of its targets. -/
theorem within_of_mem_targets {s : Snapshot} (within : x.within s = true) {t : Target}
    (ht : t ∈ x.targets) : t.within s = true := by
  simp only [Definition.within, Bool.and_eq_true, List.all_eq_true] at within
  rcases List.mem_cons.1 ht with rfl | ht
  · exact within.1
  · obtain ⟨i, hi, rfl⟩ := List.mem_map.1 ht
    have all := within.2 i hi
    simp only [Instance.within, Bool.and_eq_true] at all
    exact all.1.1

/-- Everything that a sound definition names is declared. -/
theorem Sound.declared (h : x.Sound d) {t : Target} (ht : t ∈ x.targets) :
    (d.declaration? t).isSome := by
  have declared : (d.configParams? t).isSome → (d.declaration? t).isSome := by
    cases t <;> simp only [Design.configParams?, Design.declaration?, Option.isSome_map, imp_self]
  rcases List.mem_cons.1 ht with rfl | ht
  · exact Option.isSome_map.trans h.owner
  · obtain ⟨i, hi, rfl⟩ := List.mem_map.1 ht
    obtain ⟨e, he, rfl⟩ := List.mem_map.1 hi
    obtain ⟨params, found, -⟩ := (h.instance_sound e he).fits
    exact declared (Option.isSome_of_eq_some found)

theorem extends_append (x : Definition) (i : Instance) :
    x.Extends { x with instances := x.instances.append i.name i } := by
  refine ⟨rfl, fun e he => ⟨e.2, ?_, rfl, rfl, rfl⟩⟩
  rw [NameMap.toList_append]
  exact List.mem_append_left _ he

theorem extends_addInstance {name : String} {id : ModuleId} {config : Args} {i : Instance}
    (ok : x.addInstance name id config d = .ok (y, i) d') : x.Extends y := by
  obtain ⟨-, -, -, -, -, rfl⟩ := addInstance_eq_ok ok
  exact extends_append x i

theorem extends_addGeneratorInstance {name : String} {id : GeneratorId} {genargs config : Args}
    {i : Instance} (ok : x.addGeneratorInstance name id genargs config d = .ok (y, i) d') :
    x.Extends y := by
  obtain ⟨-, -, -, -, -, rfl⟩ := addGeneratorInstance_eq_ok ok
  exact extends_append x i

theorem extends_annotate (consistent : x.instances.Consistent) (name : Name)
    (metadata : Metadata) : x.Extends (x.annotate name metadata) := by
  refine ⟨rfl, fun e he => ?_⟩
  rw [annotate, consistent.toList_modify]
  by_cases here : e.1 = name
  · exact ⟨{ e.2 with metadata }, List.mem_map.2 ⟨e, he, if_pos here⟩, rfl, rfl, rfl⟩
  · exact ⟨e.2, List.mem_map.2 ⟨e, he, if_neg here⟩, rfl, rfl, rfl⟩

end Definition

/-- A definition is attached to the module that has its number. -/
theorem Edit.definition_of_attach {x : Definition} {d d' : Design}
    (h : attach x d = .ok () d') :
    ∃ m, d'.modules.get? x.owner = some m ∧ m.definition = some x := by
  rw [attach_apply] at h
  cases hm : d.modules.get? x.owner with
  | none => rw [hm] at h; cases h
  | some m =>
    rw [hm] at h
    dsimp only at h
    split at h
    · cases h
    · cases h
      refine ⟨{ m with definition := some x }, ?_, rfl⟩
      rw [Design.define, Table.get?_modify, if_pos rfl, hm]
      rfl

/-! ## Calls -/

namespace Session

variable {s : Session} {k : Nat} {draft : Draft}

/-- Whether a call restores no point but one with this property. -/
def Restores (s : Session) (P : Snapshot → Prop) : Call → Prop
  | .restore k => ∀ p, s.points[k]? = some p → P p.snapshot
  | _ => True

theorem Restores.imp {P Q : Snapshot → Prop} {c : Call} (h : s.Restores P c)
    (imp : ∀ n, P n → Q n) : s.Restores Q c := by
  cases c with
  | restore k => exact fun p hp => imp _ (h p hp)
  | _ => trivial

/-! ### The design -/

/-- Whatever is not taken away by a restore stays declared as it is. -/
theorem declaration_step (h : s.Sound) {c : Call} (careful : s.Careful c) {t : Target}
    (declared : (s.design.declaration? t).isSome)
    (left : s.Restores (fun p => t.within p = true) c) :
    (s.step c).design.declaration? t = s.design.declaration? t := by
  have inPlace : c.writesInPlace = false := by
    cases c with
    | writeModule | writeGenerator => exact careful.elim
    | _ => rfl
  obtain ⟨x, declared⟩ := Option.isSome_iff_exists.1 declared
  rcases step_cases h.design.toRegular inPlace with ⟨-, -, built | same⟩ | rfl | ⟨k, rfl⟩
  · rw [built.grows.declaration declared, declared]
  · exact same.declaration t
  · rfl
  · obtain ⟨p, hp, valid⟩ := careful
    obtain ⟨c, hc, extent, grows, -⟩ := h.points.point hp valid
    have within := left p hp
    rw [extent] at within
    have restored := Design.restore_snapshot hc.toRegular h.design.toRegular grows
    simp only [step, Session.restore, hp, extent, restored]
    exact grows.declaration_within within

/-! ### The drafts -/

/-- What a call does to the draft at a place: it stays there. If it is current after the call,
it was before, it has what it had, and the call takes nothing away that it names. -/
structure Continues (s : Session) (c : Call) (k : Nat) (draft draft' : Draft) : Prop where
  there : (s.step c).drafts[k]? = some draft'
  current : draft'.current = true → draft.current = true ∧
    draft.definition.Extends draft'.definition ∧
    s.Restores (fun p => draft.definition.within p = true) c

variable {c : Call}

theorem Continues.of_drafts_eq (hk : s.drafts[k]? = some draft)
    (same : (s.step c).drafts = s.drafts)
    (left : s.Restores (fun p => draft.definition.within p = true) c) :
    s.Continues c k draft draft :=
  ⟨by rw [same, hk], fun current => ⟨current, .refl _, left⟩⟩

theorem exists_continues_build (hk : s.drafts[k]? = some draft) {j : Nat} {α : Type}
    {step : Definition → Edit GraphError (Definition × α)} (stepped : s.step c = s.build j step)
    (left : s.Restores (fun p => draft.definition.within p = true) c)
    (extended : ∀ {x y a d'}, step x s.design = .ok (y, a) d' → x.Extends y) :
    ∃ draft', s.Continues c k draft draft' := by
  unfold build at stepped
  split at stepped
  · exact ⟨draft, .of_drafts_eq hk (by rw [stepped]) left⟩
  · rename_i old hj
    split at stepped
    · rename_i y a d' ran
      by_cases here : j = k
      · subst here
        cases hj.symm.trans hk
        have lt := (List.getElem?_eq_some_iff.1 hk).1
        exact ⟨{ draft with definition := y },
          by rw [stepped]; exact List.getElem?_set_self lt,
          fun current => ⟨current, extended ran, left⟩⟩
      · exact ⟨draft, by rw [stepped, ← hk]; exact List.getElem?_set_ne here,
          fun current => ⟨current, .refl _, left⟩⟩
    · exact ⟨draft, .of_drafts_eq hk (by rw [stepped]) left⟩

theorem exists_continues_write (hk : s.drafts[k]? = some draft) {j : Nat}
    {f : Definition → Definition} (stepped : s.step c = s.write j f)
    (left : s.Restores (fun p => draft.definition.within p = true) c)
    (extended : draft.current = true → draft.definition.Extends (f draft.definition)) :
    ∃ draft', s.Continues c k draft draft' := by
  have there : (s.step c).drafts[k]? = some (if j = k then
      { draft with definition := f draft.definition } else draft) := by
    rw [stepped, write, List.getElem?_modify, hk]
    rfl
  by_cases here : j = k
  · rw [if_pos here] at there
    exact ⟨_, there, fun current => ⟨current, extended current, left⟩⟩
  · rw [if_neg here] at there
    exact ⟨_, there, fun current => ⟨current, .refl _, left⟩⟩

/-- Every careful call continues every draft. -/
theorem exists_continues (h : s.Sound) (careful : s.Careful c) (hk : s.drafts[k]? = some draft) :
    ∃ draft', s.Continues c k draft draft' := by
  cases c with
  | intern | array | record | readType | readParams | readArgs | openNamespace | declareModule
  | declareGenerator | annotateModule | annotateGenerator | load | snapshot =>
    exact ⟨draft, .of_drafts_eq hk rfl trivial⟩
  | writeModule | writeGenerator | writeDraft => exact careful.elim
  | newDraft owner =>
    refine ⟨draft, ?_, fun current => ⟨current, .refl _, trivial⟩⟩
    exact (List.getElem?_append_left (List.getElem?_eq_some_iff.1 hk).1).trans hk
  | addInstance j name id config =>
    exact exists_continues_build hk rfl trivial
      Definition.extends_addInstance
  | addGeneratorInstance j name id genargs config =>
    exact exists_continues_build hk rfl trivial
      Definition.extends_addGeneratorInstance
  | connect j a b metadata =>
    have stepped : s.step (.connect j a b metadata) =
        s.build j fun x => Edit.check fun d => x.connect d a b metadata := rfl
    refine exists_continues_build hk stepped trivial fun {x y l d'} ran => ?_
    rw [Edit.check_apply] at ran
    split at ran <;> cases ran
    obtain ⟨-, -, rfl⟩ := Definition.connect_eq_ok ‹_›
    exact ⟨rfl, (Definition.Extends.refl x).instances⟩
  | annotateInstance j name metadata =>
    have stepped : s.step (.annotateInstance j name metadata) =
        s.write j (·.annotate name metadata) := rfl
    refine exists_continues_write hk stepped trivial fun current => ?_
    have sound := h.drafts draft (List.mem_of_getElem? hk) current
    exact Definition.extends_annotate sound.instances.consistent name metadata
  | annotateConnection j i metadata =>
    have stepped : s.step (.annotateConnection j i metadata) =
        s.write j (·.annotateConnection i metadata) := rfl
    exact exists_continues_write hk stepped trivial fun _ =>
      ⟨rfl, (Definition.Extends.refl draft.definition).instances⟩
  | annotateDraft j implementations metadata =>
    have stepped : s.step (.annotateDraft j implementations metadata) =
        s.write j fun x => { x with implementations, metadata } := rfl
    exact exists_continues_write hk stepped trivial fun _ =>
      ⟨rfl, (Definition.Extends.refl draft.definition).instances⟩
  | attach j =>
    refine ⟨draft, .of_drafts_eq hk ?_ trivial⟩
    simp only [step]
    split <;> rfl
  | restore j =>
    obtain ⟨p, hp, valid⟩ := careful
    refine ⟨{ draft with current := draft.current && draft.definition.within p.snapshot }, ?_,
      fun current => ?_⟩
    · simp only [step, Session.restore, hp, List.getElem?_map, hk]
      rfl
    · rw [Bool.and_eq_true] at current
      obtain ⟨current, within⟩ := current
      refine ⟨current, .refl _, fun q hq => ?_⟩
      cases hp.symm.trans hq
      exact within

/-! ### Runs -/

/-- A current draft continues through every run, and nothing that it names is declared anew on
the way. -/
theorem exists_continues_run (h : s.Sound) {calls : List Call}
    (careful : Admitted Careful s calls) (hk : s.drafts[k]? = some draft) :
    ∃ draft', (s.run calls).drafts[k]? = some draft' ∧ (draft'.current = true →
      draft.current = true ∧ draft.definition.Extends draft'.definition ∧
      ∀ t ∈ draft.definition.targets, ∀ n,
        (s.run (calls.take n)).design.declaration? t = s.design.declaration? t) := by
  induction calls generalizing s draft with
  | nil =>
    refine ⟨draft, hk, fun current => ⟨current, .refl _, fun t _ n => ?_⟩⟩
    rw [List.take_nil]
    rfl
  | cons c rest ih =>
    obtain ⟨next, continues⟩ := exists_continues h careful.1 hk
    obtain ⟨draft', there, kept⟩ := ih (h.step careful.1) careful.2 continues.there
    refine ⟨draft', there, fun current => ?_⟩
    obtain ⟨current, later, kept⟩ := kept current
    obtain ⟨current, now, left⟩ := continues.current current
    have sound := h.drafts draft (List.mem_of_getElem? hk) current
    refine ⟨current, now.trans later, fun t ht n => ?_⟩
    cases n with
    | zero => rfl
    | succ n =>
      exact (kept t (now.targets ht) n).trans (declaration_step h careful.1 (sound.declared ht)
        (left.imp fun _ within => Definition.within_of_mem_targets within ht))

theorem Admitted.careful {calls : List Call} (h : Admitted Live s calls) :
    Admitted Careful s calls := by
  induction calls generalizing s with
  | nil => trivial
  | cons c rest ih => exact ⟨h.1.careful, ih h.2⟩

/-- Whatever a current draft names was declared when it was named, and is declared as it was
then, in every session since. So the draft is attached to the module that it was created for,
and its instances fit their targets. -/
theorem current_draft_is_not_stale (reached : s.Reachable Careful)
    (there : s.drafts[k]? = some draft) {calls : List Call}
    (careful : Admitted Careful s calls) :
    ∃ draft', (s.run calls).drafts[k]? = some draft' ∧ (draft'.current = true →
      draft.definition.Extends draft'.definition ∧
      (∀ t ∈ draft.definition.targets, (s.design.declaration? t).isSome ∧ ∀ n,
        (s.run (calls.take n)).design.declaration? t = s.design.declaration? t) ∧
      ∀ d', Edit.attach draft'.definition (s.run calls).design = .ok () d' →
        (∃ m, d'.modules.get? draft.definition.owner = some m ∧
          m.definition = some draft'.definition) ∧
        ∀ e ∈ draft'.definition.instances.toList, e.2.Sound d') := by
  have sound := reached.sound_of_careful
  obtain ⟨draft', there', kept⟩ := exists_continues_run sound careful there
  refine ⟨draft', there', fun current' => ?_⟩
  obtain ⟨current, extended, kept⟩ := kept current'
  have named := sound.drafts draft (List.mem_of_getElem? there) current
  refine ⟨extended, fun t ht => ⟨named.declared ht, kept t ht⟩, fun d' attached => ?_⟩
  have sound' := (reached.run careful).sound_of_careful
  have fits := (sound'.drafts draft' (List.mem_of_getElem? there') current')
  have grows := Edit.OnlyGrows.grows (.attach draft'.definition) (s.run calls).design
  rw [Edit.left_of_ok attached] at grows
  exact ⟨extended.owner ▸ Edit.definition_of_attach attached,
    (fits.keep grows.keeps).instance_sound⟩

/-- A definition with an instance, which is current. -/
def sessionWithDraft : Session := start.run [
  .openNamespace "lib", .intern "a",
  .declareModule ⟨0⟩ "leaf" TypeTable.bitInId [(⟨2⟩, .int)],
  .declareModule ⟨0⟩ "main" TypeTable.anyId [],
  .newDraft ⟨1⟩, .addInstance 0 "i" ⟨0⟩ [(⟨2⟩, .int 1)]]

/-- A restore that takes away nothing that the definition names. -/
def callsBesideDraft : List Call :=
  [.snapshot, .declareModule ⟨0⟩ "spare" TypeTable.anyId [], .restore 0]

theorem draft_outlives_restore : ∃ draft draft' d',
    sessionWithDraft.drafts[0]? = some draft ∧
    (sessionWithDraft.run callsBesideDraft).drafts[0]? = some draft' ∧
    Edit.attach draft'.definition (sessionWithDraft.run callsBesideDraft).design = .ok () d' ∧
    draft.definition.targets = [.module ⟨1⟩, .module ⟨0⟩] ∧
    (∀ t ∈ draft.definition.targets, (sessionWithDraft.run callsBesideDraft).design.declaration? t =
      sessionWithDraft.design.declaration? t) ∧
    ∀ e ∈ draft'.definition.instances.toList, e.2.Sound d' := by
  have reached : sessionWithDraft.Reachable Live := .run .start (by decide +kernel)
  have named : sessionWithDraft.drafts[0]?.map (·.definition.targets) =
      some [.module ⟨1⟩, .module ⟨0⟩] := by decide +kernel
  obtain ⟨draft, there, targets⟩ := Option.map_eq_some_iff.1 named
  have live : Admitted Live sessionWithDraft callsBesideDraft := by decide +kernel
  obtain ⟨draft', there', kept⟩ := current_draft_is_not_stale reached.careful there live.careful
  have computed : ((sessionWithDraft.run callsBesideDraft).drafts[0]?.bind fun draft =>
      (Edit.answer? (Edit.attach draft.definition
        (sessionWithDraft.run callsBesideDraft).design)).map fun _ => draft.current) =
      some true := by decide +kernel
  obtain ⟨draft'', same, attached⟩ := Option.bind_eq_some_iff.1 computed
  cases there'.symm.trans same
  obtain ⟨⟨⟨⟩, d'⟩, attached, current⟩ := Option.map_eq_some_iff.1 attached
  have attached := Edit.answer?_eq_some_iff.1 attached
  obtain ⟨-, kept, fits⟩ := kept current
  exact ⟨draft, draft', d', there, there', attached, targets, fun t ht => (kept t ht).2 3,
    (fits d' attached).2⟩

/-- A definition for `lib.main` with an instance of `lib.leaf`, from before a restore. Two other
modules get the numbers of these two after it. -/
def callsWithReusedNumbers : List Call := [
  .openNamespace "lib", .intern "a", .intern "b", .snapshot,
  .declareModule ⟨0⟩ "leaf" TypeTable.bitInId [(⟨2⟩, .int)],
  .declareModule ⟨0⟩ "main" TypeTable.anyId [],
  .newDraft ⟨1⟩, .addInstance 0 "i" ⟨0⟩ [(⟨2⟩, .int 1)], .restore 0,
  .declareModule ⟨0⟩ "wide" TypeTable.bitInId [(⟨3⟩, .string)],
  .declareModule ⟨0⟩ "other" TypeTable.anyId []]

def sessionWithReusedNumbers : Session := start.run callsWithReusedNumbers

/-- The stale draft is attached to the other module, and its instance does not fit. -/
theorem stale_draft_is_attached : sessionWithReusedNumbers.Reachable Live ∧
    ∃ draft d', sessionWithReusedNumbers.drafts[0]? = some draft ∧
      Edit.attach draft.definition sessionWithReusedNumbers.design = .ok () d' ∧
      d'.symbolText? (.module draft.definition.owner) = some ("lib", "other") ∧
      ∃ e ∈ draft.definition.instances.toList, ∃ params,
        d'.configParams? e.2.target = some params ∧ ¬ params.Fits e.2.config := by
  refine ⟨.run .start (by decide +kernel), ?_⟩
  have computed : (sessionWithReusedNumbers.drafts[0]?.bind fun draft =>
      (Edit.answer? (Edit.attach draft.definition sessionWithReusedNumbers.design)).map fun r =>
        (r.2.symbolText? (.module draft.definition.owner),
          draft.definition.instances.toList.any fun e =>
            (r.2.configParams? e.2.target).any fun params =>
              (params.mismatch? e.2.config).isSome)) =
      some (some ("lib", "other"), true) := by decide +kernel
  obtain ⟨draft, there, attached⟩ := Option.bind_eq_some_iff.1 computed
  obtain ⟨⟨⟨⟩, d'⟩, attached, same⟩ := Option.map_eq_some_iff.1 attached
  obtain ⟨symbol, mismatch⟩ := Prod.mk.inj same
  obtain ⟨e, he, mismatch⟩ := List.any_eq_true.1 mismatch
  refine ⟨draft, d', there, Edit.answer?_eq_some_iff.1 attached, symbol, e, he, ?_⟩
  cases found : d'.configParams? e.2.target with
  | none =>
    rw [found] at mismatch
    cases mismatch
  | some params =>
    rw [found] at mismatch
    exact ⟨params, rfl, fun fits => by rw [Option.any_some, fits] at mismatch; cases mismatch⟩

end Session

end Netlist
