-- A load that fails cannot be observed afterwards. The strings that it met stay behind, so later
-- strings get other numbers than they would have got. But no answer to a request depends on
-- these numbers, so nobody can tell whether there was such a load.
import Netlist.Proofs.FailedLoad
import Netlist.Proofs.Twins.Requests

namespace Netlist

/-! ## A sound design is its own twin -/

section

variable {d : Design}

theorem takes_of_text {n : Name} (h : (d.text? n).isSome) : (d.spelled d).takes n n := by
  obtain ⟨s, hs⟩ := Option.isSome_iff_exists.1 h
  exact ⟨s, hs, hs⟩

/-- Entries whose names have texts are taken for themselves. -/
theorem NameMap.Sound.twin {α : Type} {m : NameMap α} (h : NameMap.Sound d m) {R : α → α → Prop}
    (values : ∀ e ∈ m.toList, R e.2 e.2) : (d.spelled d).SameMap R m m :=
  ⟨h.consistent, h.consistent,
    List.forall₂_same.2 fun e he => ⟨takes_of_text (h.named e he), values e he⟩⟩

theorem Args.Sound.twin {args : Args} (h : args.Sound d) : (d.spelled d).TwinArgs args args := by
  refine NameMap.Sound.twin h.toSound fun e _ => ?_
  cases e.2 with
  | int i => exact .int i
  | string s => exact .string s
  | type id => exact .type rfl

theorem Instance.Sound.twin {i : Instance} (h : i.Sound d) (name : (d.text? i.name).isSome) :
    (d.spelled d).SameInstance i i where
  name := takes_of_text name
  target := Design.Twins.sameTarget i.target
  config := h.config.twin.entries
  genargs := by
    have generated := h.genargs
    cases hargs : i.genargs with
    | none => exact .none
    | some args =>
      cases htarget : i.target with
      | module id =>
        rw [htarget, hargs] at generated
        cases generated
      | generator id =>
        rw [htarget, hargs] at generated
        exact .some generated.1.twin.entries
  metadata := rfl

theorem Definition.Sound.twin {x : Definition} (h : x.Sound d) :
    (d.spelled d).TwinDefinition x x := by
  have map : (d.spelled d).SameMap (d.spelled d).SameInstance x.instances x.instances := by
    refine h.instances.twin fun e he => (h.instance_sound e he).twin ?_
    rw [(h.instance_name e he).1]
    exact h.instances.named e he
  have path : ∀ {p : WirePath}, x.SoundEnd d p → (d.spelled d).SamePath p p := fun sound =>
    List.forall₂_same.2 fun n hn => takes_of_text (sound.named n hn)
  exact
    { owner := rfl
      instances := map.entries
      connections := List.forall₂_same.2 fun c hc =>
        ⟨path (h.ends c hc).1, path (h.ends c hc).2, rfl⟩
      implementations := rfl
      metadata := rfl
      instances_map := map }

end

namespace Design

variable {d : Design}

theorem Sound.sameType (h : d.Sound) {id : TypeId} {w : WireType} (hw : d.types.get? id = some w) :
    (d.spelled d).SameType w w := by
  have sound := h.typeSound hw
  cases w with
  | any => exact .any
  | bitIn => exact .bitIn
  | bitOut => exact .bitOut
  | array element length => exact .array rfl length
  | record fields =>
    exact .record (List.forall₂_same.2 fun f hf => ⟨takes_of_text (sound.2 f hf).1, rfl⟩)

theorem Sound.twinNamespace (h : d.Sound) {id : NamespaceId} {ns : Namespace}
    (hns : d.namespaces.get? id = some ns) : (d.spelled d).TwinNamespace ns ns := by
  have sound := h.namespaceSound hns
  have modules : NameMap.Sound d ns.modules := ⟨h.modules hns, fun e he => by
    obtain ⟨m, hm, name, -⟩ := sound.modules e he
    exact name ▸ (h.moduleSound hm).name⟩
  have generators : NameMap.Sound d ns.generators := ⟨h.generators hns, fun e he => by
    obtain ⟨g, hg, name, -⟩ := sound.generators e he
    exact name ▸ (h.generatorSound hg).name⟩
  have modules_map := modules.twin (R := Eq) fun _ _ => rfl
  have generators_map := generators.twin (R := Eq) fun _ _ => rfl
  exact
    { id := rfl
      name := takes_of_text sound.name
      modules := modules_map.entries
      generators := generators_map.entries
      modules_map
      generators_map }

theorem Sound.twinModule (h : d.Sound) {id : ModuleId} {m : Module}
    (hm : d.modules.get? id = some m) : (d.spelled d).TwinModule m m := by
  have sound := h.moduleSound hm
  have params_map := sound.params.twin (R := Eq) fun _ _ => rfl
  exact
    { id := rfl
      name := takes_of_text sound.name
      scope := rfl
      type := rfl
      params := params_map.entries
      metadata := rfl
      definition := by
        cases hx : m.definition with
        | none => exact .none
        | some x => exact .some (sound.definition x hx).2.twin.toSameDefinition
      params_map }

theorem Sound.twinGenerator (h : d.Sound) {id : GeneratorId} {g : Generator}
    (hg : d.generators.get? id = some g) : (d.spelled d).TwinGenerator g g := by
  have sound := h.generatorSound hg
  have genparams_map := sound.genparams.twin (R := Eq) fun _ _ => rfl
  have params_map := sound.params.twin (R := Eq) fun _ _ => rfl
  exact
    { id := rfl
      name := takes_of_text sound.name
      scope := rfl
      genparams := genparams_map.entries
      params := params_map.entries
      metadata := rfl
      genparams_map
      params_map }

/-- What a handle stands for, if anything, is taken for itself. -/
theorem rel_self {α : Type} {R : α → α → Prop} {x : Option α} (h : ∀ a, x = some a → R a a) :
    Option.Rel R x x := by
  cases x with
  | none => exact .none
  | some a => exact .some (h a rfl)

theorem Sound.twins (h : d.Sound) : d.Twins d where
  left := h.toRegular
  right := h.toRegular
  self := ⟨selfWord, h.self, h.self⟩
  types _ := rel_self fun _ hw => h.sameType hw
  namespaces _ := rel_self fun _ hns => h.twinNamespace hns
  modules _ := rel_self fun _ hm => h.twinModule hm
  generators _ := rel_self fun _ hg => h.twinGenerator hg

end Design

/-! ## Sessions after a load that failed -/

namespace Session

variable {s : Session}

/-- The desk at which a session goes on: its design, the definitions that are current, and all
restore points. -/
def desk (s : Session) (log : Diagnostic.Log) : Desk :=
  ⟨s.design, log, (s.drafts.filter (·.current)).map (·.definition), s.points.map (·.snapshot)⟩

/-- More names leave the desk of a session a twin of what it was. -/
theorem Sound.twins_desk (h : s.Sound) {names : NameTable} (consistent : names.Consistent)
    (kept : ∀ {n t}, s.design.text? n = some t → names.get? n = some t) (log : Diagnostic.Log) :
    { s.desk log with design := { s.design with names } }.Twins (s.desk log) := by
  have more : s.design.spelled s.design ≤ .spelled names s.design.names :=
    Renaming.spelled_le kept id
  have drafts : ∀ x ∈ (s.drafts.filter (·.current)).map (·.definition), x.Sound s.design := by
    intro x hx
    obtain ⟨draft, current, rfl⟩ := List.mem_map.1 hx
    obtain ⟨mem, current⟩ := List.mem_filter.1 current
    exact h.drafts draft mem current
  exact
    { design := h.design.twins.withNames consistent h.design.names more
      log := rfl
      drafts := List.forall₂_same.2 fun x hx => (drafts x hx).twin.mono more
      points := rfl }

/-- However a session goes on, a load that failed makes no difference to any answer. -/
theorem failed_load_unobservable (reached : s.Reachable Careful) {strict : Bool} {doc : Json}
    {log log' : Diagnostic.Log} {e : LoadError} {d' : Design}
    (failed : Document.loadReporting strict doc (s.design, log) = .error (.error e) (d', log'))
    (requests : List Request) :
    { s.desk log' with design := d' }.answers requests = (s.desk log).answers requests := by
  have sound := reached.sound_of_careful
  obtain ⟨load, rfl⟩ := Document.loadReporting_error failed
  obtain ⟨same, kept⟩ := Document.load_error sound.design.toRegular load
  have regular := Document.regular_load sound.design.toRegular strict doc
  rw [Edit.left_of_error load] at regular
  have twins := sound.twins_desk regular.names kept log'
  rw [← same] at twins
  exact Desk.Twins.answers requests twins

open Document in
/-- Requests with strings that only the load of `documentWithoutTop` has met before. -/
def requestsAfterLoad : List Request :=
  [.readArgs [("width", .int)] (.object [("width", .int 8), ("depth", .int 2)]) "config" false,
    .symbol ⟨0⟩ "wrap", .openNamespace "new", .declareModule ⟨1⟩ "r" TypeTable.bitInId [],
    .load false documentWithoutTop, .document ⟨1⟩]

open Document in
theorem failed_load_unobservable_with_register : ∃ e d' log',
    loadReporting false documentWithoutTop (sessionWithRegister.design, .empty) =
        .error (.error e) (d', log') ∧
      sessionWithRegister.design.names.size < d'.names.size ∧
      { sessionWithRegister.desk log' with design := d' }.answers requestsAfterLoad =
        (sessionWithRegister.desk .empty).answers requestsAfterLoad := by
  have reached : sessionWithRegister.Reachable Live := .run .start (by decide +kernel)
  have failed : Edit.refusal? (loadReporting false documentWithoutTop
      (sessionWithRegister.design, .empty)) = some (.symbol "Missing Symbol: lib.nowhere") := by
    decide +kernel
  have grown : sessionWithRegister.design.names.size <
      ((load false documentWithoutTop).left sessionWithRegister.design).names.size := by
    decide +kernel
  obtain ⟨⟨d', log'⟩, h⟩ := Edit.refusal?_eq_some_iff.1 failed
  rw [Edit.left_of_error (loadReporting_error h).1] at grown
  exact ⟨_, d', log', h, grown, failed_load_unobservable reached.careful h requestsAfterLoad⟩

end Session

end Netlist
