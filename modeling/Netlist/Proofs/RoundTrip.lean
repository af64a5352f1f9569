-- Saving and loading: the document of a design loads into an empty design without a warning,
-- strictly or not. What comes out has the same outline, except that every instance lists its
-- arguments in the order of the parameters, and so it has the same document if they were in
-- this order before.
import Netlist.Proofs.Live
import Netlist.Proofs.Nodes.Strictness
import Netlist.Proofs.Saved.Designs
import Netlist.Proofs.Saved.Nodes
import Netlist.Proofs.Saved.WellFormed

namespace Netlist

theorem Design.outlineNamespaces_empty : Design.empty.outlineNamespaces? = some [] := rfl

namespace Document

/-- The document of a sound outline is read as this outline, arranged, without a warning. -/
theorem read_toJson {o : Outline} (sound : o.Sound) (strict : Bool) :
    Plain.read strict o.toJson [] = .ok (o.arrange, []) := by
  obtain ⟨warnings, read⟩ :=
    (Plain.read_eq_ok_iff sound.wellFormed (by exact List.nodup_nil)).2 (sound.node true)
  obtain ⟨rfl, same⟩ := Plain.strictly_read _ _ _ _ read
  cases strict with
  | true => exact read
  | false => exact same

/-- So it loads into an empty design. -/
theorem load_toJson {o : Outline} (sound : o.Sound) (strict : Bool) :
    ∃ top d, load strict o.toJson .empty = .ok (top, []) d ∧ d.Sound ∧
      d.outline? top = some o.arrange := by
  obtain ⟨top, d, loaded, sound', -, outline⟩ := load_of_read_ok Design.sound_empty
    Design.outlineNamespaces_empty sound.wellFormed (read_toJson sound strict)
  exact ⟨top, d, loaded, sound', outline⟩

open Session

/-- The document of a design without instances of generators loads again, and the outline is
the same up to the order of arguments. If they were in order, so is the document. -/
theorem saved_design_loads_again {s : Session} (reached : s.Reachable Live)
    (only : s.design.ModulesOnly) {top : ModuleId} (live : (s.design.modules.get? top).isSome) :
    ∃ o, s.design.outline? top = some o ∧ s.design.document? top = some o.toJson ∧
      o.Alike o.arrange ∧ (o.Arranged → o.arrange = o) ∧
      ∀ strict, ∃ top' d', load strict o.toJson .empty = .ok (top', []) d' ∧
        d'.outline? top' = some o.arrange ∧ d'.document? top' = some o.arrange.toJson := by
  have hd := reached.sound.design
  obtain ⟨o, outline⟩ := hd.exists_outline live
  have sound := hd.outline_sound outline (only.outline outline)
  refine ⟨o, outline, congrArg (Option.map Outline.toJson) outline, sound.alike,
    fun arranged => arranged.arrange_eq sound, fun strict => ?_⟩
  obtain ⟨top', d', loaded, -, outline'⟩ := load_toJson sound strict
  exact ⟨top', d', loaded, outline', congrArg (Option.map Outline.toJson) outline'⟩

/-- A module with two parameters, and an instance that binds the second one first. -/
def callsInOtherOrder : List Call := [
  .openNamespace "lib", .intern "a", .intern "b",
  .declareModule ⟨0⟩ "leaf" TypeTable.bitInId [(⟨2⟩, .int), (⟨3⟩, .int)],
  .declareModule ⟨0⟩ "main" TypeTable.anyId [],
  .newDraft ⟨1⟩, .addInstance 0 "i" ⟨0⟩ [(⟨3⟩, .int 2), (⟨2⟩, .int 1)], .attach 0]

def designInOtherOrder : Design := (start.run callsInOtherOrder).design

theorem other_order_loads_again : ∃ o, designInOtherOrder.outline? ⟨1⟩ = some o ∧
    designInOtherOrder.document? ⟨1⟩ = some o.toJson ∧
    o.Alike o.arrange ∧ (o.Arranged → o.arrange = o) ∧
    ∀ strict, ∃ top' d', load strict o.toJson .empty = .ok (top', []) d' ∧
      d'.outline? top' = some o.arrange ∧ d'.document? top' = some o.arrange.toJson :=
  saved_design_loads_again (.run .start (by decide +kernel)) (by decide +kernel) (by decide +kernel)

/-- The keys of the arguments of the instance in the document. -/
def firstArguments (doc : Json) : List String :=
  let modules := ((doc.entry "namespaces").entry "lib").entry "modules"
  Assoc.keys (((((modules.entry "main").entry "def").entry "instances").entry "i").entry
    "config").entries

/-- The arguments come in the order of the parameters, and so in another document. -/
theorem other_order_is_not_kept : ∃ doc top d doc', designInOtherOrder.document? ⟨1⟩ = some doc ∧
    load true doc .empty = .ok (top, []) d ∧ d.document? top = some doc' ∧ doc' ≠ doc := by
  have computed : ((designInOtherOrder.document? ⟨1⟩).bind fun doc =>
      (Edit.answer? (load true doc .empty)).bind fun r =>
        (r.2.document? r.1.1).map fun doc' =>
          (r.1.2, decide (firstArguments doc' = firstArguments doc))) = some ([], false) := by
    decide +kernel
  obtain ⟨doc, saved, loads⟩ := Option.bind_eq_some_iff.1 computed
  obtain ⟨⟨⟨top, warnings⟩, d⟩, loaded, again⟩ := Option.bind_eq_some_iff.1 loads
  obtain ⟨doc', saved', told⟩ := Option.map_eq_some_iff.1 again
  obtain ⟨rfl, other⟩ := Prod.mk.inj told
  exact ⟨doc, top, d, doc', saved, Edit.answer?_eq_some_iff.1 loaded, saved',
    fun same => of_decide_eq_false other (congrArg firstArguments same)⟩

end Document

end Netlist
