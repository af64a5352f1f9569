-- What is saved of a sound design is well-formed, also if generators are instantiated.
import Netlist.Proofs.Saved.Designs
import Netlist.Proofs.Saved.WellFormed

namespace Netlist.Design.Sound

open Outline

variable {d : Design}

theorem wellFormed_argsToJson (hd : d.Sound) {args : Args} (h : Args.Sound d args)
    {as : List (String × ArgTree)} (outline : d.outlineArgs? args = some as) :
    (argsToJson as).WellFormed := by
  refine wellFormed_entriesToJson ((hd.nodup_keys_iff outline).1 h.consistent.nodup) ?_
  intro e he
  obtain ⟨a, ha, -, tree⟩ := exists_of_forall₂ (outlineEntries_eq_some_iff.1 outline).flip he
  exact (hd.argTree_sound (h.values a ha) tree).2.wellFormed

theorem wellFormed_outlineInstance (hd : d.Sound) {i : Netlist.Instance} (h : i.Sound d)
    {o : Outline.Instance} (outline : d.outlineInstance? i = some o) : o.toJson.WellFormed := by
  obtain ⟨kind, target, genargs, config, metadata⟩ := outlineInstance_eq_some_iff.1 outline
  refine @Members.wellFormed _ ["instref", "genargs", "config", "metadata"] ?_ (by decide)
  refine .cons (member_some (Json.wellFormed_strings [_, _])) (.cons (member_map ?_)
    (.cons (member_unlessEmpty (hd.wellFormed_argsToJson h.config config))
      (.cons (member_unlessEmpty (metadata ▸ h.metadata)) .nil)))
  intro args given
  have generated := h.genargs
  cases hi : i.genargs with
  | none =>
    rw [hi] at genargs
    rw [← Option.some.inj genargs] at given
    cases given
  | some gs =>
    rw [hi] at genargs generated
    obtain ⟨args', outline, same⟩ := Option.map_eq_some_iff.1 genargs
    cases same.trans given
    cases ht : i.target with
    | module id => rw [ht] at generated; cases generated
    | generator id =>
      rw [ht] at generated
      exact hd.wellFormed_argsToJson generated.1 outline

theorem wellFormed_outlineDefinition (hd : d.Sound) {x : Netlist.Definition} (h : x.Sound d)
    {o : Outline.Definition} (outline : d.outlineDefinition? x = some o) :
    o.toJson.WellFormed := by
  have instances := Document.outline_instances h outline
  obtain ⟨-, connections, implementations, metadata⟩ := outlineDefinition_eq_some_iff.1 outline
  refine @Members.wellFormed _ ["instances", "connections", "implementations", "metadata"] ?_
    (by decide)
  refine .cons (member_unlessEmpty (wellFormed_entriesToJson ?_ ?_)) (.cons
    (member_unlessEmpty (Json.wellFormed_array_iff.2 ?_))
    (.cons (member_unlessEmpty (implementations ▸ h.implementations))
      (.cons (member_unlessEmpty (metadata ▸ h.metadata)) .nil)))
  · exact (hd.nodup_keys_iff instances).1 h.instances.consistent.nodup
  · intro e he
    obtain ⟨i, hi, -, outline⟩ := exists_of_forall₂ (outlineEntries_eq_some_iff.1 instances).flip he
    exact hd.wellFormed_outlineInstance (h.instance_sound i hi) outline
  · intro v hv
    obtain ⟨k, hk, rfl⟩ := List.mem_map.1 hv
    obtain ⟨c, hc, outline⟩ := exists_of_forall₂ connections.flip hk
    obtain ⟨-, -, same⟩ := outlineConnection_eq_some_iff.1 outline
    exact wellFormed_connection (same ▸ h.connection_metadata c hc)

theorem wellFormed_outlineModule (hd : d.Sound) {id : ModuleId} {o : Outline.Module}
    (outline : d.outlineModule? id = some o) : o.toJson.WellFormed := by
  obtain ⟨m, hm, type, params, metadata, body⟩ := outlineModule_eq_some_iff.1 outline
  have sound := hd.moduleSound hm
  refine @Members.wellFormed _ ["type", "configparams", "metadata", "def"] ?_ (by decide)
  refine .cons (member_some (hd.typeTree_sound type).wellFormed) (.cons
    (member_unlessEmpty (wellFormed_paramsToJson (hd.nodup_outlineParams sound.params params)))
    (.cons (member_unlessEmpty (metadata ▸ sound.metadata)) (.cons (member_map ?_) .nil)))
  intro r hr
  obtain ⟨x, hx, outline⟩ := outlineBody_eq_some_iff.1 (hr ▸ body)
  exact hd.wellFormed_outlineDefinition (sound.definition x hx).2 outline

end Netlist.Design.Sound
