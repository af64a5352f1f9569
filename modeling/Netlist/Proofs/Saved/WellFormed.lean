-- The document of a sound outline is well-formed: no object in it has a key twice, and every
-- integer fits.
import Netlist.Proofs.Saved.Sound

namespace Netlist

/-! ## Objects whose members may be left out -/

/-- Members that have these keys, if they are there, and well-formed values. -/
def Members (ms : List (Option (String × Json))) (keys : List String) : Prop :=
  List.Forall₂ (fun o key => ∀ m ∈ o, m.1 = key ∧ m.2.WellFormed) ms keys

theorem Members.sublist {ms : List (Option (String × Json))} {keys : List String}
    (h : Members ms keys) : ((ms.filterMap id).map (·.1)).Sublist keys := by
  induction h with
  | nil => exact .slnil
  | @cons o key _ _ ho _ ih =>
    cases o with
    | none => exact ih.cons key
    | some m =>
      obtain ⟨rfl, -⟩ := ho m rfl
      exact ih.cons_cons m.1

theorem Members.wellFormed {ms : List (Option (String × Json))} {keys : List String}
    (h : Members ms keys) (nodup : keys.Nodup) : (Json.objectOf ms).WellFormed := by
  refine Json.wellFormed_object_iff.2 ⟨h.sublist.nodup nodup, ?_⟩
  induction h with
  | nil => exact nofun
  | @cons o key _ _ ho _ ih =>
    intro m hm
    obtain ⟨o', listed, there⟩ := List.mem_filterMap.1 hm
    rcases List.mem_cons.1 listed with rfl | listed
    · exact (ho m there).2
    · exact ih (List.nodup_cons.1 nodup).2 m (List.mem_filterMap.2 ⟨o', listed, there⟩)

theorem member_some {key : String} {v : Json} (h : v.WellFormed) :
    ∀ m ∈ some (key, v), m.1 = key ∧ m.2.WellFormed := by
  rintro m ⟨⟩
  exact ⟨rfl, h⟩

theorem member_unlessEmpty {key : String} {empty : Bool} {v : Json} (h : v.WellFormed) :
    ∀ m ∈ Json.unlessEmpty key empty v, m.1 = key ∧ m.2.WellFormed := by
  cases empty with
  | true => exact nofun
  | false => exact member_some h

theorem member_map {α : Type} {key : String} {f : α → Json} {o : Option α}
    (h : ∀ a ∈ o, (f a).WellFormed) :
    ∀ m ∈ o.map fun a => (key, f a), m.1 = key ∧ m.2.WellFormed := by
  cases o with
  | none => exact nofun
  | some a => exact member_some (h a rfl)

/-! ## Values -/

theorem Json.wellFormed_strings (words : List String) :
    (Json.array (words.map .string)).WellFormed := by
  refine Json.wellFormed_array_iff.2 fun v hv => ?_
  obtain ⟨word, -, rfl⟩ := List.mem_map.1 hv
  trivial

theorem Json.wellFormed_int {i : Int} (h : Json.fitsInt64 i = true) : (Json.int i).WellFormed := by
  have bounds := of_decide_eq_true h
  have max : Int64.maxValue.toInt < (UInt64.size : Int) := by decide
  exact ⟨bounds.1, by omega⟩

theorem Json.wellFormed_nat {n : Nat} (h : n < UInt32.size) : (Json.nat n).WellFormed := by
  have min : Int64.minValue.toInt ≤ 0 := by decide
  have max : UInt32.size ≤ UInt64.size := by decide
  exact ⟨by omega, by omega⟩

mutual

theorem TypeTree.Sound.wellFormed : ∀ {t : TypeTree String}, t.Sound → t.toJson.WellFormed
  | .any, _ | .bitIn, _ | .bitOut, _ => trivial
  | .array _ _, h => ⟨trivial, Json.wellFormed_nat h.1, h.2.wellFormed, trivial⟩
  | .record _, h => ⟨trivial, TypeTree.SoundFields.wellFormed h.2, trivial⟩

theorem TypeTree.SoundFields.wellFormed : ∀ {ts : List (String × TypeTree String)},
    TypeTree.SoundFields ts → Json.WellFormedItems (TypeTree.fieldsToJson ts)
  | [], _ => trivial
  | (_, _) :: _, h => ⟨⟨trivial, h.1.wellFormed, trivial⟩, TypeTree.SoundFields.wellFormed h.2⟩

end

theorem ArgTree.Sound.wellFormed {a : ArgTree} (h : a.Sound) : a.toJson.WellFormed := by
  cases a with
  | int i => exact Json.wellFormed_int h
  | string s => trivial
  | type t => exact TypeTree.Sound.wellFormed h

namespace Outline

open Plain

theorem wellFormed_entriesToJson {α : Type} {f : α → Json} {es : List (String × α)}
    (nodup : (Assoc.keys es).Nodup) (h : ∀ e ∈ es, (f e.2).WellFormed) :
    (entriesToJson f es).WellFormed := by
  refine Json.wellFormed_object_iff.2 ⟨?_, fun m hm => ?_⟩
  · rw [List.map_map]
    exact nodup
  · obtain ⟨e, he, rfl⟩ := List.mem_map.1 hm
    exact h e he

theorem wellFormed_paramsToJson {ps : List (String × ParamKind)} (nodup : (Assoc.keys ps).Nodup) :
    (paramsToJson ps).WellFormed :=
  wellFormed_entriesToJson nodup fun _ _ => trivial

/-! ## Parts of an outline -/

section

variable {env : Signatures}

theorem Bound.sound {ps : List (String × ParamKind)} {args : List (String × ArgTree)}
    (h : Bound ps args) : ∀ e ∈ args, e.2.Sound := by
  intro e he
  obtain ⟨p, hp, same⟩ := List.mem_map.1 (h.declared e.1 (List.mem_map_of_mem he))
  obtain ⟨a, ha, -, sound⟩ := h.bound p hp
  rw [same, (Assoc.get?_eq_some_iff h.nodup).2 he] at ha
  cases ha
  exact sound

theorem Instance.Sound.wellFormed {i : Instance} (h : i.Sound env) : i.toJson.WellFormed := by
  obtain ⟨ps, -, bound⟩ := h.binds
  have config := wellFormed_entriesToJson bound.nodup fun e he => (bound.sound e he).wellFormed
  refine @Members.wellFormed _ ["instref", "genargs", "config", "metadata"] ?_ (by decide)
  refine .cons (member_some (Json.wellFormed_strings [_, _])) (.cons ?_
    (.cons (member_unlessEmpty config) (.cons (member_unlessEmpty h.metadata) .nil)))
  rw [h.genargs]
  exact nofun

theorem wellFormed_connection {c : Connection} (h : c.metadata.WellFormed) :
    c.toJson.WellFormed := by
  unfold Connection.toJson
  refine Json.wellFormed_array_iff.2 fun v hv => ?_
  rcases List.mem_append.1 hv with hv | hv
  · rcases List.mem_pair.1 hv with rfl | rfl <;> exact Json.wellFormed_strings _
  · split at hv
    · cases hv
    · rw [List.mem_singleton.1 hv]
      exact h

theorem Definition.Sound.wellFormed {d : Definition} (h : d.Sound env) : d.toJson.WellFormed := by
  have instances := wellFormed_entriesToJson h.nodup fun e he => (h.instances e he).wellFormed
  have connections : (Json.array (d.connections.map Connection.toJson)).WellFormed := by
    refine Json.wellFormed_array_iff.2 fun v hv => ?_
    obtain ⟨c, hc, rfl⟩ := List.mem_map.1 hv
    exact wellFormed_connection (h.connection_metadata c hc)
  refine @Members.wellFormed _ ["instances", "connections", "implementations", "metadata"] ?_ (by decide)
  exact .cons (member_unlessEmpty instances) (.cons (member_unlessEmpty connections)
    (.cons (member_unlessEmpty h.implementations) (.cons (member_unlessEmpty h.metadata) .nil)))

theorem Module.Sound.wellFormed {m : Module} (h : m.Sound env) : m.toJson.WellFormed := by
  refine @Members.wellFormed _ ["type", "configparams", "metadata", "def"] ?_ (by decide)
  exact .cons (member_some h.type.wellFormed)
    (.cons (member_unlessEmpty (wellFormed_paramsToJson h.params))
      (.cons (member_unlessEmpty h.metadata)
        (.cons (member_map fun d hd => (h.definition d hd).wellFormed) .nil)))

theorem Generator.Sound.wellFormed {g : Generator} (h : g.Sound) : g.toJson.WellFormed := by
  refine @Members.wellFormed _ ["genparams", "configparams", "metadata"] ?_ (by decide)
  exact .cons (member_some (wellFormed_paramsToJson h.genparams))
    (.cons (member_unlessEmpty (wellFormed_paramsToJson h.params))
      (.cons (member_unlessEmpty h.metadata) .nil))

theorem Namespace.Sound.wellFormed {ns : Namespace} (h : ns.Sound env) : ns.toJson.WellFormed := by
  obtain ⟨modules, generators, -⟩ := List.nodup_append.1 h.names
  refine @Members.wellFormed _ ["modules", "generators"] ?_ (by decide)
  exact .cons (member_unlessEmpty
      (wellFormed_entriesToJson modules fun e he => (h.modules e he).wellFormed))
    (.cons (member_unlessEmpty
      (wellFormed_entriesToJson generators fun e he => (h.generators e he).wellFormed)) .nil)

end

theorem Sound.wellFormed {o : Outline} (h : o.Sound) : o.toJson.WellFormed := by
  have namespaces := wellFormed_entriesToJson h.nodup fun n hn => (h.namespaces n hn).wellFormed
  have keys : ["top", "namespaces"].Nodup := by decide
  exact ⟨keys, Json.wellFormed_strings [_, _], namespaces, trivial⟩

end Outline

end Netlist
