-- A normal form is not nested more deeply than the document, if the document may be nested as
-- deeply as the fixed frame of a normal form: an argument of an instance lies inside eight
-- objects, and its value may have a depth of its own.
import Netlist.Proofs.Json.Accepted
import Netlist.Proofs.NormalForm

namespace Netlist

namespace Json

variable {n : Nat}

theorem depth_array_le {vs : List Json} :
    (array vs).depth ≤ n + 1 ↔ ∀ v ∈ vs, v.depth ≤ n := by
  rw [depth, Nat.add_le_add_iff_right, Reader.depthItems_le]

theorem depth_object_le {ms : List (String × Json)} :
    (object ms).depth ≤ n + 1 ↔ ∀ m ∈ ms, m.2.depth ≤ n := by
  rw [depth, Nat.add_le_add_iff_right, Reader.depthMembers_le]

theorem depth_of_mem_entries {node : Json} (h : node.depth ≤ n + 1) :
    ∀ m ∈ node.entries, m.2.depth ≤ n := by
  cases node with
  | object ms => exact depth_object_le.1 h
  | _ => exact List.forall_mem_nil _

theorem depth_of_mem_elements {node : Json} (h : node.depth ≤ n + 1) :
    ∀ v ∈ node.elements, v.depth ≤ n := by
  cases node with
  | array vs => exact depth_array_le.1 h
  | _ => exact List.forall_mem_nil _

theorem depth_entry {node : Json} (h : node.depth ≤ n + 1) (key : String) :
    (node.entry key).depth ≤ n := by
  rw [entry]
  cases found : Assoc.get? key node.entries with
  | none => exact Nat.zero_le n
  | some v => exact depth_of_mem_entries h _ (Assoc.mem_of_get? found)

theorem depth_objectOf {ms : List (Option (String × Json))}
    (h : ∀ o ∈ ms, ∀ m ∈ o, m.2.depth ≤ n) : (objectOf ms).depth ≤ n + 1 := by
  refine depth_object_le.2 fun m hm => ?_
  obtain ⟨o, ho, there⟩ := List.mem_filterMap.1 hm
  exact h o ho m there

theorem depth_some {key : String} {v : Json} (h : v.depth ≤ n) :
    ∀ m ∈ some (key, v), m.2.depth ≤ n := by
  rintro _ ⟨⟩
  exact h

theorem depth_unlessEmpty {key : String} {empty : Bool} {v : Json} (h : v.depth ≤ n) :
    ∀ m ∈ unlessEmpty key empty v, m.2.depth ≤ n := by
  cases empty with
  | true => rintro _ ⟨⟩
  | false => exact depth_some h

theorem depth_strings (words : List String) : (array (words.map .string)).depth ≤ n + 1 := by
  refine depth_array_le.2 fun v hv => ?_
  obtain ⟨word, -, rfl⟩ := List.mem_map.1 hv
  exact Nat.zero_le n

theorem depth_mapped {es : List (String × Json)} {f : Json → Json}
    (h : ∀ e ∈ es, (f e.2).depth ≤ n) : (object (es.map fun e => (e.1, f e.2))).depth ≤ n + 1 := by
  refine depth_object_le.2 fun m hm => ?_
  obtain ⟨e, he, rfl⟩ := List.mem_map.1 hm
  exact h e he

end Json

namespace Document

open Json

variable {n : Nat} {doc node : Json}

theorem depth_kept (h : node.depth ≤ n + 1) (key : String) :
    ∀ m ∈ kept node key, m.2.depth ≤ n :=
  depth_unlessEmpty (depth_entry h key)

theorem depth_normalInstance (h : node.depth ≤ n + 2) : (normalInstance doc node).depth ≤ n + 2 := by
  have config : (object (normalConfig (declaredParams doc (node.entry "instref"))
      (node.entry "config").entries)).depth ≤ n + 1 := by
    refine depth_object_le.2 fun m hm => ?_
    obtain ⟨key, -, there⟩ := List.mem_filterMap.1 hm
    obtain ⟨v, found, rfl⟩ := Option.map_eq_some_iff.1 there
    exact depth_of_mem_entries (depth_entry h "config") _ (Assoc.mem_of_get? found)
  exact depth_objectOf (List.forall_mem_cons.2 ⟨depth_some (depth_entry h "instref"),
    List.forall_mem_cons.2 ⟨depth_unlessEmpty config,
    List.forall_mem_singleton.2 (depth_kept h "metadata")⟩⟩)

/-- Whether everything that is said of a link is nested at most so deeply. -/
def Within (n : Nat) (c : Outline.Connection) : Prop := ∀ e ∈ c.metadata.entries, e.2.depth ≤ n

theorem depth_extend {m k : Metadata} (hm : ∀ e ∈ m.entries, e.2.depth ≤ n)
    (hk : ∀ e ∈ k.entries, e.2.depth ≤ n) : ∀ e ∈ (m.extend k).entries, e.2.depth ≤ n :=
  fun e he => (Assoc.mem_setAll he).elim (hm e) (hk e)

theorem within_link {links : List Outline.Connection} {c : Outline.Connection}
    (old : ∀ c ∈ links, Within n c) (new : Within n c) :
    ∀ k ∈ Plain.link links c.first c.second c.metadata, Within n k :=
  forall_mem_updateFirst old (fun k hk _ => depth_extend (old k hk) new)
    (depth_extend (List.forall_mem_nil _) new)

/-- Putting links together nests nothing more deeply. -/
theorem within_linkAll {links : List Outline.Connection} (h : ∀ c ∈ links, Within n c) :
    ∀ c ∈ Plain.linkAll links, Within n c :=
  List.foldlRecOn (motive := fun cs => ∀ c ∈ cs, Within n c) links _ (List.forall_mem_nil _)
    fun _ old c hc => within_link old (h c hc)

theorem within_linkOf (h : node.depth ≤ n + 2) : Within n (linkOf node) := by
  unfold linkOf
  split
  · have metadata := depth_array_le.1 h _ (List.mem_cons_of_mem _ (List.mem_cons_of_mem _
      List.mem_cons_self))
    exact depth_of_mem_entries metadata
  · exact List.forall_mem_nil _
  · exact List.forall_mem_nil _

theorem depth_connection {c : Outline.Connection} (h : Within n c) : c.toJson.depth ≤ n + 2 := by
  unfold Outline.Connection.toJson
  refine depth_array_le.2 fun v hv => ?_
  rcases List.mem_append.1 hv with hv | hv
  · rcases List.mem_pair.1 hv with rfl | rfl <;> exact depth_strings _
  · split at hv
    · cases hv
    · rw [List.mem_singleton.1 hv]
      exact depth_object_le.2 h

theorem depth_normalConnections {nodes : List Json} (h : ∀ v ∈ nodes, v.depth ≤ n + 2) :
    ∀ v ∈ normalConnections nodes, v.depth ≤ n + 2 := by
  have links : ∀ c ∈ nodes.map linkOf, Within n c := by
    intro c hc
    obtain ⟨node, hnode, rfl⟩ := List.mem_map.1 hc
    exact within_linkOf (h node hnode)
  intro v hv
  obtain ⟨c, hc, rfl⟩ := List.mem_map.1 hv
  exact depth_connection (within_linkAll links c hc)

theorem depth_normalDefinition (h : node.depth ≤ n + 4) :
    (normalDefinition doc node).depth ≤ n + 4 := by
  have instances := depth_mapped (f := normalInstance doc) fun e he =>
    depth_normalInstance (depth_of_mem_entries (depth_entry h "instances") e he)
  have connections := depth_array_le.2
    (depth_normalConnections (depth_of_mem_elements (depth_entry h "connections")))
  exact depth_objectOf (List.forall_mem_cons.2 ⟨depth_unlessEmpty instances,
    List.forall_mem_cons.2 ⟨depth_unlessEmpty connections,
    List.forall_mem_cons.2 ⟨depth_kept h "implementations",
    List.forall_mem_singleton.2 (depth_kept h "metadata")⟩⟩⟩)

theorem depth_normalModule (h : node.depth ≤ n + 5) : (normalModule doc node).depth ≤ n + 5 := by
  have definition : ∀ m ∈ (optional node.entries "def").map fun x => ("def", normalDefinition doc x),
      m.2.depth ≤ n + 4 := by
    intro m hm
    obtain ⟨x, hx, rfl⟩ := Option.map_eq_some_iff.1 hm
    exact depth_normalDefinition
      (depth_of_mem_entries h _ (Assoc.mem_of_get? (optional_eq_some_iff.1 hx).1))
  exact depth_objectOf (List.forall_mem_cons.2 ⟨depth_some (depth_entry h "type"),
    List.forall_mem_cons.2 ⟨depth_kept h "configparams",
    List.forall_mem_cons.2 ⟨depth_kept h "metadata", List.forall_mem_singleton.2 definition⟩⟩⟩)

theorem depth_normalGenerator (h : node.depth ≤ n + 2) :
    (normalGenerator node).depth ≤ n + 2 := by
  have genparams : (object (node.entry "genparams").entries).depth ≤ n + 1 :=
    depth_object_le.2 (depth_of_mem_entries (depth_entry h "genparams"))
  exact depth_objectOf (List.forall_mem_cons.2 ⟨depth_some genparams,
    List.forall_mem_cons.2 ⟨depth_kept h "configparams",
    List.forall_mem_singleton.2 (depth_kept h "metadata")⟩⟩)

theorem depth_normalNamespace (h : node.depth ≤ n + 7) :
    (normalNamespace doc node).depth ≤ n + 7 := by
  have modules := depth_mapped (f := normalModule doc) fun e he =>
    depth_normalModule (depth_of_mem_entries (depth_entry h "modules") e he)
  have generators := depth_mapped (f := normalGenerator) fun e he =>
    depth_normalGenerator (n := n + 3) (depth_of_mem_entries (depth_entry h "generators") e he)
  exact depth_objectOf (List.forall_mem_cons.2 ⟨depth_unlessEmpty modules,
    List.forall_mem_singleton.2 (depth_unlessEmpty generators)⟩)

/-- The frame of a normal form is nine objects deep. -/
theorem depth_normalForm (h : doc.depth ≤ n + 9) : (normalForm doc).depth ≤ n + 9 := by
  have namespaces := depth_mapped (f := normalNamespace doc) fun e he =>
    depth_normalNamespace (depth_of_mem_entries (depth_entry h "namespaces") e he)
  exact depth_object_le.2 (List.forall_mem_cons.2 ⟨depth_entry h "top",
    List.forall_mem_singleton.2 namespaces⟩)

end Document

end Netlist
