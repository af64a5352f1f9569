-- Type nodes stand for types one to one. The node of a type is read as the type itself, and
-- nothing comes to the design; what is read from any other node that is well formed is saved
-- as this node; and no other node is read at all.
import Netlist.Proofs.Saved.Isomorphic
import Netlist.Proofs.TypesInRange
import Netlist.Proofs.Valid

namespace Netlist

open Edit

variable {ε : Type} {d : Design}

/-! ## What is there is not stored again -/

namespace Design

theorem withName_of_text (hd : d.Sound) {n : Name} {s : String} (text : d.text? n = some s) :
    (d.names.intern s).1 = n ∧ d.withName s = d := by
  rw [withName, hd.names.intern_of_get? text]
  exact ⟨rfl, rfl⟩

theorem withType_of_get? (hd : d.Sound) {id : TypeId} {w : WireType}
    (stored : d.types.get? id = some w) : (d.types.intern w).1 = id ∧ d.withType w = d := by
  rw [withType, hd.types.intern_of_get? stored]
  exact ⟨rfl, rfl⟩

end Design

namespace Edit

theorem intern_of_text (hd : d.Sound) {n : Name} {s : String} (text : d.text? n = some s) :
    (intern s : Edit ε Name) d = .ok n d := by
  obtain ⟨name, same⟩ := Design.withName_of_text hd text
  rw [intern_apply, name, same]

theorem internAll_of_texts (hd : d.Sound) {ns : List Name} {words : List String}
    (texts : List.Forall₂ (fun n w => d.text? n = some w) ns words) :
    (internAll words : Edit ε (List Name)) d = .ok ns d := by
  induction texts with
  | nil => rfl
  | cons text _ ih =>
    rw [internAll, bind_of_ok (intern_of_text hd text), bind_of_ok ih]
    rfl

theorem array_of_get? (hd : d.Sound) {id element : TypeId} {length : Nat}
    (stored : d.types.get? id = some (.array element length)) :
    (array element length : Edit ε TypeId) d = .ok id d := by
  obtain ⟨number, same⟩ := Design.withType_of_get? hd stored
  rw [array_apply, number, same]

/-- The fields of a record that is there are read as this record. -/
theorem record_of_get? (hd : d.Sound) {id : TypeId} {fields : List (Name × TypeId)}
    (stored : d.types.get? id = some (.record fields)) {words : List String}
    (texts : List.Forall₂ (fun n w => d.text? n = some w) (Assoc.keys fields) words) :
    record (words.zip (fields.map (·.2))) d = .ok id d := by
  have length : words.length = fields.length := by
    rw [← texts.length_eq, Assoc.keys, List.length_map]
  have keys : (words.zip (fields.map (·.2))).map (·.1) = words :=
    List.map_fst_zip (Nat.le_of_eq (by rw [length, List.length_map]))
  have ids : (words.zip (fields.map (·.2))).map (·.2) = fields.map (·.2) :=
    List.map_snd_zip (Nat.le_of_eq (by rw [length, List.length_map]))
  have whole : (Assoc.keys fields).zip (fields.map (·.2)) = fields := by
    rw [Assoc.keys, List.zip_map']
    exact List.map_id' fields
  unfold record
  rw [keys, bind_of_ok (internAll_of_texts hd texts), bind_of_ok (get_apply d), ids, whole]
  obtain ⟨number, same⟩ := Design.withType_of_get? hd stored
  rcases TypeTable.record_cases d.types fields with ⟨-, recorded⟩ | ⟨_, twice, -⟩
  · rw [recorded]
    exact congrArg₂ EStateM.Result.ok number same
  · exact absurd (hd.typeSound stored).1 twice

end Edit

/-! ## Types read again -/

namespace Design

open Document

mutual

/-- The node of a type is read as this type, and nothing changes. -/
theorem Unfolds.readType (hd : d.Sound) : ∀ {id t}, d.Unfolds id t →
    Document.readType t.toJson d = .ok id d
  | id, _, .any h => by
    cases hd.types.get?_injective h hd.any
    rw [TypeTree.toJson, Document.readType]
    rfl
  | id, _, .bitIn h => by
    cases hd.types.get?_injective h hd.bitIn
    rw [TypeTree.toJson, Document.readType]
    rfl
  | id, _, .bitOut h => by
    cases hd.types.get?_injective h hd.bitOut
    rw [TypeTree.toJson, Document.readType]
    rfl
  | _, .array length t, .array h ht => by
    have lengthRead : Document.readLength (.nat length) = .ok length :=
      Plain.readLength_eq_ok_iff.2 ⟨rfl, (hd.typeSound h).2⟩
    rw [TypeTree.toJson, readType_array, lengthRead]
    exact (bind_of_ok rfl).trans ((bind_of_ok (Unfolds.readType hd ht)).trans (array_of_get? hd h))
  | _, _, .record h hts => by
    obtain ⟨words, texts, fields⟩ := UnfoldsFields.readFields hd hts
    rw [TypeTree.toJson, readType_record, bind_of_ok fields]
    exact within_of_ok (record_of_get? hd h texts)

theorem UnfoldsFields.readFields (hd : d.Sound) : ∀ {fields ts}, d.UnfoldsFields fields ts →
    ∃ words, List.Forall₂ (fun n w => d.text? n = some w) (Assoc.keys fields) words ∧
      Document.readFields (TypeTree.fieldsToJson ts) d =
        .ok (words.zip (fields.map (·.2))) d
  | _, _, .nil => ⟨[], .nil, by rw [TypeTree.fieldsToJson, Document.readFields]; rfl⟩
  | _, (s, _) :: _, .cons hn ht hts => by
    obtain ⟨words, texts, fields⟩ := UnfoldsFields.readFields hd hts
    refine ⟨s :: words, .cons hn texts, ?_⟩
    rw [TypeTree.fieldsToJson, Document.readFields, bind_of_ok (Unfolds.readType hd ht),
      bind_of_ok fields]
    rfl

end

/-! ## Types and nodes, one to one -/

theorem TypesSound.exists_typeNode (h : d.TypesSound) {id : TypeId}
    (range : id.index < d.types.size) : ∃ node, d.typeNode? id = some node := by
  obtain ⟨t, ht⟩ := h.tables.exists_typeTree ((Table.isSome_get?_iff _ _).2 range)
  rw [typeTree?_tables] at ht
  exact ⟨t.toJson, congrArg (Option.map TypeTree.toJson) ht⟩

/-- What a type is saved as is read as this type. -/
theorem TypesSound.readType_typeNode (h : d.TypesSound) {id : TypeId} {node : Json}
    (saved : d.typeNode? id = some node) : Document.readType node d = .ok id d := by
  obtain ⟨t, ht, rfl⟩ := Option.map_eq_some_iff.1 saved
  rw [← typeTree?_tables] at ht
  have read := (h.tables.typeTree_eq_some_iff.1 ht).readType h.tables
  rw [(TypeSteps.readType Edit.Local _).apply_eq, read]
  rfl

/-- A node that is read as a type is what this type is saved as. A node that is not valid is
refused. -/
theorem TypesSound.readType_cases (h : d.TypesSound) (node : Json) :
    (ValidType node ∧ ∃ id d', Document.readType node d = .ok id d' ∧ d'.TypesSound ∧
      d'.typeNode? id = some node) ∨
    ¬ValidType node ∧ ∃ e d', Document.readType node d = .error (.error e) d' := by
  have mirrored := Document.mirrors_readType node h.tables
  have applied := (TypeSteps.readType Edit.Local node).apply_eq d
  rw [validType_iff]
  cases plain : Plain.readType node with
  | ok t =>
    rw [plain] at mirrored
    obtain ⟨id, e, read, sound, -, unfolds⟩ := mirrored
    obtain ⟨treeSound, same⟩ := Plain.readType_eq_ok_iff.1 plain
    rw [read] at applied
    refine Or.inl ⟨⟨t, treeSound, same.symm⟩, id, d.withTables e, applied,
      sound.typesSound.of_tables rfl rfl, ?_⟩
    rw [typeNode?, typeTree?_withTables, sound.typeTree_eq_some_iff.2 unfolds, ← same]
    rfl
  | error f =>
    rw [plain] at mirrored
    obtain ⟨e, refused, -⟩ := mirrored
    rw [refused] at applied
    refine Or.inr ⟨?_, f, _, applied⟩
    rintro ⟨t, sound, rfl⟩
    cases plain.symm.trans (Plain.readType_eq_ok_iff.2 ⟨sound, rfl⟩)

/-- A type keeps its node while the design grows. -/
theorem TypesSound.typeNode_grows {c : Design} (hc : c.TypesSound) (hd : d.TypesSound)
    (grows : c.Grows d) {id : TypeId} {node : Json} (saved : c.typeNode? id = some node) :
    d.typeNode? id = some node := by
  obtain ⟨t, ht, rfl⟩ := Option.map_eq_some_iff.1 saved
  rw [← typeTree?_tables] at ht
  have unfolds := (hc.tables.typeTree_eq_some_iff.1 ht).keep grows.tables_keeps
  rw [typeNode?, ← typeTree?_tables, hd.tables.typeTree_eq_some_iff.2 unfolds]
  rfl

/-- The types that are there go on to stand in front. -/
theorem Grows.types_initial {c : Design} (grows : c.Grows d) :
    c.types.items.toList <+: d.types.items.toList := by
  refine List.prefix_iff_getElem?.2 fun i lt => ?_
  have here : c.types.get? ⟨i⟩ = some (c.types.items.toList[i]) :=
    (Table.get?_eq_toList ..).trans (List.getElem?_eq_getElem lt)
  have stored := grows.types here
  exact (Table.get?_eq_toList ..).symm.trans stored

/-- Types and their nodes belong together one to one. Reading the node of a type gives the type
and changes nothing. Exactly the valid nodes are read, each as a type that is saved as this
node, and the types that were there before stay what they were. -/
structure TypeCodec (d : Design) : Prop where
  saved : ∀ id : TypeId, id.index < d.types.size →
    ∃ node, d.typeNode? id = some node ∧ Document.readType node d = .ok id d
  read : ∀ node, ValidType node →
    ∃ id d', Document.readType node d = .ok id d' ∧ d'.typeNode? id = some node
  refused : ∀ node, ¬ValidType node → ∃ e d', Document.readType node d = .error (.error e) d'
  same_iff : ∀ a b i j d₁ d₂, Document.readType a d = .ok i d₁ →
    Document.readType b d₁ = .ok j d₂ → (i = j ↔ a = b)
  appends : ∀ node, d.types.items.toList <+: ((Document.readType node).left d).types.items.toList

/-- Two nodes are read as one type exactly when they are the same node. -/
theorem TypesSound.readType_same_iff (h : d.TypesSound) {a b : Json} {i j : TypeId}
    {d₁ d₂ : Design} (first : Document.readType a d = .ok i d₁)
    (second : Document.readType b d₁ = .ok j d₂) : i = j ↔ a = b := by
  obtain ⟨-, _, _, ran, sound₁, savedA⟩ | ⟨-, _, _, failed⟩ := h.readType_cases a
  · cases first.symm.trans ran
    obtain ⟨-, _, _, ran₂, sound₂, savedB⟩ | ⟨-, _, _, failed⟩ := sound₁.readType_cases b
    · cases second.symm.trans ran₂
      constructor
      · rintro rfl
        have grows := (Document.onlyGrows_readType b).grows d₁
        rw [left_of_ok second] at grows
        have kept := sound₁.typeNode_grows sound₂ grows savedA
        exact Option.some.inj (kept.symm.trans savedB)
      · rintro rfl
        cases second.symm.trans (sound₁.readType_typeNode savedA)
        rfl
    · cases second.symm.trans failed
  · cases first.symm.trans failed

theorem TypesSound.typeCodec (h : d.TypesSound) : d.TypeCodec where
  saved id range := by
    obtain ⟨node, saved⟩ := h.exists_typeNode range
    exact ⟨node, saved, h.readType_typeNode saved⟩
  read node valid := by
    obtain ⟨-, id, d', ran, -, saved⟩ | ⟨invalid, -⟩ := h.readType_cases node
    · exact ⟨id, d', ran, saved⟩
    · exact absurd valid invalid
  refused node invalid := by
    obtain ⟨valid, -⟩ | ⟨-, failed⟩ := h.readType_cases node
    · exact absurd valid invalid
    · exact failed
  same_iff _ _ _ _ _ _ := h.readType_same_iff
  appends node := ((Document.onlyGrows_readType node).grows d).types_initial

end Design

namespace Session

/-- In every session that makes arrays and records of types that are there, types and their
nodes belong together one to one. -/
theorem typeCodec_of_reachable {s : Session} (reached : s.Reachable TypesInRange) :
    s.design.TypeCodec :=
  reached.typesSound.typeCodec

/-- Types read and made, in a session that is given handles of nothing as well. -/
def callsWithTypes : List Call := [
  .readType (.array [.string "Record", .array [.array [.string "in",
    .array [.string "Array", .nat 8, .string "BitIn"]]]]),
  .array ⟨4⟩ 2, .record [("a", ⟨5⟩), ("a", ⟨0⟩)], .openNamespace "lib",
  .declareModule ⟨0⟩ "main" ⟨99⟩ [(⟨70⟩, .int)], .declareModule ⟨7⟩ "other" ⟨0⟩ []]

theorem typeCodec_with_stale_module :
    let s := start.run callsWithTypes
    s.design.types.size = 6 ∧ s.design.modules.items.map (·.type) = #[⟨99⟩] ∧
      s.design.TypeCodec := by
  intro s
  have reached : Reachable TypesInRange s := .run .start (by decide +kernel)
  exact ⟨by decide +kernel, by decide +kernel, typeCodec_of_reachable reached⟩

end Session

end Netlist
