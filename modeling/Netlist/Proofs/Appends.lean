-- A load that succeeds only appends. What the first pass adds stays as it is in the second
-- one, which gives a definition to each new module whose node has one, and to no other.
import Netlist.Proofs.Additions
import Netlist.Proofs.FailedLoad

namespace Netlist

open Document

namespace Document

/-- The modules that a document lists, in order. -/
def moduleEntries (doc : Json) : List Entry :=
  allEntries "modules" (doc.entry "namespaces").entries

/-- The generators that a document lists, in order. -/
def generatorEntries (doc : Json) : List Entry :=
  allEntries "generators" (doc.entry "namespaces").entries

/-- The names of the namespaces that a document lists, in order. -/
def scopeNames (doc : Json) : List String := Assoc.keys (doc.entry "namespaces").entries

end Document

namespace Design

/-! ## What it is to append -/

/-- A module by the names of an entry. It has a definition if the entry has one. -/
structure Lists (d : Design) (id : ModuleId) (e : Entry) : Prop where
  symbol : d.symbolText? (.module id) = some (e.scope, e.name)
  definition : ∃ m, d.modules.get? id = some m ∧
    (m.definition.isSome = true ↔ e.node.entry "def" ≠ .null)

/-- Everything stands for what it stood for, and what a document lists came behind it. -/
structure Appends (c d : Design) (doc : Json) : Prop where
  texts : ∀ {n s}, c.text? n = some s → d.text? n = some s
  types : ∀ {id w}, c.types.get? id = some w → d.types.get? id = some w
  modules : ∀ {id m}, c.modules.get? id = some m → d.modules.get? id = some m
  generators : ∀ {id g}, c.generators.get? id = some g → d.generators.get? id = some g
  namespaces : ∀ {id ns}, c.namespaces.get? id = some ns →
    ∃ ns', d.namespaces.get? id = some ns' ∧ ns.Grows ns'
  symbols : ∀ {scope name t}, Edit.resolve scope name c = .ok t c →
    Edit.resolve scope name d = .ok t d
  newModules : List.Forall₂ d.Lists (d.modules.since c.modules.size) (moduleEntries doc)
  newGenerators : List.Forall₂ (fun id e => d.symbolText? (.generator id) = some (e.scope, e.name))
    (d.generators.since c.generators.size) (generatorEntries doc)
  newNamespaces : List.Forall₂ (fun id name => d.scopeText? id = some name)
    (d.namespaces.since c.namespaces.size) (c.newScopes (scopeNames doc))

/-! ## Attaching definitions -/

/-- Only these modules changed, and all of them have definitions now. -/
structure Defines (c d : Design) (ids : List ModuleId) : Prop where
  namespaces : d.namespaces = c.namespaces
  generators : d.generators = c.generators
  size : d.modules.size = c.modules.size
  others : ∀ {id}, id ∉ ids → d.modules.get? id = c.modules.get? id
  defined : ∀ {id m}, id ∈ ids → c.modules.get? id = some m →
    ∃ m', d.modules.get? id = some m' ∧ m'.definition.isSome = true

variable {b c d : Design}

theorem Defines.refl (d : Design) : d.Defines d [] :=
  ⟨rfl, rfl, rfl, fun _ => rfl, fun h => absurd h List.not_mem_nil⟩

theorem defines_define (d : Design) (id : ModuleId) (x : Definition) :
    d.Defines (d.define id x) [id] := by
  refine ⟨rfl, rfl, Table.size_modify _ _ _, ?_, ?_⟩
  · intro k other
    rw [List.mem_singleton] at other
    rw [define, Table.get?_modify, if_neg (Ne.symm other)]
  · intro k m mem hm
    rw [List.mem_singleton] at mem
    subst mem
    exact ⟨{ m with definition := some x }, by rw [define, Table.get?_modify, if_pos rfl, hm]; rfl, rfl⟩

theorem Defines.trans {ids ids' : List ModuleId} (h : b.Defines c ids) (k : c.Defines d ids') :
    b.Defines d (ids ++ ids') := by
  refine ⟨k.namespaces.trans h.namespaces, k.generators.trans h.generators, k.size.trans h.size, ?_, ?_⟩
  · intro id other
    rw [List.mem_append, not_or] at other
    rw [k.others other.2, h.others other.1]
  · intro id m mem hm
    by_cases later : id ∈ ids'
    · by_cases earlier : id ∈ ids
      · obtain ⟨m', hm', -⟩ := h.defined earlier hm
        exact k.defined later hm'
      · exact k.defined later ((h.others earlier).trans hm)
    · have earlier := (List.mem_append.1 mem).resolve_right later
      obtain ⟨m', hm', some⟩ := h.defined earlier hm
      exact ⟨m', (k.others later).trans hm', some⟩

theorem defines_attachAll {xs : List Definition} : ∀ {c : Design},
    attachAll xs c = .ok () d → c.Defines d (xs.map (·.owner)) := by
  induction xs with
  | nil =>
    intro c ran
    cases ran
    exact .refl _
  | cons x rest ih =>
    intro c ran
    obtain ⟨_, c', attached, ran⟩ := Edit.seq_eq_ok_iff.1 ran
    rw [Edit.within_eq_ok_iff, Edit.attach_apply] at attached
    cases hm : c.modules.get? x.owner with
    | none =>
      rw [hm] at attached
      cases attached
    | some m =>
      rw [hm] at attached
      dsimp only at attached
      split at attached
      · cases attached
      · cases attached
        exact (defines_define c x.owner x).trans (ih ran)

end Design

namespace Document

open Design

variable {c d d' : Design}

/-- The definitions that were read are those of the modules that awaited them. -/
theorem AllRead.owners {us : List Undefined} {ps : List Plain.Pending} {xs : List Definition}
    {rs : List Outline.Definition} (h : AllRead d us ps xs rs) :
    xs.map (·.owner) = us.map (·.id) := by
  induction h with
  | nil => rfl
  | cons _ reads _ ih => rw [List.map_cons, List.map_cons, reads.owner, ih]

theorem nodup_since {e : Entity} {α : Type} (t : Table e α) (n : Nat) : (t.since n).Nodup := by
  refine List.Nodup.map ?_ List.nodup_range'
  intro i j same
  exact congrArg Handle.index same

/-- The modules that await a definition are those whose nodes have one. -/
theorem mem_undefinedAmong_iff {ids : List ModuleId} {entries : List Entry} (nodup : ids.Nodup)
    (lengths : ids.length = entries.length) {id : ModuleId} {e : Entry}
    (h : (id, e) ∈ ids.zip entries) :
    id ∈ (undefinedAmong ids entries).map (·.id) ↔ e.node.entry "def" ≠ .null := by
  have fst : (ids.zip entries).map Prod.fst = ids := List.map_fst_zip (Nat.le_of_eq lengths)
  rw [ne_eq, ← Plain.optional_eq_none_iff_entry, ← ne_eq, Option.ne_none_iff_exists']
  constructor
  · intro mem
    obtain ⟨u, hu, rfl⟩ := List.mem_map.1 mem
    obtain ⟨⟨id, e'⟩, he', found⟩ := List.mem_filterMap.1 hu
    obtain ⟨node, hnode, rfl⟩ := Option.map_eq_some_iff.1 found
    cases List.inj_on_of_nodup_map (fst.symm ▸ nodup) h he' rfl
    exact ⟨node, hnode⟩
  · rintro ⟨node, hnode⟩
    refine List.mem_map.2 ⟨⟨id, node⟩, ?_, rfl⟩
    exact List.mem_filterMap.2 ⟨(id, e), h, Option.map_eq_some_iff.2 ⟨node, hnode, rfl⟩⟩

/-- What was declared is defined in the second pass if its node says how. -/
theorem lists_of_declared {us : List Undefined} {entries : List Entry} {n : Nat}
    (declared : List.Forall₂ c.Declared (c.modules.since n) entries)
    (pending : us = undefinedAmong (c.modules.since n) entries)
    (grows : c.Grows d) (defines : c.Defines d (us.map (·.id))) :
    List.Forall₂ d.Lists (d.modules.since n) entries := by
  have same : d.modules.since n = c.modules.since n := by
    unfold Table.since
    rw [defines.size]
  rw [same]
  obtain ⟨lengths, all⟩ := List.forall₂_iff_zip.1 declared
  refine List.forall₂_iff_zip.2 ⟨lengths, fun {id e} h => ?_⟩
  obtain ⟨symbol, m, hm, none⟩ := all h
  have iff := mem_undefinedAmong_iff (nodup_since c.modules n) lengths h
  rw [← pending] at iff
  refine ⟨grows.keeps.symbolText symbol, ?_⟩
  by_cases mem : id ∈ us.map (·.id)
  · obtain ⟨m', hm', some⟩ := defines.defined mem hm
    exact ⟨m', hm', fun _ => iff.1 mem, fun _ => some⟩
  · refine ⟨m, (defines.others mem).trans hm, fun some => ?_, fun nonnull => absurd (iff.2 nonnull) mem⟩
    rw [none] at some
    cases some

/-- What awaits a definition came with the document. -/
theorem not_mem_undefinedAmong_since {α : Type} {t : Table .module α} {n : Nat}
    {entries : List Entry} {id : ModuleId} (old : id.index < n) :
    id ∉ (undefinedAmong (t.since n) entries).map (·.id) := by
  intro mem
  obtain ⟨u, hu, rfl⟩ := List.mem_map.1 mem
  obtain ⟨⟨id, e⟩, he, found⟩ := List.mem_filterMap.1 hu
  obtain ⟨node, -, rfl⟩ := Option.map_eq_some_iff.1 found
  exact Nat.not_lt_of_le (Table.mem_since.1 (List.of_mem_zip he).1).1 old

/-! ## The two passes -/

/-- The first pass brings what the document lists. -/
theorem adds_declareDocument (hd : d.Sound) {doc : Json} (wf : doc.WellFormed)
    {top : String × String} {us : List Undefined}
    (ran : declareDocument doc d = .ok (top, us) d') :
    d.Adds d' (d.newScopes (scopeNames doc)) (moduleEntries doc) (generatorEntries doc) ∧
      us = undefinedAmong (d'.modules.since d.modules.size) (moduleEntries doc) := by
  unfold declareDocument at ran
  obtain ⟨ms, _, run, ran⟩ := Edit.seq_eq_ok_iff.1 ran
  obtain ⟨hms, rfl⟩ := Edit.liftM_eq_ok_iff.1 run
  obtain ⟨topNode, _, run, ran⟩ := Edit.seq_eq_ok_iff.1 ran
  obtain ⟨-, rfl⟩ := Edit.liftM_eq_ok_iff.1 run
  obtain ⟨_, _, run, ran⟩ := Edit.seq_eq_ok_iff.1 ran
  obtain ⟨-, rfl⟩ := Edit.liftM_eq_ok_iff.1 run
  obtain ⟨node, _, run, ran⟩ := Edit.seq_eq_ok_iff.1 ran
  obtain ⟨hnode, rfl⟩ := Edit.liftM_eq_ok_iff.1 run
  obtain ⟨nodes, _, run, ran⟩ := Edit.seq_eq_ok_iff.1 ran
  obtain ⟨hnodes, rfl⟩ := Edit.liftM_eq_ok_iff.1 run
  obtain ⟨_, _, declared, ran⟩ := Edit.seq_eq_ok_iff.1 ran
  cases ran
  have listed : (doc.entry "namespaces").entries = nodes := by
    rw [members_eq_ok hms, Json.entry, Json.entries, required_eq_ok_iff.1 hnode,
      members_eq_ok hnodes]
    rfl
  have wf' := wellFormed_members (wellFormed_required (wellFormed_members wf hms) hnode) hnodes
  rw [moduleEntries, generatorEntries, scopeNames, listed]
  exact adds_declareNamespaces wf' hd declared

/-- The second pass puts strings and types in the tables, and then it attaches the definitions. -/
theorem defines_of_passes (hc : c.Sound) {scopes : Plain.Scopes}
    (hs : c.outlineNamespaces? = some scopes) {us : List Undefined} {ps : List Plain.Pending}
    (awaiting : List.Forall₂ (Awaits c) us ps) {strict : Bool} {xs : List Definition}
    {warnings : List Diagnostic} {scope name : String} {top : ModuleId} {d₁ d₂ : Design}
    (defined : readDefinitions strict us c = .ok (xs, warnings) d₁)
    (resolved : (Edit.resolveModule scope name).within LoadError.ofGraph d₁ = .ok top d₂)
    (attached : attachAll xs d₂ = .ok () d) :
    c.Interns d₂ ∧ d₂.Grows d ∧ d₂.Defines d (us.map (·.id)) := by
  obtain ⟨_, -, sound₁, i₁, all, -⟩ := (mirrors_readDefinitions strict hc hs awaiting).of_ok defined
  obtain ⟨-, -, -, i₂, -⟩ :=
    (mirrors_resolveModule sound₁ (i₁.outlineNamespaces sound₁ hs) scope name).of_ok resolved
  have grows := Edit.OnlyGrows.grows (leads_attachAll xs) d₂
  rw [Edit.left_of_ok attached] at grows
  have defines := defines_attachAll attached
  rw [all.owners] at defines
  exact ⟨i₁.trans i₂, grows, defines⟩

/-! ## Whole loads -/

theorem appends_of_read (hd : d.Sound) {strict : Bool} {doc : Json} (wf : doc.WellFormed)
    {top : ModuleId} {warnings : List Diagnostic}
    (ran : read strict doc d = .ok (top, warnings) d') : d.Appends d' doc := by
  obtain ⟨scopes, hs⟩ := hd.exists_outlineNamespaces
  obtain ⟨_, -, sound', grows, -⟩ := (mirrors_read hd hs strict wf).of_ok ran
  rw [read_eq] at ran
  obtain ⟨⟨_, us⟩, d₁, declared, ran⟩ := Edit.seq_eq_ok_iff.1 ran
  obtain ⟨⟨xs, _⟩, d₂, defined, ran⟩ := Edit.seq_eq_ok_iff.1 ran
  obtain ⟨_, d₃, resolved, ran⟩ := Edit.seq_eq_ok_iff.1 ran
  obtain ⟨_, _, attached, ran⟩ := Edit.seq_eq_ok_iff.1 ran
  cases ran
  obtain ⟨_, -, sound₁, -, -, hs₁, awaiting, -⟩ :=
    (mirrors_declareDocument hd hs wf).of_ok declared
  obtain ⟨added, pending⟩ := adds_declareDocument hd wf declared
  obtain ⟨i, attaching, defines⟩ := defines_of_passes sound₁ hs₁ awaiting defined resolved attached
  have added₃ := added.trans i.adds
  rw [List.append_nil, List.append_nil, List.append_nil] at added₃
  rw [← i.modules] at pending
  refine ⟨grows.names, grows.types, ?_, grows.generators, grows.namespaces, ?_, ?_, ?_, ?_⟩
  · intro id m hm
    have old : id ∉ us.map (·.id) := by
      rw [pending]
      exact not_mem_undefinedAmong_since (Table.index_lt_of_get? hm)
    exact (defines.others old).trans (added₃.extended.modules hm)
  · intro scope name t h
    rw [hd.listed.resolve_eq_ok_iff] at h
    exact (sound'.listed.resolve_eq_ok_iff _ _ _).2 (grows.keeps.symbolText h)
  · exact lists_of_declared added₃.modules pending attaching defines
  · rw [defines.generators]
    exact added₃.generators.imp fun _ _ => attaching.keeps.symbolText
  · rw [defines.namespaces]
    exact added₃.scopes.imp fun _ _ => attaching.keeps.scopeText

open Session

/-- Whatever calls led to a design, a load into it that succeeds only appends. -/
theorem load_appends {s : Session} (reached : s.Reachable Careful) {strict : Bool} {doc : Json}
    (wf : doc.WellFormed) {top : ModuleId} {warnings : List Diagnostic} {d' : Design}
    (loaded : load strict doc s.design = .ok (top, warnings) d') : s.design.Appends d' doc := by
  apply appends_of_read reached.sound_of_careful.design wf
  unfold load at loaded
  split at loaded
  · cases loaded
  · exact loaded

/-- A document that puts a generator and a module without a definition in an old namespace, and
a module with a definition in a new one. -/
def documentWithGenerator : Json :=
  .object [
    ("namespaces", .object [
      ("app", .object [("modules", .object [("wrap", .object [
        ("type", .array [.string "Array", .int 4, .string "BitOut"]),
        ("def", .object [("instances", .object [("r", .object [
          ("instref", .array [.string "lib", .string "reg"]),
          ("config", .object [("width", .int 8)])])])])])])]),
      ("lib", .object [
        ("modules", .object [("pad", .object [("type", .string "BitIn"), ("def", .null)])]),
        ("generators", .object [("fifo", .object [])])])]),
    ("top", .array [.string "app", .string "wrap"])]

theorem load_with_generator_appends : ∃ top warnings d',
    load false documentWithGenerator sessionWithRegister.design = .ok (top, warnings) d' ∧
      sessionWithRegister.design.Appends d' documentWithGenerator := by
  have reached : sessionWithRegister.Reachable Live := .run .start (by decide +kernel)
  have accepted : (Edit.answer? (load false documentWithGenerator
      sessionWithRegister.design)).isSome = true := by decide +kernel
  obtain ⟨⟨answer, d'⟩, loaded⟩ := Option.isSome_iff_exists.1 accepted
  have loaded := Edit.answer?_eq_some_iff.1 loaded
  exact ⟨answer.1, answer.2, d', loaded, load_appends reached.careful (by decide +kernel) loaded⟩

end Document

end Netlist
