-- Types unfolded through all their layers, the fields of records labelled in one way or
-- another: a design labels them by the texts of their names, a table on its own by the names.
-- Each type has one tree if its parts come before it, and no tree belongs to two types if no
-- type is stored twice and no two names have one label.
import Netlist.Proofs.Entries
import Netlist.WireType

namespace Netlist

/-- The types that a type is built of. -/
def WireType.parts : WireType → List TypeId
  | array element _ => [element]
  | record fields => fields.map (·.2)
  | _ => []

namespace TypeTable

mutual

/-- The tree that a number stands for when all layers are unfolded. -/
inductive Unfolds {κ : Type} (t : TypeTable) (label : Name → Option κ) : TypeId → TypeTree κ → Prop
  | any {id} (h : t.get? id = some .any) : Unfolds t label id .any
  | bitIn {id} (h : t.get? id = some .bitIn) : Unfolds t label id .bitIn
  | bitOut {id} (h : t.get? id = some .bitOut) : Unfolds t label id .bitOut
  | array {id element length tree} (h : t.get? id = some (.array element length))
    (ht : Unfolds t label element tree) : Unfolds t label id (.array length tree)
  | record {id fields trees} (h : t.get? id = some (.record fields))
    (hts : UnfoldsFields t label fields trees) : Unfolds t label id (.record trees)

inductive UnfoldsFields {κ : Type} (t : TypeTable) (label : Name → Option κ) :
    List (Name × TypeId) → List (κ × TypeTree κ) → Prop
  | nil : UnfoldsFields t label [] []
  | cons {n id k tree fields trees} (hn : label n = some k) (ht : Unfolds t label id tree)
    (hts : UnfoldsFields t label fields trees) :
    UnfoldsFields t label ((n, id) :: fields) ((k, tree) :: trees)

end

variable {κ : Type} {t u : TypeTable} {label relabel : Name → Option κ}

theorem unfoldsFields_iff {fields : List (Name × TypeId)} {trees : List (κ × TypeTree κ)} :
    t.UnfoldsFields label fields trees ↔
      List.Forall₂ (fun f e => label f.1 = some e.1 ∧ t.Unfolds label f.2 e.2) fields trees := by
  constructor
  · intro h
    induction fields generalizing trees with
    | nil => cases h; exact .nil
    | cons f rest ih =>
      obtain _ | ⟨hn, ht, hts⟩ := h
      exact .cons ⟨hn, ht⟩ (ih hts)
  · intro h
    induction h with
    | nil => exact .nil
    | cons h _ ih => exact .cons h.1 h.2 ih

theorem Unfolds.isSome {id : TypeId} {tree : TypeTree κ} (h : t.Unfolds label id tree) :
    (t.get? id).isSome := by
  cases h with
  | any h | bitIn h | bitOut h | array h | record h => exact Option.isSome_of_eq_some h

mutual

/-- A type keeps its tree as long as types and labels are kept. -/
theorem Unfolds.mono (types : ∀ {id w}, t.get? id = some w → u.get? id = some w)
    (labels : ∀ {n k}, label n = some k → relabel n = some k) :
    ∀ {id tree}, t.Unfolds label id tree → u.Unfolds relabel id tree
  | _, _, .any h => .any (types h)
  | _, _, .bitIn h => .bitIn (types h)
  | _, _, .bitOut h => .bitOut (types h)
  | _, _, .array h ht => .array (types h) (ht.mono types labels)
  | _, _, .record h hts => .record (types h) (hts.mono types labels)

theorem UnfoldsFields.mono (types : ∀ {id w}, t.get? id = some w → u.get? id = some w)
    (labels : ∀ {n k}, label n = some k → relabel n = some k) :
    ∀ {fields trees}, t.UnfoldsFields label fields trees → u.UnfoldsFields relabel fields trees
  | _, _, .nil => .nil
  | _, _, .cons hn ht hts => .cons (labels hn) (ht.mono types labels) (hts.mono types labels)

end

mutual

/-- A number stands for one tree. -/
theorem Unfolds.tree_unique : ∀ {id a b}, t.Unfolds label id a → t.Unfolds label id b → a = b
  | _, _, _, .any h, hb => by
    cases hb with
    | any => rfl
    | bitIn k | bitOut k | array k | record k => cases h.symm.trans k
  | _, _, _, .bitIn h, hb => by
    cases hb with
    | bitIn => rfl
    | any k | bitOut k | array k | record k => cases h.symm.trans k
  | _, _, _, .bitOut h, hb => by
    cases hb with
    | bitOut => rfl
    | any k | bitIn k | array k | record k => cases h.symm.trans k
  | _, _, _, .array h ht, hb => by
    cases hb with
    | array k kt =>
      cases h.symm.trans k
      rw [ht.tree_unique kt]
    | any k | bitIn k | bitOut k | record k => cases h.symm.trans k
  | _, _, _, .record h hts, hb => by
    cases hb with
    | record k kts =>
      cases h.symm.trans k
      rw [hts.trees_unique kts]
    | any k | bitIn k | bitOut k | array k => cases h.symm.trans k

theorem UnfoldsFields.trees_unique : ∀ {fields a b}, t.UnfoldsFields label fields a →
    t.UnfoldsFields label fields b → a = b
  | _, _, _, .nil, .nil => rfl
  | _, _, _, .cons hn ht hts, .cons kn kt kts => by
    rw [Option.some.inj (hn.symm.trans kn), ht.tree_unique kt, hts.trees_unique kts]

end

mutual

/-- No tree belongs to two numbers, if no label belongs to two names. -/
theorem Unfolds.id_unique (ht : t.Consistent)
    (distinct : ∀ {m n k}, label m = some k → label n = some k → m = n) :
    ∀ {a b tree}, t.Unfolds label a tree → t.Unfolds label b tree → a = b
  | _, _, _, .any h, .any k => ht.get?_injective h k
  | _, _, _, .bitIn h, .bitIn k => ht.get?_injective h k
  | _, _, _, .bitOut h, .bitOut k => ht.get?_injective h k
  | _, _, _, .array h ha, .array k ka => ht.get?_injective h (ha.id_unique ht distinct ka ▸ k)
  | _, _, _, .record h hs, .record k ks =>
    ht.get?_injective h (hs.ids_unique ht distinct ks ▸ k)

theorem UnfoldsFields.ids_unique (ht : t.Consistent)
    (distinct : ∀ {m n k}, label m = some k → label n = some k → m = n) :
    ∀ {a b trees}, t.UnfoldsFields label a trees → t.UnfoldsFields label b trees → a = b
  | _, _, _, .nil, .nil => rfl
  | _, _, _, .cons hn ha hs, .cons kn ka ks => by
    rw [distinct hn kn, ha.id_unique ht distinct ka, hs.ids_unique ht distinct ks]

end

/-- Each type comes after its parts, and the fields of records have labels. -/
structure Founded (t : TypeTable) (label : Name → Option κ) : Prop where
  part_lt : ∀ {id w}, t.get? id = some w → ∀ part ∈ w.parts, part.index < id.index
  labelled : ∀ {id fields}, t.get? id = some (.record fields) →
    ∀ f ∈ fields, (label f.1).isSome

/-- Parts come first, so unfolding ends at the leaves. -/
theorem Founded.exists_unfolds (h : t.Founded label) {id : TypeId} (live : (t.get? id).isSome) :
    ∃ tree, t.Unfolds label id tree := by
  obtain ⟨i⟩ := id
  induction i using Nat.strongRecOn with
  | ind i ih =>
    obtain ⟨w, hw⟩ := Option.isSome_iff_exists.1 live
    have part : ∀ p ∈ w.parts, ∃ tree, t.Unfolds label p tree := fun p hp => by
      have lt := h.part_lt hw p hp
      have size : i < t.items.size := (Table.isSome_get?_iff _ _).1 live
      exact ih p.index lt ((Table.isSome_get?_iff t.items p).2 (Nat.lt_trans lt size))
    cases w with
    | any => exact ⟨_, .any hw⟩
    | bitIn => exact ⟨_, .bitIn hw⟩
    | bitOut => exact ⟨_, .bitOut hw⟩
    | array element length =>
      obtain ⟨tree, ht⟩ := part element List.mem_cons_self
      exact ⟨_, .array hw ht⟩
    | record fields =>
      have unfolded : ∃ trees, t.UnfoldsFields label fields trees := by
        simp only [unfoldsFields_iff]
        refine exists_forall₂ fun f hf => ?_
        obtain ⟨k, hk⟩ := Option.isSome_iff_exists.1 (h.labelled hw f hf)
        obtain ⟨tree, ht⟩ := part f.2 (List.mem_map_of_mem hf)
        exact ⟨(k, tree), hk, ht⟩
      obtain ⟨trees, hts⟩ := unfolded
      exact ⟨_, .record hw hts⟩

end TypeTable

end Netlist
