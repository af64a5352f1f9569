-- Renamings carried through maps. Where no name is taken for two others, looking up, setting
-- and cutting give results that are again taken for each other. And a renaming that takes
-- more for each other keeps what a smaller one has related.
import Netlist.Proofs.Mirror.Basic
import Netlist.Proofs.Renaming

namespace Netlist

section

variable {α β : Type} {R : α → β → Prop} {x : Option α} {y : Option β}

theorem isSome_eq_of_rel (h : Option.Rel R x y) : x.isSome = y.isSome := by
  cases h <;> rfl

/-- Related values stay related when they are mapped alike. -/
theorem rel_map {γ δ : Type} {S : γ → δ → Prop} {f : α → γ} {g : β → δ} (h : Option.Rel R x y)
    (hRS : ∀ a b, R a b → S (f a) (g b)) : Option.Rel S (x.map f) (y.map g) := by
  cases h with
  | none => exact .none
  | some same => exact .some (hRS _ _ same)

/-- What is related is so in a weaker sense. -/
theorem rel_imp {S : α → β → Prop} (h : Option.Rel R x y) (hRS : ∀ a b, R a b → S a b) :
    Option.Rel S x y := by
  simpa using rel_map (f := id) (g := id) h hRS

theorem getD_of_rel (h : Option.Rel R x y) {a : α} {b : β} (hab : R a b) :
    R (x.getD a) (y.getD b) := by
  cases h with
  | none => exact hab
  | some same => exact same

variable {as : List α} {bs : List β}

theorem rel_getElem? (h : List.Forall₂ R as bs) (i : Nat) : Option.Rel R as[i]? bs[i]? := by
  induction h generalizing i with
  | nil => exact .none
  | cons here _ ih =>
    cases i with
    | zero => exact .some here
    | succ i => exact ih i

theorem forall₂_set (h : List.Forall₂ R as bs) (i : Nat) {a : α} {b : β} (hab : R a b) :
    List.Forall₂ R (as.set i a) (bs.set i b) := by
  induction h generalizing i with
  | nil => exact .nil
  | cons here rest ih =>
    cases i with
    | zero => exact .cons hab rest
    | succ i => exact .cons here (ih i)

theorem forall₂_modify (h : List.Forall₂ R as bs) (i : Nat) {f : α → α} {g : β → β}
    (hfg : ∀ {a b}, R a b → R (f a) (g b)) : List.Forall₂ R (as.modify i f) (bs.modify i g) := by
  induction h generalizing i with
  | nil => simp
  | cons here rest ih =>
    cases i with
    | zero => simpa using ⟨hfg here, rest⟩
    | succ i => simpa using ⟨here, ih i⟩

/-- What is sought comes first at the same place. -/
theorem findIdx?_eq_of_forall₂ {p : α → Bool} {q : β → Bool}
    (h : List.Forall₂ (fun a b => p a = q b) as bs) : as.findIdx? p = bs.findIdx? q := by
  induction h with
  | nil => rfl
  | cons here _ ih => rw [List.findIdx?_cons, List.findIdx?_cons, here, ih]

end

namespace Renaming

/-! ## Renamings that take more -/

/-- What the first one takes for each other, the second one takes as well. -/
instance : LE Renaming := ⟨fun r q => ∀ ⦃e : Entity⦄ ⦃a b : Handle e⦄, r.takes a b → q.takes a b⟩

variable {r q : Renaming}

theorem le_refl (r : Renaming) : r ≤ r := fun _ _ _ same => same

theorem le_trans {p : Renaming} (h : r ≤ q) (k : q ≤ p) : r ≤ p :=
  fun _ _ _ same => k (h same)

variable {α β : Type} {R S : α → β → Prop}

section

variable (h : r ≤ q)
include h

theorem SameEntries.mono (hRS : ∀ {a b}, R a b → S a b) {es : List (Name × α)}
    {ks : List (Name × β)} (same : r.SameEntries R es ks) : q.SameEntries S es ks :=
  same.imp fun _ _ here => ⟨h here.1, hRS here.2⟩

theorem SameType.mono {w v : WireType} (same : r.SameType w v) : q.SameType w v := by
  cases same with
  | any => exact .any
  | bitIn => exact .bitIn
  | bitOut => exact .bitOut
  | array element length => exact .array (h element) length
  | record fields => exact .record (SameEntries.mono h (fun same => h same) fields)

theorem SameArg.mono {a b : Arg} (same : r.SameArg a b) : q.SameArg a b := by
  cases same with
  | int i => exact .int i
  | string s => exact .string s
  | type same => exact .type (h same)

theorem SameTarget.mono {t u : Target} (same : r.SameTarget t u) : q.SameTarget t u := by
  cases same with
  | module same => exact .module (h same)
  | generator same => exact .generator (h same)

theorem SameParams.mono {params params' : Params} (same : r.SameParams params params') :
    q.SameParams params params' :=
  SameEntries.mono h (fun same => same) same

theorem SameArgs.mono {args args' : Args} (same : r.SameArgs args args') :
    q.SameArgs args args' :=
  SameEntries.mono h (fun same => same.mono h) same

theorem SameInstance.mono {i j : Instance} (same : r.SameInstance i j) : q.SameInstance i j where
  name := h same.name
  target := same.target.mono h
  config := same.config.mono h
  genargs := rel_imp same.genargs fun _ _ args => SameArgs.mono h args
  metadata := same.metadata

theorem SamePath.mono {p p' : WirePath} (same : r.SamePath p p') : q.SamePath p p' :=
  List.Forall₂.imp (fun _ _ here => h here) same

theorem SameConnection.mono {c k : Connection} (same : r.SameConnection c k) :
    q.SameConnection c k :=
  ⟨same.first.mono h, same.second.mono h, same.metadata⟩

theorem SameDefinition.mono {x y : Definition} (same : r.SameDefinition x y) :
    q.SameDefinition x y where
  owner := h same.owner
  instances := SameEntries.mono h (fun i => SameInstance.mono h i) same.instances
  connections := same.connections.imp fun _ _ c => SameConnection.mono h c
  implementations := same.implementations
  metadata := same.metadata

theorem SameModule.mono {m k : Module} (same : r.SameModule m k) : q.SameModule m k where
  id := h same.id
  name := h same.name
  scope := h same.scope
  type := h same.type
  params := same.params.mono h
  metadata := same.metadata
  definition := rel_imp same.definition fun _ _ x => SameDefinition.mono h x

theorem SameGenerator.mono {g k : Generator} (same : r.SameGenerator g k) :
    q.SameGenerator g k where
  id := h same.id
  name := h same.name
  scope := h same.scope
  genparams := same.genparams.mono h
  params := same.params.mono h
  metadata := same.metadata

theorem SameNamespace.mono {ns k : Namespace} (same : r.SameNamespace ns k) :
    q.SameNamespace ns k where
  id := h same.id
  name := h same.name
  modules := SameEntries.mono h (fun same => h same) same.modules
  generators := SameEntries.mono h (fun same => h same) same.generators

end

/-! ## Entries under names that are taken for each other -/

section

variable {es : List (Name × α)} {ks : List (Name × β)} {n k : Name}

/-- Values under names that are taken for each other one by one. -/
theorem SameEntries.zip {ns ks : List Name} (names : List.Forall₂ r.takes ns ks) {as : List α}
    {R : α → α → Prop} (values : ∀ a ∈ as, R a a) : r.SameEntries R (ns.zip as) (ks.zip as) := by
  induction names generalizing as with
  | nil => exact .nil
  | cons first _ ih =>
    cases as with
    | nil => exact .nil
    | cons a rest =>
      rw [List.forall_mem_cons] at values
      exact .cons ⟨first, values.1⟩ (ih values.2)

/-- A name that is taken for no other one is not among the entries. -/
theorem SameEntries.not_mem_left (h : r.SameEntries R es ks) (alone : ∀ k, ¬ r.takes n k) :
    n ∉ Assoc.keys es := by
  intro hn
  obtain ⟨e, he, rfl⟩ := List.mem_map.1 hn
  obtain ⟨l, -, same, -⟩ := exists_of_forall₂ h he
  exact alone l.1 same

theorem SameEntries.not_mem_right (h : r.SameEntries R es ks) (alone : ∀ n, ¬ r.takes n k) :
    k ∉ Assoc.keys ks := by
  intro hk
  obtain ⟨l, hl, rfl⟩ := List.mem_map.1 hk
  obtain ⟨e, -, same, -⟩ := exists_of_forall₂ h.flip hl
  exact alone e.1 same

variable (once : Relator.BiUnique (r.takes (e := .name))) {a : α} {b : β}
include once

theorem name_eq_iff {n' k' : Name} (same : r.takes n k) (same' : r.takes n' k') :
    n = n' ↔ k = k' :=
  Relator.rel_eq once same same'

theorem SameEntries.get? (h : r.SameEntries R es ks) (same : r.takes n k) :
    Option.Rel R (Assoc.get? n es) (Assoc.get? k ks) := by
  induction h with
  | nil => exact .none
  | cons here _ ih =>
    rw [Assoc.get?, Assoc.get?]
    have names := name_eq_iff once here.1 same
    split
    · rw [if_pos (names.1 ‹_›)]
      exact .some here.2
    · rw [if_neg fun he => ‹¬ _› (names.2 he)]
      exact ih

theorem SameEntries.mem_keys_iff (h : r.SameEntries R es ks) (same : r.takes n k) :
    n ∈ Assoc.keys es ↔ k ∈ Assoc.keys ks := by
  rw [← Assoc.isSome_get?_iff, ← Assoc.isSome_get?_iff, isSome_eq_of_rel (h.get? once same)]

theorem SameEntries.set (h : r.SameEntries R es ks) (same : r.takes n k) (hab : R a b) :
    r.SameEntries R (Assoc.set n a es) (Assoc.set k b ks) := by
  induction h with
  | nil => exact .cons ⟨same, hab⟩ .nil
  | cons here rest ih =>
    rw [Assoc.set, Assoc.set]
    have names := name_eq_iff once here.1 same
    split
    · rw [if_pos (names.1 ‹_›)]
      exact .cons ⟨here.1, hab⟩ rest
    · rw [if_neg fun he => ‹¬ _› (names.2 he)]
      exact .cons here ih

theorem SameEntries.modify {f : α → α} {g : β → β} (h : r.SameEntries R es ks)
    (same : r.takes n k) (hfg : ∀ {a b}, R a b → R (f a) (g b)) :
    r.SameEntries R (Assoc.modify n f es) (Assoc.modify k g ks) := by
  refine List.forall₂_map_left_iff.2 (List.forall₂_map_right_iff.2 (h.imp fun e l here => ?_))
  have names := name_eq_iff once here.1 same
  split
  · rw [if_pos (names.1 ‹_›)]
    exact ⟨here.1, hfg here.2⟩
  · rw [if_neg fun he => ‹¬ _› (names.2 he)]
    exact here

theorem SameEntries.setAll {es' : List (Name × α)} {ks' : List (Name × β)}
    (h : r.SameEntries R es ks) (more : r.SameEntries R es' ks') :
    r.SameEntries R (Assoc.setAll es es') (Assoc.setAll ks ks') := by
  induction more generalizing es ks with
  | nil => exact h
  | cons here _ ih => exact ih (h.set once here.1 here.2)

end

/-! ## Maps -/

/-- Consistent maps with entries in the same order, under names that are taken for each
other. -/
structure SameMap (r : Renaming) (R : α → β → Prop) (m : NameMap α) (k : NameMap β) : Prop where
  left : m.Consistent
  right : k.Consistent
  entries : r.SameEntries R m.toList k.toList

namespace SameMap

variable {m : NameMap α} {l : NameMap β}

theorem empty : r.SameMap R (∅ : NameMap α) (∅ : NameMap β) :=
  ⟨NameMap.consistent_empty, NameMap.consistent_empty, .nil⟩

theorem mono (h : r ≤ q) (hRS : ∀ {a b}, R a b → S a b) (same : r.SameMap R m l) :
    q.SameMap S m l :=
  ⟨same.left, same.right, same.entries.mono h hRS⟩

theorem size (h : r.SameMap R m l) : m.size = l.size := by
  rw [← NameMap.length_toList, ← NameMap.length_toList, h.entries.length_eq]

theorem take (h : r.SameMap R m l) (n : Nat) : r.SameMap R (m.take n) (l.take n) := by
  refine ⟨h.left.take n, h.right.take n, ?_⟩
  rw [NameMap.toList_take, NameMap.toList_take]
  exact List.forall₂_take n h.entries

variable {n k : Name}

/-- A name that is taken for no other one is not in the map. -/
theorem contains_left (h : r.SameMap R m l) (alone : ∀ k, ¬ r.takes n k) :
    m.contains n = false := by
  rw [h.left.contains_eq_false_iff]
  exact h.entries.not_mem_left alone

theorem contains_right (h : r.SameMap R m l) (alone : ∀ n, ¬ r.takes n k) :
    l.contains k = false := by
  rw [h.right.contains_eq_false_iff]
  exact h.entries.not_mem_right alone

theorem get?_left (h : r.SameMap R m l) (alone : ∀ k, ¬ r.takes n k) : m.get? n = none := by
  rw [h.left.get?_eq_none_iff]
  exact h.entries.not_mem_left alone

theorem get?_right (h : r.SameMap R m l) (alone : ∀ n, ¬ r.takes n k) : l.get? k = none := by
  rw [h.right.get?_eq_none_iff]
  exact h.entries.not_mem_right alone

variable (once : Relator.BiUnique (r.takes (e := .name))) {a : α} {b : β}
include once

theorem get? (h : r.SameMap R m l) (same : r.takes n k) :
    Option.Rel R (m.get? n) (l.get? k) := by
  rw [h.left.get?_eq, h.right.get?_eq]
  exact h.entries.get? once same

theorem contains (h : r.SameMap R m l) (same : r.takes n k) : m.contains n = l.contains k := by
  rw [Bool.eq_iff_iff, h.left.contains_iff, h.right.contains_iff]
  exact h.entries.mem_keys_iff once same

theorem insert (h : r.SameMap R m l) (same : r.takes n k) (hab : R a b) :
    r.SameMap R (m.insert n a).2 (l.insert k b).2 := by
  refine ⟨h.left.insert n a, h.right.insert k b, ?_⟩
  rw [h.left.toList_insert, h.right.toList_insert]
  exact h.entries.set once same hab

theorem tryInsert (h : r.SameMap R m l) (same : r.takes n k) (hab : R a b) :
    Option.Rel (r.SameMap R) (m.tryInsert? n a) (l.tryInsert? k b) := by
  have free := h.contains once same
  rw [NameMap.tryInsert?, NameMap.tryInsert?, free]
  split
  · exact .none
  · rename_i fresh
    have fresh' : l.contains k = false := by simpa using fresh
    refine .some ⟨h.left.append (free.trans fresh') a, h.right.append fresh' b, ?_⟩
    rw [NameMap.toList_append, NameMap.toList_append]
    exact List.rel_append h.entries (.cons ⟨same, hab⟩ .nil)

theorem modify {f : α → α} {g : β → β} (h : r.SameMap R m l) (same : r.takes n k)
    (hfg : ∀ {a b}, R a b → R (f a) (g b)) : r.SameMap R (m.modify n f) (l.modify k g) := by
  refine ⟨h.left.modify n f, h.right.modify k g, ?_⟩
  rw [h.left.toList_modify, h.right.toList_modify]
  exact h.entries.modify once same hfg

theorem ofList {es : List (Name × α)} {ks : List (Name × β)} (h : r.SameEntries R es ks) :
    r.SameMap R (NameMap.ofList es) (NameMap.ofList ks) := by
  refine ⟨NameMap.consistent_ofList es, NameMap.consistent_ofList ks, ?_⟩
  rw [NameMap.toList_ofList, NameMap.toList_ofList]
  exact SameEntries.setAll once .nil h

end SameMap

/-! ## Parameters and arguments -/

/-- Parameters that are the same, and can be looked up. -/
abbrev TwinParams (r : Renaming) (params params' : Params) : Prop := r.SameMap Eq params params'

/-- Arguments that are the same, and can be looked up. -/
abbrev TwinArgs (r : Renaming) (args args' : Args) : Prop := r.SameMap r.SameArg args args'

theorem TwinParams.mono {params params' : Params} (same : r.TwinParams params params')
    (h : r ≤ q) : q.TwinParams params params' :=
  SameMap.mono h id same

theorem TwinArgs.mono {args args' : Args} (same : r.TwinArgs args args') (h : r ≤ q) :
    q.TwinArgs args args' :=
  SameMap.mono h (fun same => same.mono h) same

/-- The same thing is wrong with arguments. -/
inductive SameMismatch (r : Renaming) : Params.Mismatch → Params.Mismatch → Prop
  | missing {n k : Name} (same : r.takes n k) : SameMismatch r (.missing n) (.missing k)
  | wrongKind {n k : Name} (same : r.takes n k) (expected found : ParamKind) :
    SameMismatch r (.wrongKind n expected found) (.wrongKind k expected found)
  | unexpected {n k : Name} (same : r.takes n k) : SameMismatch r (.unexpected n) (.unexpected k)

theorem SameArg.kind {a b : Arg} (same : r.SameArg a b) : a.kind = b.kind := by
  cases same <;> rfl

variable (once : Relator.BiUnique (r.takes (e := .name))) {args args' : Args}
  {params params' : Params}
include once

theorem sameMismatch_unmet (same : r.TwinArgs args args')
    {ps ps' : List (Name × ParamKind)} (h : r.SameEntries Eq ps ps') :
    Option.Rel r.SameMismatch (Params.unmet? args ps) (Params.unmet? args' ps') := by
  induction h with
  | nil => exact .none
  | @cons p p' _ _ here _ ih =>
    obtain ⟨n, kind⟩ := p
    obtain ⟨k, kind'⟩ := p'
    obtain ⟨name, ⟨⟩⟩ := here
    rw [Params.unmet?, Params.unmet?]
    rcases rel_cases (same.get? once name) with ⟨ha, hb⟩ | ⟨a, b, ha, hb, arg⟩
    · rw [ha, hb]
      exact .some (.missing name)
    · simp only [ha, hb, arg.kind]
      split
      · exact ih
      · exact .some (.wrongKind name kind b.kind)

theorem sameMismatch_undeclared (same : r.TwinParams params params')
    {as bs : List (Name × Arg)} (h : r.SameEntries r.SameArg as bs) :
    Option.Rel r.SameMismatch
      (((as.map (·.1)).find? fun n => !params.contains n).map .unexpected)
      (((bs.map (·.1)).find? fun n => !params'.contains n).map .unexpected) := by
  induction h with
  | nil => exact .none
  | cons here _ ih =>
    rw [List.map_cons, List.map_cons, List.find?_cons, List.find?_cons,
      same.contains once here.1]
    split
    · exact .some (.unexpected here.1)
    · exact ih

/-- What is wrong with arguments is told alike. -/
theorem sameMismatch (params_same : r.TwinParams params params')
    (args_same : r.TwinArgs args args') :
    Option.Rel r.SameMismatch (params.mismatch? args) (params'.mismatch? args') := by
  rw [Params.mismatch?, Params.mismatch?]
  rcases rel_cases (sameMismatch_unmet once args_same params_same.entries) with
    ⟨none, none'⟩ | ⟨_, _, some, some', same⟩
  · rw [none, none']
    exact sameMismatch_undeclared once params_same args_same.entries
  · rw [some, some']
    exact .some same

end Renaming

end Netlist
