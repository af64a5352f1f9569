-- Twin designs. They hold the same under the same numbers, but for the numbers of names: one
-- of them may have met more strings, or in another order. Whatever is asked of twins has the
-- same answer, and whatever is put in both of them, or taken from both, leaves twins.
import Netlist.Proofs.Session
import Netlist.Proofs.Twins.Entries

namespace Netlist

/-- Takes names of one text for each other, and every other number for itself. -/
def Renaming.spelled (t u : NameTable) : Renaming where
  takes {e} :=
    match e with
    | .name => SameLabel t.text? u.text?
    | .type | .scope | .module | .generator => Eq

namespace Renaming

/-- Names that are taken for each other still are when both tables have kept their texts. -/
theorem spelled_le {t u t' u' : NameTable} (left : ∀ {n s}, t.text? n = some s → t'.text? n = some s)
    (right : ∀ {n s}, u.text? n = some s → u'.text? n = some s) :
    Renaming.spelled t u ≤ .spelled t' u' := by
  intro e a b same
  cases e with
  | name =>
    obtain ⟨s, hs, hs'⟩ := same
    exact ⟨s, left hs, right hs'⟩
  | _ => exact same

variable (r : Renaming)

/-- The namespaces are the same, and their symbols can be looked up. -/
structure TwinNamespace (ns k : Namespace) : Prop extends r.SameNamespace ns k where
  modules_map : r.SameMap r.takes ns.modules k.modules
  generators_map : r.SameMap r.takes ns.generators k.generators

/-- The modules are the same, and their parameters can be looked up. -/
structure TwinModule (m k : Module) : Prop extends r.SameModule m k where
  params_map : r.TwinParams m.params k.params

structure TwinGenerator (g k : Generator) : Prop extends r.SameGenerator g k where
  genparams_map : r.TwinParams g.genparams k.genparams
  params_map : r.TwinParams g.params k.params

variable {r} {q : Renaming} (h : r ≤ q)
include h

theorem TwinNamespace.mono {ns k : Namespace} (same : r.TwinNamespace ns k) :
    q.TwinNamespace ns k :=
  { same.toSameNamespace.mono h with
    modules_map := same.modules_map.mono h fun same => h same
    generators_map := same.generators_map.mono h fun same => h same }

theorem TwinModule.mono {m k : Module} (same : r.TwinModule m k) : q.TwinModule m k :=
  { same.toSameModule.mono h with params_map := same.params_map.mono h }

theorem TwinGenerator.mono {g k : Generator} (same : r.TwinGenerator g k) :
    q.TwinGenerator g k :=
  { same.toSameGenerator.mono h with
    genparams_map := same.genparams_map.mono h
    params_map := same.params_map.mono h }

end Renaming

namespace Design

/-- Takes names of one text for each other. -/
abbrev spelled (c d : Design) : Renaming := .spelled c.names d.names

/-- Two designs that hold the same under the same numbers, but for the numbers of names. -/
structure Twins (c d : Design) : Prop where
  left : c.Regular
  right : d.Regular
  self : (c.spelled d).takes selfName selfName
  types : ∀ id, Option.Rel (c.spelled d).SameType (c.types.get? id) (d.types.get? id)
  namespaces : ∀ id,
    Option.Rel (c.spelled d).TwinNamespace (c.namespaces.get? id) (d.namespaces.get? id)
  modules : ∀ id, Option.Rel (c.spelled d).TwinModule (c.modules.get? id) (d.modules.get? id)
  generators : ∀ id,
    Option.Rel (c.spelled d).TwinGenerator (c.generators.get? id) (d.generators.get? id)

end Design

/-! ## Tables -/

namespace Table

variable {e : Entity} {α β : Type} {R : α → β → Prop} {t : Table e α} {u : Table e β}

/-- Tables with related things under the same numbers have one size. -/
theorem size_eq_of_rel (h : ∀ id, Option.Rel R (t.get? id) (u.get? id)) : t.size = u.size := by
  have same : ∀ i, i < t.size ↔ i < u.size := fun i => by
    rw [← t.isSome_get?_iff ⟨i⟩, ← u.isSome_get?_iff ⟨i⟩, isSome_eq_of_rel (h ⟨i⟩)]
  have := same t.size
  have := same u.size
  omega

theorem forall₂_of_rel (h : ∀ id, Option.Rel R (t.get? id) (u.get? id)) :
    List.Forall₂ R t.toList u.toList := by
  refine List.forall₂_iff_get.2 ⟨by simpa using size_eq_of_rel h, fun i hi hi' => ?_⟩
  have here := h ⟨i⟩
  rw [get?_eq_toList, get?_eq_toList, List.getElem?_eq_getElem hi,
    List.getElem?_eq_getElem hi'] at here
  cases here with
  | some same => exact same

theorem rel_push (h : ∀ id, Option.Rel R (t.get? id) (u.get? id)) {a : α} {b : β} (hab : R a b)
    (id : Handle e) : Option.Rel R ((t.push a).get? id) ((u.push b).get? id) := by
  rw [get?_push, get?_push, size_eq_of_rel h]
  split
  · exact .some hab
  · exact h id

theorem rel_modify (h : ∀ id, Option.Rel R (t.get? id) (u.get? id)) (k : Handle e) {f : α → α}
    {g : β → β} (hfg : ∀ {a b}, R a b → R (f a) (g b)) (id : Handle e) :
    Option.Rel R ((t.modify k f).get? id) ((u.modify k g).get? id) := by
  rw [get?_modify, get?_modify]
  split
  · exact rel_map (h id) fun _ _ => hfg
  · exact h id

theorem rel_take (h : ∀ id, Option.Rel R (t.get? id) (u.get? id)) (n : Nat) (id : Handle e) :
    Option.Rel R ((t.take n).get? id) ((u.take n).get? id) := by
  rw [get?_take, get?_take]
  split
  · exact h id
  · exact .none

theorem rel_mapWithIndex (h : ∀ id, Option.Rel R (t.get? id) (u.get? id)) {f : Nat → α → α}
    {g : Nat → β → β} (hfg : ∀ {i a b}, R a b → R (f i a) (g i b)) (id : Handle e) :
    Option.Rel R ((t.mapWithIndex f).get? id) ((u.mapWithIndex g).get? id) := by
  rw [get?_mapWithIndex, get?_mapWithIndex]
  exact rel_map (h id) fun _ _ => hfg

end Table

/-! ## What twins answer -/

namespace Design.Twins

variable {c d : Design}

section

variable (h : c.Twins d)
include h

/-- No name is taken for two others. -/
theorem once : Relator.BiUnique ((c.spelled d).takes (e := .name)) :=
  biUnique_sameLabel h.left.names.get?_injective h.right.names.get?_injective

omit h in
theorem text {n k : Name} (same : (c.spelled d).takes n k) : c.text? n = d.text? k := by
  obtain ⟨s, hn, hk⟩ := same
  exact hn.trans hk.symm

theorem types_size : c.types.size = d.types.size := Table.size_eq_of_rel h.types

/-- A type has one tree in both. -/
theorem treeWithin (fuel : Nat) (id : TypeId) : c.treeWithin? fuel id = d.treeWithin? fuel id := by
  induction fuel generalizing id with
  | zero => rfl
  | succ fuel ih =>
    rw [Design.treeWithin?, Design.treeWithin?]
    rcases rel_cases (h.types id) with ⟨hw, hv⟩ | ⟨w, v, hw, hv, same⟩
    · simp only [hw, hv, Option.bind_eq_bind, Option.bind_none]
    · simp only [hw, hv, Option.bind_eq_bind, Option.bind_some]
      cases same with
      | any | bitIn | bitOut => rfl
      | array element length =>
        cases element
        exact congrArg (·.bind fun t => some (TypeTree.array length t)) (ih _)
      | record fields =>
        have trees := mapM_eq_of_forall₂ (fields.imp fun f g here => show
          (do return (← c.text? f.1, ← c.treeWithin? fuel f.2)) =
            (do return (← d.text? g.1, ← d.treeWithin? fuel g.2)) by
          rw [text here.1, ih, show f.2 = g.2 from here.2])
        exact congrArg (·.bind fun ts => some (TypeTree.record ts)) trees

theorem agrees : (c.spelled d).Agrees c d where
  text := text
  tree same := by
    cases same
    rw [Design.typeTree?, Design.typeTree?, h.types_size, h.treeWithin]
  scope same := by
    cases same
    exact rel_imp (h.namespaces _) fun _ _ same => same.toSameNamespace
  module same := by
    cases same
    exact rel_imp (h.modules _) fun _ _ same => same.toSameModule
  generator same := by
    cases same
    exact rel_imp (h.generators _) fun _ _ same => same.toSameGenerator
  namespaces := (Table.forall₂_of_rel h.namespaces).imp fun _ _ same => same.toSameNamespace

omit h in
theorem sameTarget (t : Target) : (c.spelled d).SameTarget t t := by
  cases t with
  | module id => exact .module rfl
  | generator id => exact .generator rfl

theorem qualifiedName (t : Target) : c.qualifiedName? t = d.qualifiedName? t :=
  h.agrees.qualifiedName (sameTarget t)

theorem typeTree (id : TypeId) : c.typeTree? id = d.typeTree? id := h.agrees.tree rfl

theorem document (top : ModuleId) : c.document? top = d.document? top := h.agrees.document rfl

theorem configParams (t : Target) :
    Option.Rel (c.spelled d).TwinParams (c.configParams? t) (d.configParams? t) := by
  cases t with
  | module id => exact rel_map (h.modules id) fun _ _ same => same.params_map
  | generator id => exact rel_map (h.generators id) fun _ _ same => same.params_map

/-- The parts of one type are the parts of one type. -/
theorem sameType_iff {w v w' v' : WireType} (same : (c.spelled d).SameType w v)
    (same' : (c.spelled d).SameType w' v') : w = w' ↔ v = v' := by
  cases same with
  | any => cases same' <;> simp
  | bitIn => cases same' <;> simp
  | bitOut => cases same' <;> simp
  | array element length =>
    cases element
    cases same' with
    | array element' length' => cases element'; exact Iff.rfl
    | _ => simp
  | record fields =>
    cases same' with
    | record fields' =>
      have unique : ∀ {a b a' b' : Name × TypeId},
          (c.spelled d).takes a.1 b.1 ∧ (c.spelled d).takes a.2 b.2 →
            (c.spelled d).takes a'.1 b'.1 ∧ (c.spelled d).takes a'.2 b'.2 → (a = a' ↔ b = b') := by
        intro a b a' b' here here'
        rw [Prod.ext_iff, Prod.ext_iff, Renaming.name_eq_iff h.once here.1 here'.1,
          show a.2 = b.2 from here.2, show a'.2 = b'.2 from here'.2]
      rw [WireType.record.injEq, WireType.record.injEq, eq_iff_of_forall₂ unique fields fields']
    | _ => simp

/-- A type is found under one number in both. -/
theorem find?_type {w v : WireType} (same : (c.spelled d).SameType w v) :
    c.types.find? w = d.types.find? v := by
  refine Option.ext fun id => ?_
  rw [h.left.types, h.right.types]
  rcases rel_cases (h.types id) with ⟨hw, hv⟩ | ⟨w', v', hw, hv, same'⟩
  · rw [Pool.get?, Pool.get?] at *
    simp [hw, hv]
  · rw [Pool.get?, Pool.get?] at *
    rw [hw, hv, Option.some.injEq, Option.some.injEq, h.sameType_iff same' same]

/-- A name stands for one namespace in both. -/
theorem scope_eq {n k : Name} (same : (c.spelled d).takes n k) : c.scopes[n]? = d.scopes[k]? := by
  refine Option.ext fun id => ?_
  rw [h.left.scopes, h.right.scopes]
  rcases rel_cases (h.namespaces id) with ⟨hns, hns'⟩ | ⟨ns, ns', hns, hns', agree⟩
  · simp [hns, hns']
  · simp only [hns, hns', Option.some.injEq, exists_eq_left']
    exact Renaming.name_eq_iff h.once agree.name same

theorem scopeText (id : NamespaceId) : c.scopeText? id = d.scopeText? id := by
  rw [Design.scopeText?, Design.scopeText?]
  rcases rel_cases (h.namespaces id) with ⟨hns, hns'⟩ | ⟨ns, ns', hns, hns', agree⟩
  · rw [hns, hns', Option.bind_none, Option.bind_none]
  · rw [hns, hns', Option.bind_some, Option.bind_some, text agree.name]

/-- A string names one namespace in both. -/
theorem namespaceId (name : String) : c.namespaceId? name = d.namespaceId? name :=
  Option.ext fun id => by
    rw [h.left.namespaceId_eq_some_iff, h.right.namespaceId_eq_some_iff, h.scopeText]

theorem hasSymbol {ns ns' : Namespace} (agree : (c.spelled d).TwinNamespace ns ns') {n k : Name}
    (same : (c.spelled d).takes n k) : ns.hasSymbol n = ns'.hasSymbol k := by
  rw [Namespace.hasSymbol, Namespace.hasSymbol, agree.modules_map.contains h.once same,
    agree.generators_map.contains h.once same]

/-- A name stands for one symbol in both. -/
theorem symbol {ns ns' : Namespace} (agree : (c.spelled d).TwinNamespace ns ns') {n k : Name}
    (same : (c.spelled d).takes n k) : ns.symbol? n = ns'.symbol? k := by
  rw [Namespace.symbol?, Namespace.symbol?]
  rcases rel_cases (agree.modules_map.get? h.once same) with ⟨hm, hm'⟩ | ⟨_, _, hm, hm', ⟨⟩⟩
  · rw [hm, hm']
    rcases rel_cases (agree.generators_map.get? h.once same) with
      ⟨hg, hg'⟩ | ⟨_, _, hg, hg', ⟨⟩⟩ <;> rw [hg, hg']
  · rw [hm, hm']

/-- A string that only one of the designs has met is the name of nothing in them. -/
theorem elim_find? {α : Type} (s : String) {f g : Name → α} {a : α}
    (both : ∀ {n k}, (c.spelled d).takes n k → f n = g k)
    (left : ∀ {n}, (∀ k, ¬ (c.spelled d).takes n k) → f n = a)
    (right : ∀ {k}, (∀ n, ¬ (c.spelled d).takes n k) → g k = a) :
    (c.names.find? s).elim a f = (d.names.find? s).elim a g := by
  cases hn : c.names.find? s with
  | none =>
    cases hk : d.names.find? s with
    | none => rfl
    | some k =>
      refine (right ?_).symm
      rintro n ⟨t, ht, ht'⟩
      cases ht'.symm.trans ((h.right.names s k).1 hk)
      cases hn.symm.trans ((h.left.names s n).2 ht)
  | some n =>
    have text := (h.left.names s n).1 hn
    cases hk : d.names.find? s with
    | none =>
      refine left ?_
      rintro k ⟨t, ht, ht'⟩
      cases ht.symm.trans text
      cases hk.symm.trans ((h.right.names s k).2 ht')
    | some k => exact both ⟨s, text, (h.right.names s k).1 hk⟩

/-- What a name stands for in a namespace is looked up with one answer. -/
theorem lookup (scope name : String) : c.lookup? scope name = d.lookup? scope name := by
  have unfold_elim : ∀ {d : Design} {id}, d.namespaceId? scope = some id →
      d.lookup? scope name = (d.names.find? name).elim (some none) fun n =>
        (d.namespaces.get? id).map fun ns => ns.symbol? n := fun {d id} hid => by
    rw [Design.lookup?, hid]
    cases d.names.find? name <;> rfl
  cases hid : d.namespaceId? scope with
  | none => rw [Design.lookup?, Design.lookup?, h.namespaceId, hid]
  | some id =>
    rw [unfold_elim ((h.namespaceId scope).trans hid), unfold_elim hid]
    obtain ⟨n, -, found⟩ := Option.bind_eq_some_iff.1 hid
    obtain ⟨ns', hns', -⟩ := (h.right.scopes n id).1 found
    rcases rel_cases (h.namespaces id) with ⟨-, absent⟩ | ⟨ns, _, hns, present, agree⟩
    · cases absent.symm.trans hns'
    cases present.symm.trans hns'
    rw [hns, hns']
    refine h.elim_find? name (fun same => congrArg some (h.symbol agree same)) (fun alone => ?_)
      (fun alone => ?_)
    · change some (ns.symbol? _) = some none
      rw [Namespace.symbol?, agree.modules_map.get?_left alone, agree.generators_map.get?_left alone]
      rfl
    · change some (Namespace.symbol? _ _) = some none
      rw [Namespace.symbol?, agree.modules_map.get?_right alone,
        agree.generators_map.get?_right alone]
      rfl

theorem snapshot : c.snapshot = d.snapshot := by
  have symbols : c.snapshot.symbols = d.snapshot.symbols := by
    refine Array.ext_getElem? fun i => ?_
    rw [symbols_snapshot, symbols_snapshot]
    rcases rel_cases (h.namespaces ⟨i⟩) with ⟨hns, hns'⟩ | ⟨ns, ns', hns, hns', agree⟩
    · rw [hns, hns']
    · rw [hns, hns', Option.map_some, Option.map_some, agree.modules_map.size,
        agree.generators_map.size]
  have defined : c.snapshot.defined = d.snapshot.defined := by
    refine Array.ext_getElem? fun i => ?_
    rw [defined_snapshot, defined_snapshot]
    rcases rel_cases (h.modules ⟨i⟩) with ⟨hm, hm'⟩ | ⟨m, m', hm, hm', agree⟩
    · rw [hm, hm']
    · rw [hm, hm', Option.map_some, Option.map_some, isSome_eq_of_rel agree.definition]
  rw [Design.snapshot, Design.snapshot, Snapshot.mk.injEq]
  exact ⟨h.types_size, Table.size_eq_of_rel h.namespaces, Table.size_eq_of_rel h.modules,
    Table.size_eq_of_rel h.generators, symbols, defined⟩

/-! ## What leaves twins -/

/-- More strings may have been met on either side. -/
theorem withNames {t u : NameTable} (ht : t.Consistent) (hu : u.Consistent)
    (more : c.spelled d ≤ .spelled t u) :
    { c with names := t }.Twins { d with names := u } where
  left := { h.left with names := ht }
  right := { h.right with names := hu }
  self := more h.self
  types id := rel_imp (h.types id) fun _ _ same => same.mono more
  namespaces id := rel_imp (h.namespaces id) fun _ _ same => same.mono more
  modules id := rel_imp (h.modules id) fun _ _ same => same.mono more
  generators id := rel_imp (h.generators id) fun _ _ same => same.mono more

omit h in
theorem le_withName (c d : Design) (s : String) :
    c.spelled d ≤ (c.withName s).spelled (d.withName s) :=
  Renaming.spelled_le Pool.get?_intern_of_get? Pool.get?_intern_of_get?

theorem withName (s : String) : (c.withName s).Twins (d.withName s) :=
  h.withNames (h.left.names.intern s) (h.right.names.intern s) (le_withName c d s)

/-- The names that a string gets are taken for each other. -/
theorem takes_intern (s : String) :
    ((c.withName s).spelled (d.withName s)).takes (c.names.intern s).1 (d.names.intern s).1 :=
  ⟨s, h.left.names.get?_intern s, h.right.names.get?_intern s⟩

theorem intern_type {w v : WireType} (same : (c.spelled d).SameType w v) :
    (c.types.intern w).1 = (d.types.intern v).1 := by
  have found := h.find?_type same
  unfold Pool.intern
  rw [found]
  cases d.types.find? v with
  | some id => rfl
  | none => exact congrArg Handle.mk h.types_size

theorem withType {w v : WireType} (same : (c.spelled d).SameType w v) :
    (c.withType w).Twins (d.withType v) :=
  { h with
    left := h.left.withType w
    right := h.right.withType v
    types := fun id => by
      have found := h.find?_type same
      simp only [Design.withType, Pool.intern]
      rw [found]
      cases d.types.find? v with
      | some _ => exact h.types id
      | none => exact Table.rel_push h.types same id }

theorem addNamespace {n k : Name} (same : (c.spelled d).takes n k) (fresh : c.scopes[n]? = none) :
    (c.addNamespace n).Twins (d.addNamespace k) :=
  { h with
    left := h.left.addNamespace fresh
    right := h.right.addNamespace (h.scope_eq same ▸ fresh)
    namespaces := Table.rel_push h.namespaces
      { id := congrArg Handle.mk (Table.size_eq_of_rel h.namespaces)
        name := same
        modules := .nil
        generators := .nil
        modules_map := .empty
        generators_map := .empty } }

theorem addModule (scope : NamespaceId) {n k : Name} (same : (c.spelled d).takes n k)
    (type : TypeId) {params params' : Params}
    (params_same : (c.spelled d).TwinParams params params') (metadata : Metadata) :
    (c.addModule scope n type params metadata).Twins
      (d.addModule scope k type params' metadata) := by
  have id : c.modules.nextId = d.modules.nextId := congrArg Handle.mk (Table.size_eq_of_rel h.modules)
  refine { h with
    left := h.left.addModule ..
    right := h.right.addModule ..
    modules := Table.rel_push h.modules
      { id, name := same, scope := rfl, type := rfl, params := params_same.entries,
        metadata := rfl, definition := .none, params_map := params_same }
    namespaces := Table.rel_modify h.namespaces scope fun agree => ?_ }
  have map := agree.modules_map.insert h.once same id
  exact { agree with modules := map.entries, modules_map := map }

theorem addGenerator (scope : NamespaceId) {n k : Name} (same : (c.spelled d).takes n k)
    {genparams genparams' params params' : Params}
    (genparams_same : (c.spelled d).TwinParams genparams genparams')
    (params_same : (c.spelled d).TwinParams params params') (metadata : Metadata) :
    (c.addGenerator scope n genparams params metadata).Twins
      (d.addGenerator scope k genparams' params' metadata) := by
  have id : c.generators.nextId = d.generators.nextId :=
    congrArg Handle.mk (Table.size_eq_of_rel h.generators)
  refine { h with
    left := h.left.addGenerator ..
    right := h.right.addGenerator ..
    generators := Table.rel_push h.generators
      { id, name := same, scope := rfl, genparams := genparams_same.entries,
        params := params_same.entries, metadata := rfl, genparams_map := genparams_same,
        params_map := params_same }
    namespaces := Table.rel_modify h.namespaces scope fun agree => ?_ }
  have map := agree.generators_map.insert h.once same id
  exact { agree with generators := map.entries, generators_map := map }

theorem define (id : ModuleId) {x y : Definition} (same : (c.spelled d).SameDefinition x y) :
    (c.define id x).Twins (d.define id y) :=
  { h with
    left := h.left.define id x
    right := h.right.define id y
    modules := Table.rel_modify h.modules id fun agree =>
      { agree with definition := .some same } }

theorem annotateModule (id : ModuleId) (metadata : Metadata) :
    { c with modules := c.modules.modify id fun m => { m with metadata } }.Twins
      { d with modules := d.modules.modify id fun m => { m with metadata } } :=
  { h with
    left := { h.left with }
    right := { h.right with }
    modules := Table.rel_modify h.modules id fun agree => { agree with metadata := rfl } }

theorem annotateGenerator (id : GeneratorId) (metadata : Metadata) :
    { c with generators := c.generators.modify id fun g => { g with metadata } }.Twins
      { d with generators := d.generators.modify id fun g => { g with metadata } } :=
  { h with
    left := { h.left with }
    right := { h.right with }
    generators := Table.rel_modify h.generators id fun agree => { agree with metadata := rfl } }

/-- Twins that are cut back to one extent are twins. -/
theorem restore (s : Snapshot) : (c.restore s).Twins (d.restore s) :=
  { h with
    left := h.left.restore s
    right := h.right.restore s
    types := Table.rel_take h.types _
    generators := Table.rel_take h.generators _
    modules := Table.rel_mapWithIndex (Table.rel_take h.modules _) fun {i m k} agree => by
      unfold restoreModule
      split
      · exact { agree with definition := .none }
      · exact agree
    namespaces := Table.rel_mapWithIndex (Table.rel_take h.namespaces _) fun {i ns k} agree => by
      unfold restoreNamespace
      split
      · exact { agree with
          modules := (agree.modules_map.take _).entries
          generators := (agree.generators_map.take _).entries
          modules_map := agree.modules_map.take _
          generators_map := agree.generators_map.take _ }
      · exact agree }

end

end Design.Twins

end Netlist
