-- What single steps do to a design. Each step leaves a design behind that grew out of
-- the one before, whether it succeeds or fails.
import Mathlib.Logic.Relation
import Netlist.Proofs.Growth

namespace Netlist

/-! ## Parts of the steps -/

/-- The namespace with a module registered in it. -/
def Namespace.addModule (ns : Namespace) (n : Name) (id : ModuleId) : Namespace :=
  { ns with modules := (ns.modules.insert n id).2 }

/-- The namespace with a generator registered in it. -/
def Namespace.addGenerator (ns : Namespace) (n : Name) (id : GeneratorId) : Namespace :=
  { ns with generators := (ns.generators.insert n id).2 }

namespace Design

/-- The design after a string got its name. -/
def withName (d : Design) (s : String) : Design := { d with names := (d.names.intern s).2 }

/-- The design after a type got its number. -/
def withType (d : Design) (t : WireType) : Design := { d with types := (d.types.intern t).2 }

/-- The design with one more namespace, which is empty. -/
def addNamespace (d : Design) (n : Name) : Design :=
  { d with
    namespaces := d.namespaces.push ⟨d.namespaces.nextId, n, ∅, ∅⟩
    scopes := d.scopes.insert n d.namespaces.nextId }

/-- The design with one more module, without a definition. -/
def addModule (d : Design) (scope : NamespaceId) (n : Name) (type : TypeId) (params : Params)
    (metadata : Metadata) : Design :=
  { d with
    modules := d.modules.push ⟨d.modules.nextId, n, scope, type, params, metadata, none⟩
    namespaces := d.namespaces.modify scope (·.addModule n d.modules.nextId) }

/-- The design with one more generator. -/
def addGenerator (d : Design) (scope : NamespaceId) (n : Name) (genparams params : Params)
    (metadata : Metadata) : Design :=
  { d with
    generators := d.generators.push ⟨d.generators.nextId, n, scope, genparams, params, metadata⟩
    namespaces := d.namespaces.modify scope (·.addGenerator n d.generators.nextId) }

/-- The design with a definition for a module. -/
def define (d : Design) (id : ModuleId) (definition : Definition) : Design :=
  { d with modules := d.modules.modify id fun m => { m with definition } }

variable {c d : Design}

/-! ## Growth by one part -/

theorem grows_withName (d : Design) (s : String) : d.Grows (d.withName s) :=
  { Grows.refl d with names := fun h => Pool.get?_intern_of_get? h }

theorem Regular.withName (h : d.Regular) (s : String) : (d.withName s).Regular :=
  { h with names := h.names.intern s }

theorem grows_withType (d : Design) (t : WireType) : d.Grows (d.withType t) :=
  { Grows.refl d with types := fun h => Pool.get?_intern_of_get? h }

theorem Regular.withType (h : d.Regular) (t : WireType) : (d.withType t).Regular :=
  { h with
    types := h.types.intern t
    leaves := Nat.le_trans h.leaves (Pool.size_le_size_intern d.types t) }

/-- What a table stands for is not changed by a thing that comes behind it. -/
theorem get?_push_of_get? {e : Entity} {α : Type} {t : Table e α} {h : Handle e} {a b : α}
    (ha : t.get? h = some a) : (t.push b).get? h = some a := by
  rw [Table.get?_push, if_neg (by have := Table.index_lt_of_get? ha; omega), ha]

theorem grows_addNamespace (d : Design) (n : Name) : d.Grows (d.addNamespace n) :=
  { Grows.refl d with
    namespaces := fun {_ ns} h => ⟨ns, get?_push_of_get? h, .refl ns⟩ }

theorem Regular.addNamespace (h : d.Regular) {n : Name} (fresh : d.scopes[n]? = none) :
    (d.addNamespace n).Regular := by
  have old_or_new {id : NamespaceId} {ns : Namespace}
      (hns : (d.addNamespace n).namespaces.get? id = some ns) :
      d.namespaces.get? id = some ns ∨
        ns = ⟨d.namespaces.nextId, n, ∅, ∅⟩ ∧ id = d.namespaces.nextId :=
    Table.get?_push_cases hns
  refine { h with scopes := fun k id => ?_, modules := fun hns => ?_, generators := fun hns => ?_ }
  · rw [Design.addNamespace, Std.ExtTreeMap.getElem?_insert]
    simp only [Std.LawfulEqOrd.compare_eq_iff_eq]
    constructor
    · intro found
      split at found
      · cases found
        exact ⟨_, Table.get?_push_nextId _ _, ‹n = k›⟩
      · obtain ⟨ns, hns, name⟩ := (h.scopes k id).1 found
        exact ⟨ns, get?_push_of_get? hns, name⟩
    · rintro ⟨ns, hns, name⟩
      rcases old_or_new hns with old | ⟨rfl, rfl⟩
      · have found := (h.scopes k id).2 ⟨ns, old, name⟩
        have other : n ≠ k := by
          rintro rfl
          cases fresh.symm.trans found
        rw [if_neg other, found]
      · exact if_pos name
  · rcases old_or_new hns with old | ⟨rfl, -⟩
    · exact h.modules old
    · exact NameMap.consistent_empty
  · rcases old_or_new hns with old | ⟨rfl, -⟩
    · exact h.generators old
    · exact NameMap.consistent_empty

/-- A namespace keeps its name when symbols are put in it. -/
theorem scopes_modify_iff {f : Namespace → Namespace} (hf : ∀ ns, (f ns).name = ns.name)
    (scope id : NamespaceId) (n : Name) :
    (∃ ns, (d.namespaces.modify scope f).get? id = some ns ∧ ns.name = n) ↔
      ∃ ns, d.namespaces.get? id = some ns ∧ ns.name = n := by
  rw [Table.get?_modify]
  split
  · constructor
    · rintro ⟨_, h, rfl⟩
      obtain ⟨ns, hns, rfl⟩ := Option.map_eq_some_iff.1 h
      exact ⟨ns, hns, (hf ns).symm⟩
    · rintro ⟨ns, hns, rfl⟩
      exact ⟨f ns, by rw [hns]; rfl, hf ns⟩
  · rfl

/-- Namespaces grow when each new symbol is put in behind the others. -/
theorem grows_modify_namespace {f : Namespace → Namespace} {scope : NamespaceId}
    (hf : ∀ ns, d.namespaces.get? scope = some ns → ns.Grows (f ns)) {id : NamespaceId}
    {ns : Namespace} (h : d.namespaces.get? id = some ns) :
    ∃ ns', (d.namespaces.modify scope f).get? id = some ns' ∧ ns.Grows ns' := by
  rw [Table.get?_modify, h]
  split
  · rename_i hid
    exact ⟨f ns, rfl, hf ns (hid ▸ h)⟩
  · exact ⟨ns, rfl, .refl ns⟩

theorem Regular.modifyNamespace (h : d.Regular) (scope : NamespaceId) {f : Namespace → Namespace}
    (name : ∀ ns, (f ns).name = ns.name)
    (modules : ∀ ns, ns.modules.Consistent → (f ns).modules.Consistent)
    (generators : ∀ ns, ns.generators.Consistent → (f ns).generators.Consistent) :
    { d with namespaces := d.namespaces.modify scope f }.Regular := by
  have old : ∀ {id ns}, (d.namespaces.modify scope f).get? id = some ns →
      ∃ ns', d.namespaces.get? id = some ns' ∧ (ns = ns' ∨ ns = f ns') := by
    intro id ns hns
    rw [Table.get?_modify] at hns
    split at hns
    · obtain ⟨ns', h', rfl⟩ := Option.map_eq_some_iff.1 hns
      exact ⟨ns', h', Or.inr rfl⟩
    · exact ⟨ns, hns, Or.inl rfl⟩
  refine { h with scopes := ?_, modules := ?_, generators := ?_ }
  · intro n id
    rw [h.scopes]
    exact (scopes_modify_iff name scope id n).symm
  · intro id ns hns
    obtain ⟨ns', h', rfl | rfl⟩ := old hns
    · exact h.modules h'
    · exact modules ns' (h.modules h')
  · intro id ns hns
    obtain ⟨ns', h', rfl | rfl⟩ := old hns
    · exact h.generators h'
    · exact generators ns' (h.generators h')

/-- Nothing in the namespace goes by this name yet. -/
def Free (d : Design) (scope : NamespaceId) (n : Name) : Prop :=
  ∃ ns, d.namespaces.get? scope = some ns ∧ ns.hasSymbol n = false

theorem Free.contains {scope : NamespaceId} {n : Name} (h : d.Free scope n) {ns : Namespace}
    (hns : d.namespaces.get? scope = some ns) :
    ns.modules.contains n = false ∧ ns.generators.contains n = false := by
  obtain ⟨_, hk, free⟩ := h
  rw [hns] at hk
  cases hk
  simpa [Namespace.hasSymbol] using free

theorem grows_addModule {scope : NamespaceId} {n : Name} (free : d.Free scope n) (type : TypeId)
    (params : Params) (metadata : Metadata) :
    d.Grows (d.addModule scope n type params metadata) :=
  { Grows.refl d with
    modules := fun {_ m} h => ⟨m, get?_push_of_get? h, .refl m⟩
    namespaces := grows_modify_namespace fun ns hns => by
      rw [Namespace.addModule, NameMap.insert_of_fresh (free.contains hns).1]
      exact ⟨rfl, rfl, by simp, List.prefix_refl _⟩ }

theorem Regular.addModule (h : d.Regular) (scope : NamespaceId) (n : Name) (type : TypeId)
    (params : Params) (metadata : Metadata) :
    (d.addModule scope n type params metadata).Regular :=
  { h.modifyNamespace scope (f := (·.addModule n d.modules.nextId)) (fun _ => rfl)
      (fun _ hns => hns.insert n _) (fun _ hns => hns) with }

theorem grows_addGenerator {scope : NamespaceId} {n : Name} (free : d.Free scope n)
    (genparams params : Params) (metadata : Metadata) :
    d.Grows (d.addGenerator scope n genparams params metadata) :=
  { Grows.refl d with
    generators := get?_push_of_get?
    namespaces := grows_modify_namespace fun ns hns => by
      rw [Namespace.addGenerator, NameMap.insert_of_fresh (free.contains hns).2]
      exact ⟨rfl, rfl, List.prefix_refl _, by simp⟩ }

theorem Regular.addGenerator (h : d.Regular) (scope : NamespaceId) (n : Name)
    (genparams params : Params) (metadata : Metadata) :
    (d.addGenerator scope n genparams params metadata).Regular :=
  { h.modifyNamespace scope (f := (·.addGenerator n d.generators.nextId)) (fun _ => rfl)
      (fun _ hns => hns) (fun _ hns => hns.insert n _) with }

/-- A module that has no definition may get one. -/
theorem grows_define {id : ModuleId} {m : Module} (hm : d.modules.get? id = some m)
    (hn : m.definition = none) (definition : Definition) : d.Grows (d.define id definition) :=
  { Grows.refl d with
    modules := fun {k m'} h => by
      rw [define, Table.get?_modify, h]
      split
      · rename_i hk
        subst hk
        rw [hm] at h
        cases h
        exact ⟨_, rfl, Or.inr ⟨hn, rfl⟩⟩
      · exact ⟨m', rfl, .refl m'⟩ }

theorem Regular.define (h : d.Regular) (id : ModuleId) (definition : Definition) :
    (d.define id definition).Regular :=
  { h with }

/-! ## Building -/

/-- One change of a design that is being built. What is named gets its name in the same
change. -/
inductive Move : Design → Design → Prop
  | name (d : Design) (s : String) : Move d (d.withName s)
  | type (d : Design) (t : WireType) : Move d (d.withType t)
  | scope {d : Design} {s : String}
      (fresh : (d.withName s).scopes[(d.names.intern s).1]? = none) :
      Move d ((d.withName s).addNamespace (d.names.intern s).1)
  | module {d : Design} {scope : NamespaceId} {s : String}
      (free : (d.withName s).Free scope (d.names.intern s).1) (type : TypeId) (params : Params)
      (metadata : Metadata) :
      Move d ((d.withName s).addModule scope (d.names.intern s).1 type params metadata)
  | generator {d : Design} {scope : NamespaceId} {s : String}
      (free : (d.withName s).Free scope (d.names.intern s).1) (genparams params : Params)
      (metadata : Metadata) :
      Move d ((d.withName s).addGenerator scope (d.names.intern s).1 genparams params metadata)
  | define {d : Design} {id : ModuleId} {m : Module} (hm : d.modules.get? id = some m)
      (undefined : m.definition = none) (definition : Definition) :
      Move d (d.define id definition)

/-- What comes of a design by building on. -/
def Builds : Design → Design → Prop := Relation.ReflTransGen Move

theorem Move.grows (h : Move c d) : c.Grows d := by
  cases h with
  | name s => exact grows_withName c s
  | type t => exact grows_withType c t
  | scope fresh => exact (grows_withName c _).trans (grows_addNamespace _ _)
  | module free => exact (grows_withName c _).trans (grows_addModule free ..)
  | generator free => exact (grows_withName c _).trans (grows_addGenerator free ..)
  | define hm undefined definition => exact grows_define hm undefined definition

theorem Move.regular (h : Move c d) (hc : c.Regular) : d.Regular := by
  cases h with
  | name s => exact hc.withName s
  | type t => exact hc.withType t
  | scope fresh => exact (hc.withName _).addNamespace fresh
  | module => exact (hc.withName _).addModule ..
  | generator => exact (hc.withName _).addGenerator ..
  | define _ _ definition => exact hc.define _ definition

theorem Builds.refl (d : Design) : d.Builds d := Relation.ReflTransGen.refl

theorem Builds.trans {b : Design} (h : b.Builds c) (k : c.Builds d) : b.Builds d :=
  Relation.ReflTransGen.trans h k

theorem Move.builds (h : Move c d) : c.Builds d := Relation.ReflTransGen.single h

theorem Builds.grows (h : c.Builds d) : c.Grows d := by
  induction h with
  | refl => exact .refl c
  | tail _ move ih => exact ih.trans move.grows

theorem Builds.regular (h : c.Builds d) (hc : c.Regular) : d.Regular := by
  induction h with
  | refl => exact hc
  | tail _ move ih => exact move.regular ih

/-- A relation that holds between a design and what comes of it by building, types apart. -/
class Leading (R : Design → Design → Prop) : Prop where
  refl (d : Design) : R d d
  trans {b c d : Design} : R b c → R c d → R b d
  move {c d : Design} (h : Move c d) (types : d.types = c.types) : R c d

instance : Leading Builds where
  refl := .refl
  trans := .trans
  move h _ := h.builds

end Design

/-! ## Running steps -/

namespace Edit

open Design

variable {ε ε' α β : Type} {d d' : Design}

theorem bind_of_ok {E S : Type} {x : EStateM E S α} {f : α → EStateM E S β} {a : α} {c c' : S}
    (h : x c = .ok a c') : (x >>= f) c = f a c' := by
  simp only [bind, EStateM.bind, h]

theorem bind_of_error {E S : Type} {x : EStateM E S α} {f : α → EStateM E S β} {e : E} {c c' : S}
    (h : x c = .error e c') : (x >>= f) c = .error e c' := by
  simp only [bind, EStateM.bind, h]

theorem seq_eq_ok_iff {E S : Type} {x : EStateM E S α} {f : α → EStateM E S β} {b : β} {c c' : S} :
    (x >>= f) c = .ok b c' ↔ ∃ a c₁, x c = .ok a c₁ ∧ f a c₁ = .ok b c' := by
  cases hx : x c with
  | error e c₁ => simp [bind_of_error hx]
  | ok a c₁ =>
    rw [bind_of_ok hx]
    constructor
    · exact fun h => ⟨a, c₁, rfl, h⟩
    · rintro ⟨_, _, ⟨⟩, h⟩
      exact h

/-- Two steps that go on alike after what comes of a first one are alike. -/
theorem seq_congr {E S : Type} {x : EStateM E S α} {f g : α → EStateM E S β} {c : S}
    (h : ∀ a c', x c = .ok a c' → f a c' = g a c') : (x >>= f) c = (x >>= g) c := by
  cases hx : x c with
  | ok a c' => rw [bind_of_ok hx, bind_of_ok hx, h a c' hx]
  | error e c' => rw [bind_of_error hx, bind_of_error hx]

theorem seq_congr_left {E S : Type} {x y : EStateM E S α} {c : S} (h : x c = y c)
    (f : α → EStateM E S β) : (x >>= f) c = (y >>= f) c := by
  simp only [bind, EStateM.bind, h]

theorem liftM_eq_ok_iff {r : Except ε α} {a : α} :
    (liftM r : Edit ε α) d = .ok a d' ↔ r = .ok a ∧ d = d' := by
  cases r with
  | error e =>
    constructor
    · intro h
      cases h
    · intro h
      cases h.1
  | ok b =>
    change EStateM.Result.ok b d = .ok a d' ↔ _
    simp

/-- A step on the design alone, where something is kept beside it. -/
def beside {S : Type} (step : Edit ε α) : EStateM (Failure ε) (Design × S) α := fun (d, c) =>
  match step d with
  | .ok a d' => .ok a (d', c)
  | .error e d' => .error e (d', c)

theorem beside_of_ok {S : Type} {step : Edit ε α} {a : α} (h : step d = .ok a d') (c : S) :
    beside step (d, c) = .ok a (d', c) := by
  rw [beside, h]

theorem beside_of_error {S : Type} {step : Edit ε α} {e : Failure ε} (h : step d = .error e d')
    (c : S) : beside step (d, c) = .error e (d', c) := by
  rw [beside, h]

theorem get_apply (d : Design) : (get : Edit ε Design) d = .ok d d := rfl

theorem live_apply (read : Design → Option α) (d : Design) :
    (live read : Edit ε α) d =
      match read d with
      | some a => .ok a d
      | none => .error .stale d := by
  unfold live
  rw [bind_of_ok (get_apply d)]
  cases read d <;> rfl

theorem live_of_some {read : Design → Option α} {a : α} (h : read d = some a) :
    (live read : Edit ε α) d = .ok a d := by
  rw [live_apply, h]

theorem live_eq_ok_iff {read : Design → Option α} {a : α} :
    (live read : Edit ε α) d = .ok a d' ↔ read d = some a ∧ d = d' := by
  rw [live_apply]
  cases read d <;> simp

theorem check_apply (f : Design → Except (Failure ε) α) (d : Design) :
    check f d =
      match f d with
      | .ok a => .ok a d
      | .error e => .error e d := by
  unfold check
  rw [bind_of_ok (get_apply d)]
  cases f d <;> rfl

theorem check_eq_ok_iff {f : Design → Except (Failure ε) α} {a : α} :
    check f d = .ok a d' ↔ f d = .ok a ∧ d = d' := by
  rw [check_apply]
  cases f d <;> simp

theorem fail_apply (e : ε) (d : Design) : (fail e : Edit ε α) d = .error (.error e) d := rfl

theorem failWith_apply (words : Design → Option ε) (d : Design) :
    (failWith words : Edit ε α) d = .error (.ofOption (words d)) d := rfl

theorem within_apply (f : ε → ε') (x : Edit ε α) (d : Design) :
    x.within f d =
      match x d with
      | .ok a d' => .ok a d'
      | .error e d' => .error (e.map f) d' := by
  unfold within EStateM.adaptExcept
  cases x d <;> rfl

theorem within_of_ok {f : ε → ε'} {x : Edit ε α} {a : α} (h : x d = .ok a d') :
    x.within f d = .ok a d' := by
  rw [within_apply, h]

theorem within_eq_ok_iff {f : ε → ε'} {x : Edit ε α} {a : α} :
    x.within f d = .ok a d' ↔ x d = .ok a d' := by
  rw [within_apply]
  cases x d <;> simp

theorem intern_apply (s : String) (d : Design) :
    (intern s : Edit ε Name) d = .ok (d.names.intern s).1 (d.withName s) := rfl

theorem array_apply (element : TypeId) (length : Nat) (d : Design) :
    (array element length : Edit ε TypeId) d =
      .ok (d.types.intern (.array element length)).1 (d.withType (.array element length)) := rfl

theorem openNamespace_apply (name : String) (d : Design) :
    (openNamespace name : Edit ε NamespaceId) d =
      match (d.withName name).scopes[(d.names.intern name).1]? with
      | some id => .ok id (d.withName name)
      | none =>
        .ok d.namespaces.nextId ((d.withName name).addNamespace (d.names.intern name).1) := by
  unfold openNamespace
  rw [bind_of_ok (intern_apply name d), bind_of_ok (get_apply _)]
  cases (d.withName name).scopes[(d.names.intern name).1]? <;> rfl

theorem requireFree_apply (scope : NamespaceId) (n : Name) (d : Design) :
    requireFree scope n d =
      match d.namespaces.get? scope with
      | none => .error .stale d
      | some ns =>
        if ns.hasSymbol n then
          .error (.ofOption do return .duplicateSymbol (← d.text? ns.name) (← d.text? n)) d
        else .ok () d := by
  unfold requireFree
  cases h : d.namespaces.get? scope with
  | none => rw [bind_of_error (by rw [live_apply, h])]
  | some ns =>
    rw [bind_of_ok (live_of_some h)]
    cases hs : ns.hasSymbol n <;> simp [hs] <;> rfl

theorem requireFree_of_free {scope : NamespaceId} {n : Name} (h : d.Free scope n) :
    requireFree scope n d = .ok () d := by
  obtain ⟨ns, hns, free⟩ := h
  rw [requireFree_apply, hns]
  simp [free]

theorem requireFree_of_not_free {scope : NamespaceId} {n : Name} (h : ¬ d.Free scope n) :
    ∃ e, requireFree scope n d = .error e d := by
  rw [requireFree_apply]
  cases hns : d.namespaces.get? scope with
  | none => exact ⟨_, rfl⟩
  | some ns =>
    cases free : ns.hasSymbol n with
    | false => exact absurd ⟨ns, hns, free⟩ h
    | true => exact ⟨_, if_pos free⟩

theorem declareModule_of_free {scope : NamespaceId} {name : String}
    (free : (d.withName name).Free scope (d.names.intern name).1) (type : TypeId)
    (params : Params) :
    declareModule scope name type params d =
      .ok d.modules.nextId
        ((d.withName name).addModule scope (d.names.intern name).1 type params ∅) := by
  unfold declareModule
  rw [bind_of_ok (intern_apply name d), bind_of_ok (requireFree_of_free free)]
  rfl

theorem declareModule_of_not_free {scope : NamespaceId} {name : String}
    (taken : ¬ (d.withName name).Free scope (d.names.intern name).1) (type : TypeId)
    (params : Params) :
    ∃ e, declareModule scope name type params d = .error e (d.withName name) := by
  obtain ⟨e, he⟩ := requireFree_of_not_free taken
  exact ⟨e, by unfold declareModule; rw [bind_of_ok (intern_apply name d), bind_of_error he]⟩

theorem declareGenerator_of_free {scope : NamespaceId} {name : String}
    (free : (d.withName name).Free scope (d.names.intern name).1) (genparams params : Params) :
    declareGenerator scope name genparams params d =
      .ok d.generators.nextId
        ((d.withName name).addGenerator scope (d.names.intern name).1 genparams params ∅) := by
  unfold declareGenerator
  rw [bind_of_ok (intern_apply name d), bind_of_ok (requireFree_of_free free)]
  rfl

theorem declareGenerator_of_not_free {scope : NamespaceId} {name : String}
    (taken : ¬ (d.withName name).Free scope (d.names.intern name).1) (genparams params : Params) :
    ∃ e, declareGenerator scope name genparams params d = .error e (d.withName name) := by
  obtain ⟨e, he⟩ := requireFree_of_not_free taken
  exact ⟨e, by unfold declareGenerator; rw [bind_of_ok (intern_apply name d), bind_of_error he]⟩

/-- The metadata of the newest module can as well be given when it is declared. -/
theorem setModuleMetadata_addModule (scope : NamespaceId) (n : Name) (type : TypeId)
    (params : Params) (metadata : Metadata) :
    (setModuleMetadata d.modules.nextId metadata : Edit ε Unit)
        (d.addModule scope n type params ∅) =
      .ok () (d.addModule scope n type params metadata) := by
  unfold setModuleMetadata
  rw [bind_of_ok (live_of_some ((Table.get?_push _ _ _).trans (if_pos rfl)))]
  refine congrArg (EStateM.Result.ok ()) ?_
  simp only [Design.addModule, Table.modify_push_nextId]

theorem setGeneratorMetadata_addGenerator (scope : NamespaceId) (n : Name)
    (genparams params : Params) (metadata : Metadata) :
    (setGeneratorMetadata d.generators.nextId metadata : Edit ε Unit)
        (d.addGenerator scope n genparams params ∅) =
      .ok () (d.addGenerator scope n genparams params metadata) := by
  unfold setGeneratorMetadata
  rw [bind_of_ok (live_of_some ((Table.get?_push _ _ _).trans (if_pos rfl)))]
  refine congrArg (EStateM.Result.ok ()) ?_
  simp only [Design.addGenerator, Table.modify_push_nextId]

theorem attach_apply (definition : Definition) (d : Design) :
    attach definition d =
      match d.modules.get? definition.owner with
      | none => .error .stale d
      | some m =>
        if m.definition.isSome then
          .error (.ofOption ((d.qualifiedName? (.module definition.owner)).map fun q =>
            .definitionMismatch q "module already has a definition")) d
        else .ok () (d.define definition.owner definition) := by
  unfold attach
  cases hm : d.modules.get? definition.owner with
  | none => rw [bind_of_error (by rw [live_apply, hm])]
  | some m =>
    rw [bind_of_ok (live_of_some hm)]
    cases hs : m.definition.isSome <;> simp [hs] <;> rfl

/-! ## How a step ended -/

section

variable {σ : Type} {r : EStateM.Result (Failure ε) σ α} {s : σ}

/-- The answer of a step that succeeded, and what it left behind. -/
def answer? : EStateM.Result (Failure ε) σ α → Option (α × σ)
  | .ok a s => some (a, s)
  | .error _ _ => none

/-- The error of a step that failed, unless it read a stale handle. -/
def refusal? : EStateM.Result (Failure ε) σ α → Option ε
  | .error (.error e) _ => some e
  | .error .stale _ | .ok _ _ => none

theorem answer?_eq_some_iff {a : α} : answer? r = some (a, s) ↔ r = .ok a s := by
  cases r <;> simp [answer?]

theorem refusal?_eq_some_iff {e : ε} : refusal? r = some e ↔ ∃ s, r = .error (.error e) s := by
  cases r with
  | ok a s => simp [refusal?]
  | error f s => cases f <;> simp [refusal?]

end

/-! ## Steps only build -/

/-- The design that a step leaves behind, whether it succeeds or fails. -/
def left (step : Edit ε α) (d : Design) : Design :=
  match step d with
  | .ok _ d => d
  | .error _ d => d

/-- Whatever a step does, the design that it leaves stands in this relation to the one before. -/
def Leads (R : Design → Design → Prop) (step : Edit ε α) : Prop :=
  ∀ d : Design, R d (step.left d)

/-- Whatever a step does, it leaves a design behind that came by building. -/
abbrev OnlyGrows (step : Edit ε α) : Prop := Leads Builds step

theorem OnlyGrows.regular {x : Edit ε α} (h : OnlyGrows x) (hd : d.Regular) : (x.left d).Regular :=
  (h d).regular hd

theorem OnlyGrows.grows {x : Edit ε α} (h : OnlyGrows x) (d : Design) : d.Grows (x.left d) :=
  (h d).grows

theorem left_of_ok {x : Edit ε α} {a : α} (h : x d = .ok a d') : x.left d = d' := by
  rw [left, h]

theorem left_of_error {x : Edit ε α} {e : Failure ε} (h : x d = .error e d') : x.left d = d' := by
  rw [left, h]

theorem Leads.within {R : Design → Design → Prop} {x : Edit ε α} (hx : Leads R x)
    (f : ε → ε') : Leads R (x.within f) := fun d => by
  have : (x.within f).left d = x.left d := by
    rw [left, within_apply, left]
    cases x d <;> rfl
  rw [this]
  exact hx d

section

variable {R : Design → Design → Prop} [Leading R]

/-- A step that leaves the design as it is. -/
theorem Leads.of_left_eq {x : Edit ε α} (h : ∀ d, x.left d = d) : Leads R x := fun d => by
  rw [h]
  exact Leading.refl d

theorem Leads.pure (a : α) : Leads R (pure a : Edit ε α) := .of_left_eq fun _ => rfl

theorem Leads.fail (e : ε) : Leads R (fail e : Edit ε α) := .of_left_eq fun _ => rfl

theorem left_ofExcept (x : Except ε α) (d : Design) : (ofExcept x).left d = d := by
  cases x <;> rfl

theorem Leads.ofExcept (x : Except ε α) : Leads R (ofExcept x) :=
  .of_left_eq (left_ofExcept x)

theorem Leads.failWith (words : Design → Option ε) : Leads R (failWith words : Edit ε α) :=
  .of_left_eq fun _ => rfl

theorem Leads.live (read : Design → Option α) : Leads R (live read : Edit ε α) :=
  .of_left_eq fun d => by
    rw [left, live_apply]
    cases read d <;> rfl

theorem left_check (f : Design → Except (Failure ε) α) (d : Design) : (check f).left d = d := by
  rw [left, check_apply]
  cases f d <;> rfl

theorem Leads.check (f : Design → Except (Failure ε) α) : Leads R (check f) :=
  .of_left_eq (left_check f)

theorem Leads.bind {x : Edit ε α} {f : α → Edit ε β} (hx : Leads R x)
    (hf : ∀ a, Leads R (f a)) : Leads R (x >>= f) := fun d => by
  have first := hx d
  cases h : x d with
  | error e d' =>
    rw [left_of_error h] at first
    rw [left_of_error (bind_of_error h)]
    exact first
  | ok a d' =>
    rw [left_of_ok h] at first
    rw [left, bind_of_ok h]
    exact Leading.trans first (hf a d')

theorem Leads.intern (s : String) : Leads R (intern s : Edit ε Name) := fun d =>
  Leading.move (.name d s) rfl

theorem Leads.internAll (words : List String) :
    Leads R (internAll words : Edit ε (List Name)) := by
  induction words with
  | nil => exact .pure _
  | cons s rest ih => exact (Leads.intern s).bind fun _ => ih.bind fun _ => .pure _

theorem Leads.openNamespace (name : String) :
    Leads R (openNamespace name : Edit ε NamespaceId) := fun d => by
  rw [left, openNamespace_apply]
  cases h : (d.withName name).scopes[(d.names.intern name).1]? with
  | some id => exact Leading.move (.name d name) rfl
  | none => exact Leading.move (.scope h) rfl

theorem Leads.declareModule (scope : NamespaceId) (name : String) (type : TypeId)
    (params : Params) : Leads R (declareModule scope name type params) := fun d => by
  by_cases free : (d.withName name).Free scope (d.names.intern name).1
  · rw [left_of_ok (declareModule_of_free free type params)]
    exact Leading.move (.module free ..) rfl
  · obtain ⟨e, he⟩ := declareModule_of_not_free free type params
    rw [left_of_error he]
    exact Leading.move (.name d name) rfl

theorem Leads.declareGenerator (scope : NamespaceId) (name : String)
    (genparams params : Params) :
    Leads R (declareGenerator scope name genparams params) := fun d => by
  by_cases free : (d.withName name).Free scope (d.names.intern name).1
  · rw [left_of_ok (declareGenerator_of_free free genparams params)]
    exact Leading.move (.generator free ..) rfl
  · obtain ⟨e, he⟩ := declareGenerator_of_not_free free genparams params
    rw [left_of_error he]
    exact Leading.move (.name d name) rfl

theorem Leads.attach (definition : Definition) : Leads R (attach definition) := fun d => by
  rw [left, attach_apply]
  cases hm : d.modules.get? definition.owner with
  | none => exact Leading.refl d
  | some m =>
    cases hn : m.definition with
    | some _ => simpa [hn] using Leading.refl (R := R) d
    | none => simpa [hn] using Leading.move (R := R) (.define hm hn definition) rfl

end

theorem OnlyGrows.array (element : TypeId) (length : Nat) :
    OnlyGrows (array element length : Edit ε TypeId) := fun d => (Move.type d _).builds

theorem OnlyGrows.record (fields : List (String × TypeId)) : OnlyGrows (record fields) := by
  refine (Leads.internAll _).bind fun names d => ?_
  rw [left, bind_of_ok (get_apply d), TypeTable.record]
  cases TypeTable.firstRepeat ((names.zip (fields.map (·.2))).map (·.1)) with
  | some n => exact .refl d
  | none => exact (Move.type d _).builds

end Edit

end Netlist
