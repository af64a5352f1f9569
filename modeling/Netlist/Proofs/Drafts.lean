-- Definitions under construction. What is checked when an instance or a connection is
-- added is enough to keep the definition sound, and a refused call leaves it alone.
import Netlist.Proofs.Building

namespace Netlist

/-! ## Arguments that fit -/

namespace Params

theorem unmet?_eq_none_iff (args : Args) (l : List (Name × ParamKind)) :
    unmet? args l = none ↔ ∀ e ∈ l, ∃ a, args.get? e.1 = some a ∧ a.kind = e.2 := by
  induction l with
  | nil => simp [unmet?]
  | cons e rest ih =>
    obtain ⟨n, kind⟩ := e
    rw [unmet?]
    cases ha : args.get? n with
    | none => simp [ha]
    | some a => by_cases hk : a.kind = kind <;> simp [ha, hk, ih]

theorem undeclared?_eq_none_iff (params : Params) (args : Args) :
    undeclared? params args = none ↔ ∀ n ∈ args.names, params.contains n = true := by
  simp [undeclared?, List.find?_eq_none]

/-- Arguments fit if each parameter has one of its kind, and there are no others. -/
theorem fits_iff (params : Params) (args : Args) :
    params.Fits args ↔ (∀ e ∈ params.toList, ∃ a, args.get? e.1 = some a ∧ a.kind = e.2) ∧
      ∀ n ∈ args.names, params.contains n = true := by
  rw [Fits, mismatch?, Option.or_eq_none_iff, unmet?_eq_none_iff, undeclared?_eq_none_iff]

theorem check_eq_ok_iff {params : Params} {args : Args} {target : String} {names : NameTable} :
    params.check args target names = .ok () ↔ params.Fits args := by
  unfold check Fits
  cases params.mismatch? args <;> simp

end Params

/-! ## Changing the first of its kind -/

section

variable {α β : Type} {sought : α → Bool} {f : α → α} {new : α} {l : List α}

/-- Changes the first thing that is sought, or puts a new one at the end. -/
def updateFirst (sought : α → Bool) (f : α → α) (new : α) : List α → List α
  | [] => [new]
  | a :: rest => if sought a then f a :: rest else a :: updateFirst sought f new rest

theorem updateFirst_eq : updateFirst sought f new l =
    match l.findIdx? sought with
    | some i => l.modify i f
    | none => l ++ [new] := by
  induction l with
  | nil => rfl
  | cons a rest ih =>
    rw [updateFirst, List.findIdx?_cons]
    cases sought a with
    | true => rfl
    | false =>
      rw [ih]
      cases rest.findIdx? sought <;> rfl

theorem updateFirst_of_none (h : ∀ a ∈ l, sought a = false) :
    updateFirst sought f new l = l ++ [new] := by
  rw [updateFirst_eq, List.findIdx?_eq_none_iff.2 h]

/-- What the change leaves alone is left alone everywhere. -/
theorem map_updateFirst {g : α → β} (hg : ∀ a, g (f a) = g a) (h : ∃ a ∈ l, sought a = true) :
    (updateFirst sought f new l).map g = l.map g := by
  induction l with
  | nil => simp at h
  | cons a rest ih =>
    rw [updateFirst]
    split
    · rw [List.map_cons, List.map_cons, hg]
    · rename_i ha
      obtain ⟨b, hb, hs⟩ := h
      rcases List.mem_cons.1 hb with rfl | hb
      · exact absurd hs ha
      · rw [List.map_cons, List.map_cons, ih ⟨b, hb, hs⟩]

theorem forall_mem_updateFirst {P : α → Prop} (old : ∀ a ∈ l, P a)
    (changed : ∀ a ∈ l, sought a = true → P (f a)) (last : P new) :
    ∀ a ∈ updateFirst sought f new l, P a := by
  induction l with
  | nil => simpa [updateFirst] using last
  | cons a rest ih =>
    rw [updateFirst]
    rw [List.forall_mem_cons] at old changed
    split
    · exact List.forall_mem_cons.2 ⟨changed.1 ‹_›, old.2⟩
    · exact List.forall_mem_cons.2 ⟨old.1, ih old.2 changed.2⟩

end

variable {d : Design} {x : Definition}

/-! ## Names of modules and generators -/

namespace Design

theorem symbolText_eq_some_iff {t : Target} {r : String × String} : d.symbolText? t = some r ↔
    ∃ scope n ns, d.placeOf? t = some (scope, n) ∧ d.namespaces.get? scope = some ns ∧
      d.text? ns.name = some r.1 ∧ d.text? n = some r.2 := by
  obtain ⟨s, w⟩ := r
  simp only [symbolText?, symbolOf?, Option.bind_eq_bind, Option.pure_def, Option.bind_eq_some_iff,
    Option.some.injEq, Prod.mk.injEq, Prod.exists]
  constructor
  · rintro ⟨_, _, ⟨scope, n, hp, ns, hns, rfl, rfl⟩, _, hs, _, hw, rfl, rfl⟩
    exact ⟨scope, n, ns, hp, hns, hs, hw⟩
  · rintro ⟨scope, n, ns, hp, hns, hs, hw⟩
    exact ⟨_, _, ⟨scope, n, hp, ns, hns, rfl, rfl⟩, _, hs, _, hw, rfl, rfl⟩

theorem Sound.symbolText_module (h : d.Sound) {id : ModuleId} {m : Module}
    (hm : d.modules.get? id = some m) :
    ∃ scope name, d.symbolText? (.module id) = some (scope, name) ∧ d.text? m.name = some name := by
  have sound := h.moduleSound hm
  obtain ⟨ns, hns, -⟩ := sound.scope
  obtain ⟨scope, hs⟩ := Option.isSome_iff_exists.1 (h.namespaceSound hns).name
  obtain ⟨name, hn⟩ := Option.isSome_iff_exists.1 sound.name
  exact ⟨scope, name, symbolText_eq_some_iff.2
    ⟨m.scope, m.name, ns, by simp [placeOf?, hm], hns, hs, hn⟩, hn⟩

theorem Sound.symbolText_generator (h : d.Sound) {id : GeneratorId} {g : Generator}
    (hg : d.generators.get? id = some g) :
    ∃ scope name, d.symbolText? (.generator id) = some (scope, name) ∧
      d.text? g.name = some name := by
  have sound := h.generatorSound hg
  obtain ⟨ns, hns, -⟩ := sound.scope
  obtain ⟨scope, hs⟩ := Option.isSome_iff_exists.1 (h.namespaceSound hns).name
  obtain ⟨name, hn⟩ := Option.isSome_iff_exists.1 sound.name
  exact ⟨scope, name, symbolText_eq_some_iff.2
    ⟨g.scope, g.name, ns, by simp [placeOf?, hg], hns, hs, hn⟩, hn⟩

theorem qualifiedName_of_symbolText {t : Target} {scope name : String}
    (h : d.symbolText? t = some (scope, name)) :
    d.qualifiedName? t = some (scope ++ "." ++ name) := by
  simp [qualifiedName?, h]

end Design

/-! ## Adding instances -/

namespace Definition

open Edit Design

theorem insertInstance_apply (x : Definition) (i : Instance) (d : Design) :
    x.insertInstance i d =
      if i.name = selfName then .error (.error (.reservedInstanceName selfWord)) d
      else if x.instances.contains i.name then
        .error (.ofOption do
          return .duplicateInstance (← d.qualifiedName? (.module x.owner)) (← d.text? i.name)) d
      else .ok ({ x with instances := x.instances.append i.name i }, i) d := by
  unfold insertInstance NameMap.tryInsert?
  split
  · rfl
  · cases x.instances.contains i.name <;> rfl

theorem addInstance_apply (x : Definition) (name : String) {id : ModuleId} (config : Args)
    {m : Module} (hm : d.modules.get? id = some m) {label : String}
    (hl : d.qualifiedName? (.module id) = some label) :
    x.addInstance name id config d =
      match m.params.mismatch? config with
      | none => x.insertInstance ⟨(d.names.intern name).1, .module id, config, none, ∅⟩
          (d.withName name)
      | some e => .error (.ofOption (e.toError? d.names label)) d := by
  unfold addInstance
  rw [bind_of_ok (live_of_some hm), bind_of_ok (live_of_some hl)]
  cases hf : m.params.mismatch? config with
  | none => rw [bind_of_ok (by rw [check_apply, Params.check, hf])]; rfl
  | some e => rw [bind_of_error (by rw [check_apply, Params.check, hf])]

theorem addGeneratorInstance_apply (x : Definition) (name : String) {id : GeneratorId}
    (genargs config : Args) {g : Generator} (hg : d.generators.get? id = some g) {label : String}
    (hl : d.qualifiedName? (.generator id) = some label) :
    x.addGeneratorInstance name id genargs config d =
      match (g.genparams.mismatch? genargs).or (g.params.mismatch? config) with
      | none => x.insertInstance
          ⟨(d.names.intern name).1, .generator id, config, some genargs, ∅⟩ (d.withName name)
      | some e => .error (.ofOption (e.toError? d.names label)) d := by
  unfold addGeneratorInstance
  rw [bind_of_ok (live_of_some hl), bind_of_ok (live_of_some hg)]
  cases hf : g.genparams.mismatch? genargs with
  | some e => rw [bind_of_error (by rw [check_apply, Params.check, hf])]; rfl
  | none =>
    rw [bind_of_ok (by rw [check_apply, Params.check, hf])]
    cases hf : g.params.mismatch? config with
    | none => rw [bind_of_ok (by rw [check_apply, Params.check, hf])]; rfl
    | some e => rw [bind_of_error (by rw [check_apply, Params.check, hf])]; rfl

theorem SoundEnd.of_contains {y : Definition} {p : WirePath} (h : x.SoundEnd d p)
    (contains : ∀ n, x.instances.contains n = true → y.instances.contains n = true) :
    y.SoundEnd d p :=
  { h with root := h.root.imp_right (contains _) }

/-- A definition stays sound with one more sound instance under a new name. -/
theorem Sound.append (h : x.Sound d) {i : Instance} (hi : i.Sound d) (text : (d.text? i.name).isSome)
    (other : i.name ≠ selfName) (fresh : x.instances.contains i.name = false) :
    { x with instances := x.instances.append i.name i }.Sound d := by
  have contains : ∀ n, x.instances.contains n = true →
      (x.instances.append i.name i).contains n = true :=
    fun n hn => (NameMap.contains_append ..).2 (Or.inr hn)
  exact
    { h with
      instances :=
        ⟨h.instances.consistent.append fresh i, NameMap.forall_append h.instances.named text⟩
      instance_name := NameMap.forall_append h.instance_name ⟨rfl, other⟩
      instance_sound := NameMap.forall_append h.instance_sound hi
      ends := fun c hc =>
        ⟨(h.ends c hc).1.of_contains contains, (h.ends c hc).2.of_contains contains⟩ }

/-! ## Connecting -/

/-- The terminals of a connection decide which links it is. -/
def ends (c : Connection) : WirePath × WirePath := (c.first, c.second)

/-- Whether two pairs of terminals are the same, in either order. -/
def sameEnds {α : Type} [DecidableEq α] (e f : α × α) : Bool :=
  e.1 == f.1 && e.2 == f.2 || e.1 == f.2 && e.2 == f.1

theorem toList_linked (connections : Array Connection) (a b : WirePath) (metadata : Metadata) :
    (linked connections a b metadata).1.toList =
      updateFirst (·.links a b) (fun c => { c with metadata := c.metadata.extend metadata })
        ⟨a, b, Metadata.extend ∅ metadata⟩ connections.toList := by
  obtain ⟨cs⟩ := connections
  rw [updateFirst_eq, linked, List.findIdx?_toArray]
  cases cs.findIdx? (·.links a b) with
  | none => simp
  | some i => simp

theorem checkEnd_eq {p : WirePath} {root : String} (hr : d.text? p.root = some root) :
    x.checkEnd d p =
      if root = "" then .error (.error .emptyWirePath)
      else if p.root = selfName ∨ x.instances.contains p.root = true then .ok ()
      else .error (.ofOption ((d.qualifiedName? (.module x.owner)).map fun owner =>
        .unknownInstance owner root)) := by
  unfold checkEnd
  simp only [hr, String.isEmpty_iff]

theorem soundEnd_of_checkEnd {p : WirePath} (named : ∀ n ∈ p.root :: p.selectors, (d.text? n).isSome)
    (h : x.checkEnd d p = .ok ()) : x.SoundEnd d p := by
  obtain ⟨root, hr⟩ := Option.isSome_iff_exists.1 (named p.root List.mem_cons_self)
  rw [checkEnd_eq hr] at h
  split at h
  · cases h
  · rename_i full
    split at h
    · exact ⟨‹_›, fun he => full (Option.some.inj (hr.symm.trans he)), named⟩
    · cases h

/-- What holds of the connections, with more metadata or not, holds after a link is put in. -/
theorem forall_linked {connections : Array Connection} {a b : WirePath} {metadata : Metadata}
    {P : Connection → Prop} (old : ∀ c ∈ connections.toList, P c)
    (merged : ∀ c ∈ connections.toList, P { c with metadata := c.metadata.extend metadata })
    (new : P ⟨a, b, Metadata.extend ∅ metadata⟩) :
    ∀ c ∈ (linked connections a b metadata).1.toList, P c := by
  rw [toList_linked]
  exact forall_mem_updateFirst old (fun c hc _ => merged c hc) new

/-- No two connections link the same terminals. -/
def Unlinked (connections : List Connection) : Prop :=
  connections.Pairwise fun c k => c.links k.first k.second = false

theorem Unlinked.of_ends {l k : List Connection} (h : Unlinked k) (same : l.map ends = k.map ends) :
    Unlinked l := by
  have old : (k.map ends).Pairwise fun e f => sameEnds e f = false := List.pairwise_map.2 h
  rw [← same] at old
  exact List.pairwise_map.1 old

/-- A link is put in only where there is none. -/
theorem unlinked_linked {connections : Array Connection} (h : Unlinked connections.toList)
    (a b : WirePath) (metadata : Metadata) :
    Unlinked (linked connections a b metadata).1.toList := by
  rw [toList_linked]
  by_cases there : ∃ c ∈ connections.toList, c.links a b = true
  · exact h.of_ends (map_updateFirst (fun _ => rfl) there)
  · have fresh : ∀ c ∈ connections.toList, c.links a b = false := fun c hc =>
      Bool.eq_false_iff.2 fun hl => there ⟨c, hc, hl⟩
    rw [updateFirst_of_none fresh]
    refine List.pairwise_append.2 ⟨h, List.pairwise_singleton _ _, fun c hc k hk => ?_⟩
    rw [List.mem_singleton.1 hk]
    exact fresh c hc

/-- A definition stays sound when a link between sound ends is put in. -/
theorem Sound.link (h : x.Sound d) {a b : WirePath} (ha : x.SoundEnd d a) (hb : x.SoundEnd d b)
    {metadata : Metadata} (hm : metadata.WellFormed) :
    { x with connections := (linked x.connections a b metadata).1 }.Sound d := by
  refine { h with ends := ?_, connection_metadata := ?_, unlinked := unlinked_linked h.unlinked .. }
  · exact forall_linked (fun c hc => ⟨{ (h.ends c hc).1 with }, { (h.ends c hc).2 with }⟩)
      (fun c hc => ⟨{ (h.ends c hc).1 with }, { (h.ends c hc).2 with }⟩) ⟨{ ha with }, { hb with }⟩
  · exact forall_linked h.connection_metadata
      (fun c hc => (h.connection_metadata c hc).extend hm) (Metadata.wellFormed_empty.extend hm)

theorem connect_of_ok {a b : WirePath} (ha : x.checkEnd d a = .ok ()) (hb : x.checkEnd d b = .ok ())
    (metadata : Metadata) : ∃ c, x.connect d a b metadata =
      .ok ({ x with connections := (linked x.connections a b metadata).1 }, c) := by
  unfold connect
  rw [ha, hb]
  exact ⟨_, rfl⟩

/-- Only between ends that pass their checks is there a link. -/
theorem connect_eq_ok {a b : WirePath} {metadata : Metadata} {y : Definition} {c : Connection}
    (h : x.connect d a b metadata = .ok (y, c)) :
    x.checkEnd d a = .ok () ∧ x.checkEnd d b = .ok () ∧
      y = { x with connections := (linked x.connections a b metadata).1 } := by
  unfold connect at h
  cases ha : x.checkEnd d a with
  | error e => rw [ha] at h; cases h
  | ok _ =>
    cases hb : x.checkEnd d b with
    | error e => rw [ha, hb] at h; cases h
    | ok _ =>
      rw [ha, hb] at h
      cases h
      exact ⟨rfl, rfl, rfl⟩

/-! ## Calls that keep a definition sound -/

theorem insertInstance_eq_ok {i j : Instance} {y : Definition} {d' : Design}
    (h : x.insertInstance i d = .ok (y, j) d') :
    d' = d ∧ i.name ≠ selfName ∧ x.instances.contains i.name = false ∧
      y = { x with instances := x.instances.append i.name i } ∧ j = i := by
  rw [insertInstance_apply] at h
  split at h
  · cases h
  · rename_i other
    split at h
    · cases h
    · rename_i fresh
      cases h
      exact ⟨rfl, other, by simpa using fresh, rfl, rfl⟩

/-- What an instance is added for, and what is added. -/
theorem addInstance_eq_ok {name : String} {id : ModuleId} {config : Args} {y : Definition}
    {i : Instance} {d' : Design} (h : x.addInstance name id config d = .ok (y, i) d') :
    d' = d.withName name ∧ i = ⟨(d.names.intern name).1, .module id, config, none, ∅⟩ ∧
      (∃ m, d.modules.get? id = some m ∧ m.params.Fits config) ∧ i.name ≠ selfName ∧
      x.instances.contains i.name = false ∧
      y = { x with instances := x.instances.append i.name i } := by
  unfold addInstance at h
  obtain ⟨m, _, live, h⟩ := seq_eq_ok_iff.1 h
  obtain ⟨hm, rfl⟩ := live_eq_ok_iff.1 live
  obtain ⟨label, _, live, h⟩ := seq_eq_ok_iff.1 h
  obtain ⟨-, rfl⟩ := live_eq_ok_iff.1 live
  obtain ⟨_, _, checked, h⟩ := seq_eq_ok_iff.1 h
  obtain ⟨fits, rfl⟩ := check_eq_ok_iff.1 checked
  obtain ⟨_, _, ⟨⟩, h⟩ := seq_eq_ok_iff.1 h
  obtain ⟨same, other, fresh, rfl, rfl⟩ := insertInstance_eq_ok h
  exact ⟨same, rfl, ⟨m, hm, Params.check_eq_ok_iff.1 fits⟩, other, fresh, rfl⟩

theorem addGeneratorInstance_eq_ok {name : String} {id : GeneratorId} {genargs config : Args}
    {y : Definition} {i : Instance} {d' : Design}
    (h : x.addGeneratorInstance name id genargs config d = .ok (y, i) d') :
    d' = d.withName name ∧
      i = ⟨(d.names.intern name).1, .generator id, config, some genargs, ∅⟩ ∧
      (∃ g, d.generators.get? id = some g ∧ g.genparams.Fits genargs ∧ g.params.Fits config) ∧
      i.name ≠ selfName ∧ x.instances.contains i.name = false ∧
      y = { x with instances := x.instances.append i.name i } := by
  unfold addGeneratorInstance at h
  obtain ⟨label, _, live, h⟩ := seq_eq_ok_iff.1 h
  obtain ⟨-, rfl⟩ := live_eq_ok_iff.1 live
  obtain ⟨g, _, live, h⟩ := seq_eq_ok_iff.1 h
  obtain ⟨hg, rfl⟩ := live_eq_ok_iff.1 live
  obtain ⟨_, _, checked, h⟩ := seq_eq_ok_iff.1 h
  obtain ⟨fitsGen, rfl⟩ := check_eq_ok_iff.1 checked
  obtain ⟨_, _, checked, h⟩ := seq_eq_ok_iff.1 h
  obtain ⟨fits, rfl⟩ := check_eq_ok_iff.1 checked
  obtain ⟨_, _, ⟨⟩, h⟩ := seq_eq_ok_iff.1 h
  obtain ⟨same, other, fresh, rfl, rfl⟩ := insertInstance_eq_ok h
  exact ⟨same, rfl, ⟨g, hg, Params.check_eq_ok_iff.1 fitsGen, Params.check_eq_ok_iff.1 fits⟩,
    other, fresh, rfl⟩

theorem Sound.addInstance (hd : d.Sound) (h : x.Sound d) {name : String} {id : ModuleId}
    {config : Args} (hc : Args.Sound d config) {y : Definition} {i : Instance} {d' : Design}
    (ok : x.addInstance name id config d = .ok (y, i) d') :
    d' = d.withName name ∧ y.Sound d' := by
  obtain ⟨rfl, rfl, ⟨m, hm, fits⟩, other, fresh, rfl⟩ := addInstance_eq_ok ok
  have keeps := (d.grows_withName name).keeps
  have instanceSound : Instance.Sound d ⟨(d.names.intern name).1, .module id, config, none, ∅⟩ :=
    ⟨⟨m.params, by simp [configParams?, hm], fits⟩, hc, trivial, Metadata.wellFormed_empty⟩
  exact ⟨rfl, (h.keep keeps).append (instanceSound.keep keeps)
    (Option.isSome_of_eq_some (hd.text_withName name)) other fresh⟩

theorem Sound.addGeneratorInstance (hd : d.Sound) (h : x.Sound d) {name : String}
    {id : GeneratorId} {genargs config : Args} (hg : Args.Sound d genargs)
    (hc : Args.Sound d config) {y : Definition} {i : Instance} {d' : Design}
    (ok : x.addGeneratorInstance name id genargs config d = .ok (y, i) d') :
    d' = d.withName name ∧ y.Sound d' := by
  obtain ⟨rfl, rfl, ⟨g, hx, fitsGen, fits⟩, other, fresh, rfl⟩ := addGeneratorInstance_eq_ok ok
  have keeps := (d.grows_withName name).keeps
  have instanceSound : Instance.Sound d
      ⟨(d.names.intern name).1, .generator id, config, some genargs, ∅⟩ :=
    ⟨⟨g.params, by simp [configParams?, hx], fits⟩, hc, ⟨hg, g, hx, fitsGen⟩,
      Metadata.wellFormed_empty⟩
  exact ⟨rfl, (h.keep keeps).append (instanceSound.keep keeps)
    (Option.isSome_of_eq_some (hd.text_withName name)) other fresh⟩

theorem Sound.connect (h : x.Sound d) {a b : WirePath} {metadata : Metadata}
    (ha : ∀ n ∈ a.root :: a.selectors, (d.text? n).isSome)
    (hb : ∀ n ∈ b.root :: b.selectors, (d.text? n).isSome) (hm : metadata.WellFormed)
    {y : Definition} {c : Connection} (ok : x.connect d a b metadata = .ok (y, c)) :
    y.Sound d := by
  obtain ⟨first, second, rfl⟩ := connect_eq_ok ok
  exact h.link (soundEnd_of_checkEnd ha first) (soundEnd_of_checkEnd hb second) hm

/-! ## Metadata in place -/

theorem Sound.empty {id : ModuleId} (live : (d.modules.get? id).isSome) :
    (Definition.empty id).Sound d where
  owner := live
  instances := ⟨NameMap.consistent_empty, fun e he => by cases he⟩
  instance_name e he := by cases he
  instance_sound e he := by cases he
  ends c hc := by cases hc
  connection_metadata c hc := by cases hc
  unlinked := List.Pairwise.nil
  implementations := Metadata.wellFormed_empty
  metadata := Metadata.wellFormed_empty

theorem Sound.annotate (h : x.Sound d) (name : Name) {metadata : Metadata}
    (hm : metadata.WellFormed) : (x.annotate name metadata).Sound d := by
  have consistent := h.instances.consistent
  have contains : ∀ n, x.instances.contains n = true →
      (x.instances.modify name fun i => { i with metadata }).contains n = true :=
    fun n hn => (NameMap.contains_modify ..).trans hn
  exact
    { h with
      instances := ⟨consistent.modify name _,
        consistent.forall_modify h.instances.named h.instances.named name⟩
      instance_name := consistent.forall_modify h.instance_name h.instance_name name
      instance_sound := consistent.forall_modify h.instance_sound
        (fun e he => { h.instance_sound e he with metadata := hm }) name
      ends := fun c hc =>
        ⟨(h.ends c hc).1.of_contains contains, (h.ends c hc).2.of_contains contains⟩ }

end Definition

end Netlist
