-- Sound outlines, which are those of sound designs without instances of generators. Their
-- arguments may come in any order; arranged, they come in the order of the parameters.
import Mathlib.Data.List.Nodup
import Netlist.Proofs.Nodes.Document

namespace Netlist.Outline

open Plain

/-! ## Sound outlines -/

/-- Arguments that bind these parameters, each of them once, in any order. -/
structure Bound (ps : List (String × ParamKind)) (args : List (String × ArgTree)) : Prop where
  different : (Assoc.keys ps).Nodup
  nodup : (Assoc.keys args).Nodup
  declared : ∀ key ∈ Assoc.keys args, key ∈ Assoc.keys ps
  bound : ∀ p ∈ ps, ∃ a, Assoc.get? p.1 args = some a ∧ a.kind = p.2 ∧ a.Sound

structure Instance.Sound (env : Signatures) (i : Instance) : Prop where
  kind : i.kind = .module
  genargs : i.genargs = none
  binds : ∃ ps, env i.target = some (.module, ps) ∧ Bound ps i.config
  metadata : i.metadata.WellFormed

structure Definition.Sound (env : Signatures) (d : Definition) : Prop where
  nodup : (Assoc.keys d.instances).Nodup
  named : ∀ e ∈ d.instances, e.1 ≠ Design.selfWord
  instances : ∀ e ∈ d.instances, e.2.Sound env
  ends : ∀ c ∈ d.connections,
    EndOf (Assoc.keys d.instances) c.first ∧ EndOf (Assoc.keys d.instances) c.second
  unlinked : d.connections.Pairwise fun c k => links c k.first k.second = false
  connection_metadata : ∀ c ∈ d.connections, c.metadata.WellFormed
  implementations : d.implementations.WellFormed
  metadata : d.metadata.WellFormed

structure Module.Sound (env : Signatures) (m : Module) : Prop where
  type : m.type.Sound
  params : (Assoc.keys m.params).Nodup
  metadata : m.metadata.WellFormed
  definition : ∀ d, m.definition = some d → d.Sound env

structure Generator.Sound (g : Generator) : Prop where
  genparams : (Assoc.keys g.genparams).Nodup
  params : (Assoc.keys g.params).Nodup
  metadata : g.metadata.WellFormed

structure Namespace.Sound (env : Signatures) (ns : Namespace) : Prop where
  names : ns.names.Nodup
  modules : ∀ e ∈ ns.modules, e.2.Sound env
  generators : ∀ e ∈ ns.generators, e.2.Sound

/-- What the instances of the outline stand for is in the outline itself. -/
structure Sound (o : Outline) : Prop where
  nodup : (Assoc.keys o.namespaces).Nodup
  namespaces : ∀ n ∈ o.namespaces, n.2.Sound (signature? o.namespaces)
  top : ∃ ps, signature? o.namespaces o.top = some (.module, ps)

/-! ## Arranged outlines -/

/-- The arguments in the order of the parameters. -/
def arrangeArgs (ps : List (String × ParamKind)) (args : List (String × ArgTree)) :
    List (String × ArgTree) :=
  ps.filterMap fun p => (Assoc.get? p.1 args).map (p.1, ·)

def Instance.arrange (env : Signatures) (i : Instance) : Instance :=
  match env i.target with
  | some (_, ps) => { i with config := arrangeArgs ps i.config }
  | none => i

def Definition.arrange (env : Signatures) (d : Definition) : Definition :=
  { d with instances := d.instances.map fun e => (e.1, e.2.arrange env) }

def Module.arrange (env : Signatures) (m : Module) : Module :=
  { m with definition := m.definition.map (Definition.arrange env) }

def Namespace.arrange (env : Signatures) (ns : Namespace) : Namespace :=
  { ns with modules := ns.modules.map fun e => (e.1, e.2.arrange env) }

/-- The outline with the arguments of every instance in the order of the parameters of what
the instance stands for. -/
def arrange (o : Outline) : Outline :=
  { o with namespaces := o.namespaces.map fun n => (n.1, n.2.arrange (signature? o.namespaces)) }

/-- To arrange an outline changes no signature in it. -/
theorem signature?_arrange (env : Signatures) (scopes : Scopes) :
    signature? (scopes.map fun n => (n.1, n.2.arrange env)) = signature? scopes := by
  funext target
  unfold signature? symbol? symbolIn?
  rw [Assoc.get?_map]
  cases Assoc.get? target.1 scopes with
  | none => rfl
  | some ns =>
    simp only [Option.map_some, Option.bind_some, Namespace.arrange, Assoc.get?_map]
    cases Assoc.get? target.2 ns.modules <;> rfl

/-! ## Arguments in order -/

section

variable {ps : List (String × ParamKind)} {args : List (String × ArgTree)}

/-- Each parameter has its argument in the arranged ones, which are all in the order of the
parameters. -/
theorem arrangeArgs_binds (h : ∀ p ∈ ps, ∃ a, Assoc.get? p.1 args = some a ∧ a.kind = p.2 ∧ a.Sound) :
    Binds (args.map fun e => (e.1, e.2.toJson)) ps (arrangeArgs ps args) := by
  induction ps with
  | nil => exact .nil
  | cons p rest ih =>
    obtain ⟨⟨a, ha, kind, sound⟩, others⟩ := List.forall_mem_cons.1 h
    rw [arrangeArgs, List.filterMap_cons, ha]
    exact .cons ⟨rfl, kind, sound, by rw [Assoc.get?_map, ha]; rfl⟩ (ih others)

theorem keys_arrangeArgs (h : ∀ p ∈ ps, ∃ a, Assoc.get? p.1 args = some a) :
    Assoc.keys (arrangeArgs ps args) = Assoc.keys ps := by
  induction ps with
  | nil => rfl
  | cons p rest ih =>
    obtain ⟨⟨a, ha⟩, others⟩ := List.forall_mem_cons.1 h
    rw [arrangeArgs, List.filterMap_cons, ha]
    exact congrArg (p.1 :: ·) (ih others)

theorem mem_arrangeArgs {e : String × ArgTree} (he : e ∈ arrangeArgs ps args) : e ∈ args := by
  obtain ⟨p, -, he⟩ := List.mem_filterMap.1 he
  obtain ⟨a, ha, rfl⟩ := Option.map_eq_some_iff.1 he
  exact Assoc.mem_of_get? ha

/-- Nothing is lost and nothing comes twice when arguments are arranged. -/
theorem Bound.perm (h : Bound ps args) : (arrangeArgs ps args).Perm args := by
  have found : ∀ p ∈ ps, ∃ a, Assoc.get? p.1 args = some a := fun p hp =>
    (h.bound p hp).imp fun _ ha => ha.1
  have keys := keys_arrangeArgs found
  have nodup : (Assoc.keys (arrangeArgs ps args)).Nodup := keys.symm ▸ h.different
  refine (List.perm_ext_iff_of_nodup (nodup.of_map _) (h.nodup.of_map _)).2 fun e =>
    ⟨mem_arrangeArgs, ?_⟩
  intro he
  obtain ⟨p, hp, same⟩ := List.mem_map.1 (h.declared e.1 (List.mem_map_of_mem he))
  refine List.mem_filterMap.2 ⟨p, hp, ?_⟩
  rw [same, (Assoc.get?_eq_some_iff h.nodup).2 he]
  rfl

/-- Arguments that are in the order of the parameters stay as they are. -/
theorem arrangeArgs_of_keys (nodup : (Assoc.keys args).Nodup) (h : Assoc.keys args = Assoc.keys ps) :
    arrangeArgs ps args = args := by
  have byKey (l : List (String × ParamKind)) : arrangeArgs l args =
      (Assoc.keys l).filterMap fun key => (Assoc.get? key args).map (key, ·) := by
    rw [arrangeArgs, List.filterMap_map]
    rfl
  have own : ∀ e ∈ args, (Assoc.get? e.1 args).map (e.1, ·) = some e := fun e he => by
    rw [(Assoc.get?_eq_some_iff nodup).2 he]
    rfl
  rw [byKey, ← h, List.filterMap_map]
  exact (List.filterMap_congr own).trans List.filterMap_some

end

/-! ## Outlines that differ in the order of arguments -/

def Instance.Alike (i j : Instance) : Prop :=
  j.kind = i.kind ∧ j.target = i.target ∧ j.genargs = i.genargs ∧ j.config.Perm i.config ∧
    j.metadata = i.metadata

/-- The same instances, and the same connections with their ends in the same order. -/
def Definition.Alike (d e : Definition) : Prop :=
  List.Forall₂ (fun i j => j.1 = i.1 ∧ i.2.Alike j.2) d.instances e.instances ∧
    e.connections = d.connections ∧ e.implementations = d.implementations ∧
    e.metadata = d.metadata

def Module.Alike (m n : Module) : Prop :=
  n.type = m.type ∧ n.params = m.params ∧ n.metadata = m.metadata ∧
    Option.Rel Definition.Alike m.definition n.definition

def Namespace.Alike (ns k : Namespace) : Prop :=
  List.Forall₂ (fun m n => n.1 = m.1 ∧ m.2.Alike n.2) ns.modules k.modules ∧
    k.generators = ns.generators

/-- Outlines that are the same, except that an instance may list its arguments in another
order. -/
def Alike (o r : Outline) : Prop :=
  r.top = o.top ∧ List.Forall₂ (fun n k => k.1 = n.1 ∧ n.2.Alike k.2) o.namespaces r.namespaces

theorem forall₂_map_self {α β : Type} {R : α → β → Prop} {f : α → β} {l : List α}
    (h : ∀ a ∈ l, R a (f a)) : List.Forall₂ R l (l.map f) :=
  List.forall₂_map_right_iff.2 (List.forall₂_same.2 h)

section

variable {env : Signatures}

theorem Instance.Sound.alike {i : Instance} (h : i.Sound env) : i.Alike (i.arrange env) := by
  obtain ⟨ps, signature, bound⟩ := h.binds
  rw [arrange, signature]
  exact ⟨rfl, rfl, rfl, bound.perm, rfl⟩

theorem Definition.Sound.alike {d : Definition} (h : d.Sound env) : d.Alike (d.arrange env) :=
  ⟨forall₂_map_self fun e he => ⟨rfl, (h.instances e he).alike⟩, rfl, rfl, rfl⟩

theorem Module.Sound.alike {m : Module} (h : m.Sound env) : m.Alike (m.arrange env) := by
  refine ⟨rfl, rfl, rfl, ?_⟩
  unfold arrange
  cases hd : m.definition with
  | none => exact .none
  | some d => exact .some (h.definition d hd).alike

theorem Namespace.Sound.alike {ns : Namespace} (h : ns.Sound env) : ns.Alike (ns.arrange env) :=
  ⟨forall₂_map_self fun e he => ⟨rfl, (h.modules e he).alike⟩, rfl⟩

theorem Sound.alike {o : Outline} (h : o.Sound) : o.Alike o.arrange :=
  ⟨rfl, forall₂_map_self fun n hn => ⟨rfl, (h.namespaces n hn).alike⟩⟩

end

/-! ## Arranged already -/

/-- Whether every instance lists its arguments in the order of the parameters. -/
def Instance.Arranged (env : Signatures) (i : Instance) : Prop :=
  ∀ kind ps, env i.target = some (kind, ps) → Assoc.keys i.config = Assoc.keys ps

def Arranged (o : Outline) : Prop :=
  ∀ n ∈ o.namespaces, ∀ m ∈ n.2.modules, ∀ d, m.2.definition = some d → ∀ i ∈ d.instances,
    i.2.Arranged (signature? o.namespaces)

theorem Instance.Arranged.arrange_eq {env : Signatures} {i : Instance} (h : i.Arranged env)
    (sound : i.Sound env) : i.arrange env = i := by
  obtain ⟨ps, signature, bound⟩ := sound.binds
  rw [arrange, signature]
  dsimp only
  rw [arrangeArgs_of_keys bound.nodup (h _ ps signature)]

theorem map_entries_eq {α : Type} {f : α → α} {l : List (String × α)}
    (h : ∀ e ∈ l, f e.2 = e.2) : (l.map fun e => (e.1, f e.2)) = l :=
  (List.map_congr_left fun e he => by rw [h e he]; rfl).trans (List.map_id l)

/-- An arranged outline stays as it is. -/
theorem Arranged.arrange_eq {o : Outline} (h : o.Arranged) (sound : o.Sound) : o.arrange = o := by
  have modules : ∀ n ∈ o.namespaces, ∀ m ∈ n.2.modules,
      m.2.arrange (signature? o.namespaces) = m.2 := fun n hn m hm => by
    unfold Module.arrange
    cases hd : m.2.definition with
    | none => rw [Option.map_none, ← hd]
    | some d =>
      have instances := map_entries_eq fun i hi => (h n hn m hm d hd i hi).arrange_eq
        ((((sound.namespaces n hn).modules m hm).definition d hd).instances i hi)
      rw [Option.map_some, Definition.arrange, instances, ← hd]
  have namespaces : ∀ n ∈ o.namespaces, n.2.arrange (signature? o.namespaces) = n.2 :=
    fun n hn => by rw [Namespace.arrange, map_entries_eq (modules n hn)]
  rw [arrange, map_entries_eq namespaces]

end Netlist.Outline
