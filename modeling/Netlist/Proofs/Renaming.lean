-- Designs that differ in their numbers only. A renaming takes the numbers of one design for
-- those of another one, and nothing that a document shows changes with it.
import Mathlib.Logic.Relator
import Netlist.Document.Save
import Netlist.Proofs.Outlines

namespace Netlist

/-! ## Renamings -/

/-- Two things with the same label. -/
def SameLabel {α β γ : Type} (f : α → Option γ) (g : β → Option γ) (a : α) (b : β) : Prop :=
  ∃ s, f a = some s ∧ g b = some s

theorem biUnique_sameLabel {α β γ : Type} {f : α → Option γ} {g : β → Option γ}
    (hf : ∀ {a b s}, f a = some s → f b = some s → a = b)
    (hg : ∀ {a b s}, g a = some s → g b = some s → a = b) : Relator.BiUnique (SameLabel f g) := by
  constructor
  · rintro a b c ⟨s, ha, hc⟩ ⟨s', hb, hc'⟩
    cases hc.symm.trans hc'
    exact hf ha hb
  · rintro a b c ⟨s, ha, hb⟩ ⟨s', ha', hc⟩
    cases ha.symm.trans ha'
    exact hg hb hc

/-- Which numbers of one design are taken for which numbers of another one. -/
structure Renaming where
  takes : {e : Entity} → Handle e → Handle e → Prop

namespace Renaming

variable (r : Renaming)

/-- Entries in the same order, under names that are taken for each other. -/
def SameEntries {α β : Type} (R : α → β → Prop) (es : List (Name × α)) (ks : List (Name × β)) :
    Prop :=
  List.Forall₂ (fun e k => r.takes e.1 k.1 ∧ R e.2 k.2) es ks

/-- One type for another, if their parts are so. -/
inductive SameType : WireType → WireType → Prop
  | any : SameType .any .any
  | bitIn : SameType .bitIn .bitIn
  | bitOut : SameType .bitOut .bitOut
  | array {t u : TypeId} (element : r.takes t u) (length : Nat) :
    SameType (.array t length) (.array u length)
  | record {fs gs : List (Name × TypeId)} (fields : r.SameEntries r.takes fs gs) :
    SameType (.record fs) (.record gs)

/-- Arguments of one kind and value. -/
inductive SameArg : Arg → Arg → Prop
  | int (i : Int) : SameArg (.int i) (.int i)
  | string (s : String) : SameArg (.string s) (.string s)
  | type {t u : TypeId} (same : r.takes t u) : SameArg (.type t) (.type u)

inductive SameTarget : Target → Target → Prop
  | module {id id' : ModuleId} (same : r.takes id id') : SameTarget (.module id) (.module id')
  | generator {id id' : GeneratorId} (same : r.takes id id') :
    SameTarget (.generator id) (.generator id')

variable {r} in
theorem SameTarget.kind {t u : Target} (h : r.SameTarget t u) : t.kind = u.kind := by
  cases h <;> rfl

def SameParams (params params' : Params) : Prop := r.SameEntries Eq params.toList params'.toList

def SameArgs (args args' : Args) : Prop := r.SameEntries r.SameArg args.toList args'.toList

structure SameInstance (i j : Instance) : Prop where
  name : r.takes i.name j.name
  target : r.SameTarget i.target j.target
  config : r.SameArgs i.config j.config
  genargs : Option.Rel r.SameArgs i.genargs j.genargs
  metadata : i.metadata = j.metadata

def SamePath (p q : WirePath) : Prop :=
  List.Forall₂ r.takes (p.root :: p.selectors) (q.root :: q.selectors)

structure SameConnection (c k : Connection) : Prop where
  first : r.SamePath c.first k.first
  second : r.SamePath c.second k.second
  metadata : c.metadata = k.metadata

structure SameDefinition (x y : Definition) : Prop where
  owner : r.takes x.owner y.owner
  instances : r.SameEntries r.SameInstance x.instances.toList y.instances.toList
  connections : List.Forall₂ r.SameConnection x.connections.toList y.connections.toList
  implementations : x.implementations = y.implementations
  metadata : x.metadata = y.metadata

structure SameModule (m k : Module) : Prop where
  id : r.takes m.id k.id
  name : r.takes m.name k.name
  scope : r.takes m.scope k.scope
  type : r.takes m.type k.type
  params : r.SameParams m.params k.params
  metadata : m.metadata = k.metadata
  definition : Option.Rel r.SameDefinition m.definition k.definition

structure SameGenerator (g k : Generator) : Prop where
  id : r.takes g.id k.id
  name : r.takes g.name k.name
  scope : r.takes g.scope k.scope
  genparams : r.SameParams g.genparams k.genparams
  params : r.SameParams g.params k.params
  metadata : g.metadata = k.metadata

structure SameNamespace (ns k : Namespace) : Prop where
  id : r.takes ns.id k.id
  name : r.takes ns.name k.name
  modules : r.SameEntries r.takes ns.modules.toList k.modules.toList
  generators : r.SameEntries r.takes ns.generators.toList k.generators.toList

/-- Everything in one table is taken for something in the other one. -/
def Covers {e : Entity} {α β : Type} (t : Table e α) (u : Table e β) : Prop :=
  (∀ id, (t.get? id).isSome → ∃ id', r.takes id id') ∧
    ∀ id', (u.get? id').isSome → ∃ id, r.takes id id'

/-- The renaming turns one design into the other, but for names and types that nothing shows.
It is one to one, and what it takes for each other agrees in all that the designs hold. -/
structure Isomorphic (c d : Design) : Prop where
  once : ∀ e, Relator.BiUnique (r.takes (e := e))
  name : ∀ {n k : Name}, r.takes n k → ∃ s, c.text? n = some s ∧ d.text? k = some s
  type : ∀ {t u : TypeId}, r.takes t u →
    ∃ w v, c.types.get? t = some w ∧ d.types.get? u = some v ∧ r.SameType w v
  scope : ∀ {a b : NamespaceId}, r.takes a b →
    ∃ ns k, c.namespaces.get? a = some ns ∧ d.namespaces.get? b = some k ∧ r.SameNamespace ns k
  module : ∀ {a b : ModuleId}, r.takes a b →
    ∃ m k, c.modules.get? a = some m ∧ d.modules.get? b = some k ∧ r.SameModule m k
  generator : ∀ {a b : GeneratorId}, r.takes a b →
    ∃ g k, c.generators.get? a = some g ∧ d.generators.get? b = some k ∧ r.SameGenerator g k
  namespaces : List.Forall₂ r.SameNamespace c.namespaces.toList d.namespaces.toList
  modules : r.Covers c.modules d.modules
  generators : r.Covers c.generators d.generators

/-- What the renaming takes for each other reads alike in the two designs, so that they have
one document. It need not stand for anything. -/
structure Agrees (c d : Design) : Prop where
  text : ∀ {n k : Name}, r.takes n k → c.text? n = d.text? k
  tree : ∀ {t u : TypeId}, r.takes t u → c.typeTree? t = d.typeTree? u
  scope : ∀ {a b : NamespaceId}, r.takes a b →
    Option.Rel r.SameNamespace (c.namespaces.get? a) (d.namespaces.get? b)
  module : ∀ {a b : ModuleId}, r.takes a b →
    Option.Rel r.SameModule (c.modules.get? a) (d.modules.get? b)
  generator : ∀ {a b : GeneratorId}, r.takes a b →
    Option.Rel r.SameGenerator (c.generators.get? a) (d.generators.get? b)
  namespaces : List.Forall₂ r.SameNamespace c.namespaces.toList d.namespaces.toList

end Renaming

/-! ## What a renaming leaves as it is -/

/-- Lists whose things have the same images one by one have the same image. -/
theorem mapM_eq_of_forall₂ {α β γ : Type} {f : α → Option γ} {g : β → Option γ} {as : List α}
    {bs : List β} (h : List.Forall₂ (fun a b => f a = g b) as bs) : as.mapM f = bs.mapM g := by
  induction h with
  | nil => rfl
  | cons here _ ih => rw [List.mapM_cons, List.mapM_cons, here, ih]

/-- Related values are both absent, or both there. -/
theorem rel_cases {α β : Type} {R : α → β → Prop} {x : Option α} {y : Option β}
    (h : Option.Rel R x y) : x = none ∧ y = none ∨ ∃ a b, x = some a ∧ y = some b ∧ R a b := by
  cases h with
  | none => exact Or.inl ⟨rfl, rfl⟩
  | some same => exact Or.inr ⟨_, _, rfl, rfl, same⟩

variable {r : Renaming} {c d : Design}

namespace Renaming.Agrees

variable (h : r.Agrees c d)
include h

theorem outlineEntries {α β γ : Type} {f : α → Option γ} {g : β → Option γ} {R : α → β → Prop}
    (image : ∀ {a b}, R a b → f a = g b) {es : List (Name × α)} {ks : List (Name × β)}
    (same : r.SameEntries R es ks) : c.outlineEntries? f es = d.outlineEntries? g ks := by
  refine mapM_eq_of_forall₂ (same.imp fun e k here => ?_)
  simp only [h.text here.1, image here.2]

theorem outlineParams {params params' : Params} (same : r.SameParams params params') :
    c.outlineParams? params = d.outlineParams? params' :=
  h.outlineEntries (R := Eq) (congrArg some) same

theorem placeOf {t u : Target} (same : r.SameTarget t u) :
    Option.Rel (fun p q => r.takes p.1 q.1 ∧ r.takes p.2 q.2) (c.placeOf? t) (d.placeOf? u) := by
  cases same with
  | module same =>
    rw [Design.placeOf?, Design.placeOf?]
    rcases rel_cases (h.module same) with ⟨hm, hk⟩ | ⟨m, k, hm, hk, agree⟩ <;> rw [hm, hk]
    · exact .none
    · exact .some ⟨agree.scope, agree.name⟩
  | generator same =>
    rw [Design.placeOf?, Design.placeOf?]
    rcases rel_cases (h.generator same) with ⟨hg, hk⟩ | ⟨g, k, hg, hk, agree⟩ <;> rw [hg, hk]
    · exact .none
    · exact .some ⟨agree.scope, agree.name⟩

theorem symbolOf {t u : Target} (same : r.SameTarget t u) :
    Option.Rel (fun p q => r.takes p.1 q.1 ∧ r.takes p.2 q.2) (c.symbolOf? t) (d.symbolOf? u) := by
  rw [Design.symbolOf?, Design.symbolOf?]
  rcases rel_cases (h.placeOf same) with ⟨ht, hu⟩ | ⟨p, q, ht, hu, scope, name⟩
  · rw [ht, hu]
    exact .none
  · rw [ht, hu]
    rcases rel_cases (h.scope scope) with ⟨hns, hk⟩ | ⟨ns, k, hns, hk, agree⟩
    · simp only [hns, hk, Option.bind_eq_bind, Option.bind_some, Option.bind_none]
      exact .none
    · simp only [hns, hk, Option.bind_eq_bind, Option.bind_some]
      exact .some ⟨agree.name, name⟩

theorem symbolText {t u : Target} (same : r.SameTarget t u) :
    c.symbolText? t = d.symbolText? u := by
  rw [Design.symbolText?, Design.symbolText?]
  rcases rel_cases (h.symbolOf same) with ⟨ht, hu⟩ | ⟨p, q, ht, hu, scope, name⟩
  · simp only [ht, hu, Option.bind_eq_bind, Option.bind_none]
  · simp only [ht, hu, Option.bind_eq_bind, Option.bind_some, h.text scope, h.text name]

theorem qualifiedName {t u : Target} (same : r.SameTarget t u) :
    c.qualifiedName? t = d.qualifiedName? u := by
  rw [Design.qualifiedName?, Design.qualifiedName?, h.symbolText same]

theorem outlinePath {p q : WirePath} (same : r.SamePath p q) :
    c.outlinePath? p = d.outlinePath? q :=
  mapM_eq_of_forall₂ (same.imp fun _ _ here => h.text here)

theorem outlineConnection {x y : Connection} (same : r.SameConnection x y) :
    c.outlineConnection? x = d.outlineConnection? y := by
  rw [Design.outlineConnection?, Design.outlineConnection?, h.outlinePath same.first,
    h.outlinePath same.second, same.metadata]

theorem argTree {a b : Arg} (same : r.SameArg a b) : c.argTree? a = d.argTree? b := by
  cases same with
  | int i => rfl
  | string s => rfl
  | type same => exact congrArg (Option.map _) (h.tree same)

theorem outlineArgs {args args' : Args} (same : r.SameArgs args args') :
    c.outlineArgs? args = d.outlineArgs? args' :=
  h.outlineEntries (fun same => h.argTree same) same

theorem outlineGenargs {args args' : Option Args} (same : Option.Rel r.SameArgs args args') :
    c.outlineGenargs? args = d.outlineGenargs? args' := by
  cases same with
  | none => rfl
  | some same => exact congrArg (Option.map some) (h.outlineArgs same)

theorem outlineInstance {i j : Instance} (same : r.SameInstance i j) :
    c.outlineInstance? i = d.outlineInstance? j := by
  rw [Design.outlineInstance?, Design.outlineInstance?, h.symbolText same.target,
    h.outlineGenargs same.genargs, h.outlineArgs same.config, same.target.kind, same.metadata]

theorem outlineDefinition {x y : Definition} (same : r.SameDefinition x y) :
    c.outlineDefinition? x = d.outlineDefinition? y := by
  have instances : List.Forall₂ r.SameInstance x.instances.values y.instances.values :=
    List.forall₂_map_left_iff.2 (List.forall₂_map_right_iff.2 (same.instances.imp fun _ _ e => e.2))
  have outlines := mapM_eq_of_forall₂ (instances.imp fun i j same => show
    (do return (← c.text? i.name, ← c.outlineInstance? i)) =
      (do return (← d.text? j.name, ← d.outlineInstance? j)) by
    rw [h.text same.name, h.outlineInstance same])
  have connections := mapM_eq_of_forall₂ (same.connections.imp fun _ _ => h.outlineConnection)
  rw [Design.outlineDefinition?, Design.outlineDefinition?, outlines, connections,
    same.implementations, same.metadata]

theorem outlineBody {x y : Option Definition} (same : Option.Rel r.SameDefinition x y) :
    c.outlineBody? x = d.outlineBody? y := by
  cases same with
  | none => rfl
  | some same => exact congrArg (Option.map some) (h.outlineDefinition same)

theorem outlineModule {a b : ModuleId} (same : r.takes a b) :
    c.outlineModule? a = d.outlineModule? b := by
  rw [Design.outlineModule?, Design.outlineModule?]
  rcases rel_cases (h.module same) with ⟨hm, hk⟩ | ⟨m, k, hm, hk, agree⟩
  · simp only [hm, hk, Option.bind_eq_bind, Option.bind_none]
  · simp only [hm, hk, Option.bind_eq_bind, Option.bind_some, h.tree agree.type,
      h.outlineParams agree.params, agree.metadata, h.outlineBody agree.definition]

theorem outlineGenerator {a b : GeneratorId} (same : r.takes a b) :
    c.outlineGenerator? a = d.outlineGenerator? b := by
  rw [Design.outlineGenerator?, Design.outlineGenerator?]
  rcases rel_cases (h.generator same) with ⟨hg, hk⟩ | ⟨g, k, hg, hk, agree⟩
  · simp only [hg, hk, Option.bind_eq_bind, Option.bind_none]
  · simp only [hg, hk, Option.bind_eq_bind, Option.bind_some, h.outlineParams agree.genparams,
      h.outlineParams agree.params, agree.metadata]

theorem outlineNamespace {ns k : Namespace} (same : r.SameNamespace ns k) :
    c.outlineNamespace? ns = d.outlineNamespace? k := by
  rw [Design.outlineNamespace?, Design.outlineNamespace?,
    h.outlineEntries (fun same => h.outlineModule same) same.modules,
    h.outlineEntries (fun same => h.outlineGenerator same) same.generators]

theorem outlineNamespaces : c.outlineNamespaces? = d.outlineNamespaces? := by
  refine mapM_eq_of_forall₂ (h.namespaces.imp fun ns k same => ?_)
  rw [h.text same.name, h.outlineNamespace same]

/-- Designs that agree have the same document. -/
theorem document {top top' : ModuleId} (same : r.takes top top') :
    c.document? top = d.document? top' := by
  rw [Design.document?, Design.document?, Design.outline?, Design.outline?,
    h.symbolText (.module same), h.outlineNamespaces]

end Renaming.Agrees

/-! ## Designs that differ in their numbers only -/

theorem Renaming.Isomorphic.text (h : r.Isomorphic c d) {n k : Name} (same : r.takes n k) :
    c.text? n = d.text? k := by
  obtain ⟨s, hs, hs'⟩ := h.name same
  rw [hs, hs']

mutual

/-- Types that are taken for each other unfold to the same tree. -/
theorem Design.Unfolds.rename (h : r.Isomorphic c d) : ∀ {t u s}, c.Unfolds t s → r.takes t u →
    d.Unfolds u s
  | _, _, _, .any hw, same => by
    obtain ⟨_, _, hw', hv, parts⟩ := h.type same
    cases hw.symm.trans hw'
    cases parts
    exact .any hv
  | _, _, _, .bitIn hw, same => by
    obtain ⟨_, _, hw', hv, parts⟩ := h.type same
    cases hw.symm.trans hw'
    cases parts
    exact .bitIn hv
  | _, _, _, .bitOut hw, same => by
    obtain ⟨_, _, hw', hv, parts⟩ := h.type same
    cases hw.symm.trans hw'
    cases parts
    exact .bitOut hv
  | _, _, _, .array hw ht, same => by
    obtain ⟨_, _, hw', hv, parts⟩ := h.type same
    cases hw.symm.trans hw'
    cases parts with
    | array element => exact .array hv (Unfolds.rename h ht element)
  | _, _, _, .record hw hts, same => by
    obtain ⟨_, _, hw', hv, parts⟩ := h.type same
    cases hw.symm.trans hw'
    cases parts with
    | record fields => exact .record hv (UnfoldsFields.rename h hts fields)

theorem Design.UnfoldsFields.rename (h : r.Isomorphic c d) : ∀ {fs gs ts},
    c.UnfoldsFields fs ts → r.SameEntries r.takes fs gs → d.UnfoldsFields gs ts
  | _, _, _, .nil, .nil => .nil
  | _, _, _, .cons hn ht hts, .cons here rest =>
    .cons ((h.text here.1).symm.trans hn) (Unfolds.rename h ht here.2)
      (UnfoldsFields.rename h hts rest)

end

namespace Renaming.Isomorphic

variable (hc : c.Sound) (hd : d.Sound) (h : r.Isomorphic c d)
include hc hd h

theorem typeTree {t u : TypeId} (same : r.takes t u) : c.typeTree? t = d.typeTree? u := by
  obtain ⟨_, _, live, -⟩ := h.type same
  obtain ⟨s, hs⟩ := hc.exists_unfolds (Option.isSome_of_eq_some live)
  rw [hc.typeTree_eq_some_iff.2 hs, hd.typeTree_eq_some_iff.2 (hs.rename h same)]

theorem agrees : r.Agrees c d where
  text := h.text
  tree := h.typeTree hc hd
  scope same := by
    obtain ⟨_, _, hns, hk, agree⟩ := h.scope same
    rw [hns, hk]
    exact .some agree
  module same := by
    obtain ⟨_, _, hm, hk, agree⟩ := h.module same
    rw [hm, hk]
    exact .some agree
  generator same := by
    obtain ⟨_, _, hg, hk, agree⟩ := h.generator same
    rw [hg, hk]
    exact .some agree
  namespaces := h.namespaces

/-- Designs that differ in their numbers only have the same document. -/
theorem document {top top' : ModuleId} (same : r.takes top top') :
    c.document? top = d.document? top' :=
  (h.agrees hc hd).document same

end Renaming.Isomorphic

end Netlist
