-- Restore points through whole runs. Whatever is called after a restore point was taken,
-- even restores of points that are newer, a restore of it gives the design back: a call
-- puts things behind the extent that the point recorded, or cuts back no further.
import Netlist.Proofs.Live

namespace Netlist

/-! ## What a restore gives back -/

/-- A module without its metadata. -/
def Module.bare (m : Module) : Module := { m with metadata := ∅ }

/-- A generator without its metadata. -/
def Generator.bare (g : Generator) : Generator := { g with metadata := ∅ }

/-- A design that is there again. More names may be known than before, and the metadata of
modules and generators may be another. -/
structure Design.Returned (c d : Design) : Prop where
  names : ∀ n s, c.text? n = some s → d.text? n = some s
  types : d.types = c.types
  namespaces : d.namespaces = c.namespaces
  scopes : d.scopes = c.scopes
  modules : d.modules.map Module.bare = c.modules.map Module.bare
  generators : d.generators.map Generator.bare = c.generators.map Generator.bare

/-- An extent that reaches at least as far as another, in each table and in what both know
of. A module without a definition there has none here. -/
structure Snapshot.Within (p q : Snapshot) : Prop where
  types : p.types ≤ q.types
  namespaces : p.namespaces ≤ q.namespaces
  modules : p.modules ≤ q.modules
  generators : p.generators ≤ q.generators
  symbols : ∀ {i : Nat} {m g : Nat}, i < p.namespaces → q.symbols[i]? = some (m, g) →
    ∃ m' g', p.symbols[i]? = some (m', g') ∧ m' ≤ m ∧ g' ≤ g
  defined : ∀ {i : Nat}, i < p.modules → q.defined[i]? = some false → p.defined[i]? = some false

namespace Design

variable {b c d : Design} {p q : Snapshot}

theorem Returned.refl (d : Design) : d.Returned d := ⟨fun _ _ h => h, rfl, rfl, rfl, rfl, rfl⟩

theorem Returned.trans (h : b.Returned c) (k : c.Returned d) : b.Returned d where
  names n s hn := k.names n s (h.names n s hn)
  types := k.types.trans h.types
  namespaces := k.namespaces.trans h.namespaces
  scopes := k.scopes.trans h.scopes
  modules := k.modules.trans h.modules
  generators := k.generators.trans h.generators

/-- Metadata has no part in what a restore does. -/
theorem bare_restoreModule (p : Snapshot) (i : Nat) (m : Module) :
    (restoreModule p i m).bare = restoreModule p i m.bare := by
  unfold restoreModule
  split <;> rfl

/-- A restore of two designs that are the same gives designs that are the same. -/
theorem Returned.restore (h : c.Returned d) (p : Snapshot) :
    (c.restore p).Returned (d.restore p) where
  names := h.names
  types := congrArg (·.keep p.types) h.types
  namespaces := by rw [Design.restore, Design.restore, h.namespaces]
  scopes := by rw [Design.restore, Design.restore, h.scopes]
  modules := by
    refine Table.ext_get? fun id => ?_
    have same := congrArg (Table.get? · id) h.modules
    simp only [Table.get?_map] at same
    have swap : Module.bare ∘ restoreModule p id.index = restoreModule p id.index ∘ Module.bare :=
      funext (bare_restoreModule p id.index)
    simp only [Design.restore, Table.get?_map, Table.get?_mapWithIndex, Table.get?_take]
    split
    · rw [Option.map_map, Option.map_map, swap, ← Option.map_map, ← Option.map_map, same]
    · rfl
  generators := by
    refine Table.ext_get? fun id => ?_
    have same := congrArg (Table.get? · id) h.generators
    simp only [Table.get?_map] at same
    simp only [Design.restore, Table.get?_map, Table.get?_take]
    split
    · exact same
    · rfl

theorem Returned.snapshot (h : c.Returned d) : d.snapshot = c.snapshot := by
  have defined (e : Design) : e.modules.items.map (fun m => m.definition.isSome) =
      (e.modules.map Module.bare).items.map fun m => m.definition.isSome := by
    simp only [Table.map, Array.map_map]
    rfl
  have modules (e : Design) : e.modules.size = (e.modules.map Module.bare).size := by
    simp [Table.map, Table.size]
  have generators (e : Design) : e.generators.size = (e.generators.map Generator.bare).size := by
    simp [Table.map, Table.size]
  rw [Design.snapshot, Design.snapshot, h.types, h.namespaces, defined d, defined c, modules d,
    modules c, generators d, generators c, h.modules, h.generators]

/-! ## Restores one after another -/

theorem restoreNamespace_restoreNamespace (h : p.Within q) {i : Nat} (hi : i < p.namespaces)
    {ns : Namespace} (hm : ns.modules.Consistent) (hg : ns.generators.Consistent) :
    restoreNamespace p i (restoreNamespace q i ns) = restoreNamespace p i ns := by
  have twice {α : Type} {m : NameMap α} (hm : m.Consistent) {a b : Nat} (hab : a ≤ b) :
      (m.take b).take a = m.take a :=
    ((hm.take b).take a).ext (hm.take a) (by simp [List.take_take, Nat.min_eq_left hab])
  rw [restoreNamespace.eq_def q]
  cases hq : q.symbols[i]? with
  | none => rfl
  | some counts =>
    obtain ⟨a, b, hp, ha, hb⟩ := h.symbols hi hq
    simp only [restoreNamespace, hp, twice hm ha, twice hg hb]

theorem restoreModule_restoreModule (h : p.Within q) {i : Nat} (hi : i < p.modules) (m : Module) :
    restoreModule p i (restoreModule q i m) = restoreModule p i m := by
  rw [restoreModule.eq_def q]
  split
  · rename_i hq
    rw [restoreModule, restoreModule, if_pos (h.defined hi hq), if_pos (h.defined hi hq)]
  · rfl

/-- To cut a table back and change what is left makes no difference, if it is cut back further
and changed again in a way that does not see the first change. -/
theorem mapWithIndex_take_absorb {e : Entity} {α : Type} (t : Table e α) {m n : Nat} (h : m ≤ n)
    {f g : Nat → α → α}
    (absorb : ∀ {id : Handle e} {a}, id.index < m → t.get? id = some a →
      g id.index (f id.index a) = g id.index a) :
    (((t.take n).mapWithIndex f).take m).mapWithIndex g = (t.take m).mapWithIndex g := by
  refine Table.ext_get? fun id => ?_
  simp only [Table.get?_mapWithIndex, Table.get?_take]
  by_cases hi : id.index < m
  · rw [if_pos hi, if_pos (Nat.lt_of_lt_of_le hi h), if_pos hi]
    cases ha : t.get? id with
    | none => rfl
    | some a => exact congrArg some (absorb hi ha)
  · rw [if_neg hi, if_neg hi]

/-- A restore of a newer point before an older one makes no difference. -/
theorem restore_restore (hd : d.Regular) (h : p.Within q) :
    (d.restore q).restore p = d.restore p := by
  have types : (d.types.keep q.types).keep p.types = d.types.keep p.types := by
    refine ((hd.types.take _).take _).ext (hd.types.take _) fun id => ?_
    have := h.types
    simp only [TypeTable.keep, Pool.get?_take]
    by_cases hi : id.index < max p.types TypeTable.leafCount
    · rw [if_pos hi, if_pos (by omega), if_pos hi]
    · rw [if_neg hi, if_neg hi]
  have modules : (((d.modules.take q.modules).mapWithIndex (restoreModule q)).take
      p.modules).mapWithIndex (restoreModule p) =
        (d.modules.take p.modules).mapWithIndex (restoreModule p) :=
    mapWithIndex_take_absorb _ h.modules fun hi _ => restoreModule_restoreModule h hi _
  have generators : (d.generators.take q.generators).take p.generators =
      d.generators.take p.generators := by
    refine Table.ext ?_
    rw [Table.toList_take, Table.toList_take, Table.toList_take, List.take_take,
      Nat.min_eq_left h.generators]
  have namespaces : (((d.namespaces.take q.namespaces).mapWithIndex (restoreNamespace q)).take
      p.namespaces).mapWithIndex (restoreNamespace p) =
        (d.namespaces.take p.namespaces).mapWithIndex (restoreNamespace p) :=
    mapWithIndex_take_absorb _ h.namespaces fun hi hns =>
      restoreNamespace_restoreNamespace h hi (hd.modules hns) (hd.generators hns)
  have scopes : (d.scopes.filter fun _ id => id.index < q.namespaces).filter
      (fun _ id => id.index < p.namespaces) = d.scopes.filter fun _ id => id.index < p.namespaces := by
    refine Std.ExtTreeMap.ext_getElem? fun n => Option.ext fun id => ?_
    have := h.namespaces
    simp only [Std.ExtTreeMap.getElem?_filter, Option.pfilter_eq_filter, Option.filter_eq_some_iff,
      decide_eq_true_iff]
    constructor
    · rintro ⟨⟨hn, _⟩, hi⟩
      exact ⟨hn, hi⟩
    · rintro ⟨hn, hi⟩
      exact ⟨⟨hn, by omega⟩, hi⟩
  simp only [restore, types, modules, generators, namespaces, scopes]

end Design

/-! ## Extents of designs -/

namespace Snapshot.Within

open Design

variable {c d : Design} {p q : Snapshot}

theorem refl (d : Design) : d.snapshot.Within d.snapshot :=
  ⟨Nat.le_refl _, Nat.le_refl _, Nat.le_refl _, Nat.le_refl _,
    fun _ h => ⟨_, _, h, Nat.le_refl _, Nat.le_refl _⟩, fun _ h => h⟩

/-- A design that grew reaches further. -/
theorem grow (h : p.Within c.snapshot) (g : c.Grows d) : p.Within d.snapshot where
  types := by
    refine Nat.le_trans h.types (Nat.le_of_not_lt fun lt => ?_)
    obtain ⟨t, ht⟩ := Table.exists_get? (t := c.types.items) (h := ⟨d.types.size⟩) lt
    exact Nat.lt_irrefl _ (Table.index_lt_of_get? (g.types ht))
  namespaces := by
    refine Nat.le_trans h.namespaces (Nat.le_of_not_lt fun lt => ?_)
    obtain ⟨ns, hns⟩ := Table.exists_get? (t := c.namespaces) (h := ⟨d.namespaces.size⟩) lt
    obtain ⟨_, hns', -⟩ := g.namespaces hns
    exact Nat.lt_irrefl _ (Table.index_lt_of_get? hns')
  modules := by
    refine Nat.le_trans h.modules (Nat.le_of_not_lt fun lt => ?_)
    obtain ⟨m, hm⟩ := Table.exists_get? (t := c.modules) (h := ⟨d.modules.size⟩) lt
    obtain ⟨_, hm', -⟩ := g.modules hm
    exact Nat.lt_irrefl _ (Table.index_lt_of_get? hm')
  generators := by
    refine Nat.le_trans h.generators (Nat.le_of_not_lt fun lt => ?_)
    obtain ⟨x, hx⟩ := Table.exists_get? (t := c.generators) (h := ⟨d.generators.size⟩) lt
    exact Nat.lt_irrefl _ (Table.index_lt_of_get? (g.generators hx))
  symbols {i m k} hi hs := by
    obtain ⟨ns, hns⟩ := Table.exists_get? (t := c.namespaces) (h := ⟨i⟩)
      (Nat.lt_of_lt_of_le hi h.namespaces)
    obtain ⟨ns', hns', grown⟩ := g.namespaces hns
    rw [symbols_snapshot, hns'] at hs
    cases hs
    obtain ⟨m', k', hp, hm, hk⟩ := h.symbols hi (by rw [symbols_snapshot, hns]; rfl)
    have modules := grown.modules.length_le
    have generators := grown.generators.length_le
    rw [NameMap.length_toList, NameMap.length_toList] at modules generators
    exact ⟨m', k', hp, Nat.le_trans hm modules, Nat.le_trans hk generators⟩
  defined {i} hi hs := by
    obtain ⟨m, hm⟩ := Table.exists_get? (t := c.modules) (h := ⟨i⟩)
      (Nat.lt_of_lt_of_le hi h.modules)
    obtain ⟨m', hm', grown⟩ := g.modules hm
    refine h.defined hi ?_
    rw [defined_snapshot, hm'] at hs
    rw [defined_snapshot, hm]
    rcases grown with rfl | ⟨none, -⟩
    · exact hs
    · rw [Option.map_some, none]
      rfl

/-- A restore of a newer point leaves what an older one recorded. -/
theorem restore (h : p.Within d.snapshot) (hq : p.Within q) :
    p.Within (d.restore q).snapshot where
  types := by
    have := h.types
    have := hq.types
    simp only [snapshot, Design.restore, TypeTable.keep, Pool.take, Pool.size, Table.size_take] at *
    omega
  namespaces := by
    have := h.namespaces
    have := hq.namespaces
    simp only [snapshot, Design.restore, Table.size_mapWithIndex, Table.size_take] at *
    omega
  modules := by
    have := h.modules
    have := hq.modules
    simp only [snapshot, Design.restore, Table.size_mapWithIndex, Table.size_take] at *
    omega
  generators := by
    have := h.generators
    have := hq.generators
    simp only [snapshot, Design.restore, Table.size_take] at *
    omega
  symbols {i m k} hi hs := by
    obtain ⟨ns, hns⟩ := Table.exists_get? (t := d.namespaces) (h := ⟨i⟩)
      (Nat.lt_of_lt_of_le hi h.namespaces)
    obtain ⟨m', k', hp, hm, hk⟩ := h.symbols hi (by rw [symbols_snapshot, hns]; rfl)
    rw [symbols_snapshot, Design.restore, Table.get?_mapWithIndex, Table.get?_take,
      if_pos (Nat.lt_of_lt_of_le hi hq.namespaces), hns] at hs
    cases hs
    refine ⟨m', k', hp, ?_⟩
    unfold restoreNamespace
    cases counts : q.symbols[i]? with
    | none => exact ⟨hm, hk⟩
    | some counts' =>
      obtain ⟨_, _, hp', hm', hk'⟩ := hq.symbols hi counts
      cases hp.symm.trans hp'
      simp only [← NameMap.length_toList, NameMap.toList_take, List.length_take] at *
      omega
  defined {i} hi hs := by
    obtain ⟨m, hm⟩ := Table.exists_get? (t := d.modules) (h := ⟨i⟩)
      (Nat.lt_of_lt_of_le hi h.modules)
    rw [defined_snapshot, Design.restore, Table.get?_mapWithIndex, Table.get?_take,
      if_pos (Nat.lt_of_lt_of_le hi hq.modules), hm] at hs
    by_cases undefined : q.defined[i]? = some false
    · exact hq.defined hi undefined
    · refine h.defined hi ?_
      rw [defined_snapshot, hm]
      simpa only [Option.map_some, restoreModule, if_neg undefined] using hs

end Snapshot.Within

/-! ## Calls that a restore undoes -/

namespace Design

variable {b c d : Design} {p q : Snapshot}

/-- A change that a restore of this point undoes, and that leaves what the point recorded. -/
structure Spares (p : Snapshot) (c d : Design) : Prop where
  extent : p.Within d.snapshot
  undone : (c.restore p).Returned (d.restore p)

theorem Spares.grow (hc : c.Regular) (hd : d.Regular) (h : p.Within c.snapshot) (g : c.Grows d) :
    Spares p c d := by
  refine ⟨h.grow g, ?_⟩
  have same : d.restore p = { c with names := d.names }.restore p := by
    rw [← restore_restore hd h, restore_snapshot hc hd g]
  rw [same]
  exact ⟨fun _ _ => g.names, rfl, rfl, rfl, rfl, rfl⟩

theorem Spares.restore (hd : d.Regular) (h : p.Within d.snapshot) (hq : p.Within q) :
    Spares p d (d.restore q) := by
  refine ⟨h.restore hq, ?_⟩
  rw [restore_restore hd hq]
  exact .refl _

/-- What only changes metadata is undone, up to this metadata. -/
theorem Spares.of_returned (h : p.Within c.snapshot) (same : c.Returned d) : Spares p c d :=
  ⟨same.snapshot ▸ h, same.restore p⟩

theorem returned_annotateModule (d : Design) (id : ModuleId) (metadata : Metadata) :
    d.Returned (d.annotateModule id metadata) :=
  { Returned.refl d with
    modules := congrArg Table.mk (Table.map_items_modify _ _ fun _ => rfl) }

theorem returned_annotateGenerator (d : Design) (id : GeneratorId) (metadata : Metadata) :
    d.Returned (d.annotateGenerator id metadata) :=
  { Returned.refl d with
    generators := congrArg Table.mk (Table.map_items_modify _ _ fun _ => rfl) }

end Design

namespace Edit

open Design

variable {ε : Type}

theorem returned_setModuleMetadata (d : Design) (id : ModuleId) (metadata : Metadata) :
    d.Returned ((setModuleMetadata id metadata : Edit ε Unit).left d) := by
  cases hm : d.modules.get? id with
  | none =>
    rw [setModuleMetadata, left_of_error (bind_of_error (by rw [live_apply, hm]))]
    exact .refl d
  | some m =>
    rw [left_setModuleMetadata (Option.isSome_of_eq_some hm)]
    exact returned_annotateModule d id metadata

theorem returned_setGeneratorMetadata (d : Design) (id : GeneratorId) (metadata : Metadata) :
    d.Returned ((setGeneratorMetadata id metadata : Edit ε Unit).left d) := by
  cases hg : d.generators.get? id with
  | none =>
    rw [setGeneratorMetadata, left_of_error (bind_of_error (by rw [live_apply, hg]))]
    exact .refl d
  | some g =>
    rw [left_setGeneratorMetadata (Option.isSome_of_eq_some hg)]
    exact returned_annotateGenerator d id metadata

end Edit

/-- A load builds on the design, or gives it back if it fails. -/
theorem Document.left_load {d : Design} (hd : d.Regular) (strict : Bool) (doc : Json) :
    d.Builds ((load strict doc).left d) ∨ d.Returned ((load strict doc).left d) := by
  have built := leads_read (R := Design.Builds) strict doc d
  rcases left_load_cases strict doc d with same | same <;> rw [same]
  · exact Or.inl built
  · rw [Design.restore_snapshot hd (built.regular hd) built.grows]
    exact Or.inr ⟨fun _ _ => built.grows.names, rfl, rfl, rfl, rfl, rfl⟩

/-! ## Sessions from a restore point on -/

/-- Whether a call changes a module or generator in place, and more of it than metadata. -/
def Call.writesInPlace : Call → Bool
  | writeModule _ _ | writeGenerator _ _ => true
  | _ => false

/-- The position of the point that a call restores. -/
def Call.restores? : Call → Option Nat
  | restore k => some k
  | _ => none

namespace Session

/-- The position of the restore point that has `n` older ones. -/
def position (s : Session) (n : Nat) : Nat := s.points.length - (n + 1)

/-- Every call but a restore of one of the `n` oldest points, and a change in place of
anything but metadata. -/
def Since (n : Nat) (s : Session) (c : Call) : Prop :=
  c.writesInPlace = false ∧ ∀ k ∈ c.restores?, k + n < s.points.length

instance (n : Nat) (s : Session) (c : Call) : Decidable (Since n s c) :=
  inferInstanceAs (Decidable (_ ∧ _))

/-! ## What a call can do -/

section

variable {α : Type} (s : Session) (k : Nat)
  (step : Definition → Edit GraphError (Definition × α))

theorem points_build : (s.build k step).points = s.points := by
  unfold build
  split
  · rfl
  · split <;> rfl

theorem design_build :
    (s.build k step).design = s.design ∨ ∃ x, (s.build k step).design = (step x).left s.design := by
  unfold build Edit.left
  split
  · exact Or.inl rfl
  · rename_i draft _
    refine Or.inr ⟨draft.definition, ?_⟩
    split <;> rename_i hx <;> rw [hx]

theorem builds_after {ε : Type} {step : Edit ε α} (grows : Edit.OnlyGrows step) :
    s.design.Builds (s.after step).design :=
  grows s.design

theorem builds_build (grows : ∀ x, Edit.OnlyGrows (step x)) :
    s.design.Builds (s.build k step).design := by
  rcases design_build s k step with same | ⟨x, same⟩ <;> rw [same]
  · exact .refl _
  · exact grows x s.design

end

/-- A call builds on the design or gives it back, but for metadata. If it does not, it takes or
restores a point. -/
theorem step_cases {s : Session} (hs : s.design.Regular) {call : Call}
    (inPlace : call.writesInPlace = false) :
    ((s.step call).points = s.points ∧ call.restores? = none ∧
      (s.design.Builds (s.step call).design ∨ s.design.Returned (s.step call).design)) ∨
    call = .snapshot ∨ ∃ k, call = .restore k := by
  cases call with
  | intern t => exact .inl ⟨rfl, rfl, .inl (builds_after s (.intern t))⟩
  | array element length => exact .inl ⟨rfl, rfl, .inl (builds_after s (.array element length))⟩
  | record fields => exact .inl ⟨rfl, rfl, .inl (builds_after s (.record fields))⟩
  | readType node => exact .inl ⟨rfl, rfl, .inl (builds_after s (Document.onlyGrows_readType node))⟩
  | readParams node => exact .inl ⟨rfl, rfl, .inl (builds_after s (Document.leads_readParams node))⟩
  | readArgs params node what strict =>
    exact .inl ⟨rfl, rfl, .inl (builds_after s (Document.leads_readArgs _ node what strict))⟩
  | openNamespace name => exact .inl ⟨rfl, rfl, .inl (builds_after s (.openNamespace name))⟩
  | declareModule scope name type params =>
    exact .inl ⟨rfl, rfl, .inl (builds_after s (.declareModule scope name type _))⟩
  | declareGenerator scope name genparams params =>
    exact .inl ⟨rfl, rfl, .inl (builds_after s (.declareGenerator scope name _ _))⟩
  | annotateModule id metadata =>
    exact .inl ⟨rfl, rfl, .inr (Edit.returned_setModuleMetadata _ id metadata)⟩
  | annotateGenerator id metadata =>
    exact .inl ⟨rfl, rfl, .inr (Edit.returned_setGeneratorMetadata _ id metadata)⟩
  | writeModule | writeGenerator => cases inPlace
  | newDraft | annotateInstance | annotateConnection | annotateDraft | writeDraft =>
    exact .inl ⟨rfl, rfl, .inl (.refl _)⟩
  | addInstance k name id config =>
    refine .inl ⟨points_build .., rfl, .inl (builds_build _ _ _ fun _ => ?_)⟩
    exact Document.leads_addInstance _ name id _
  | addGeneratorInstance k name id genargs config =>
    refine .inl ⟨points_build .., rfl, .inl (builds_build _ _ _ fun _ => ?_)⟩
    exact Document.leads_addGeneratorInstance _ name id _ _
  | connect k a b metadata =>
    exact .inl ⟨points_build .., rfl, .inl (builds_build _ _ _ fun _ => .check _)⟩
  | attach k =>
    simp only [step]
    split
    · exact .inl ⟨rfl, rfl, .inl (.refl _)⟩
    · exact .inl ⟨rfl, rfl, .inl (builds_after s (.attach _))⟩
  | load strict doc => exact .inl ⟨rfl, rfl, Document.left_load hs strict doc⟩
  | snapshot => exact .inr (.inl rfl)
  | restore k => exact .inr (.inr ⟨k, rfl⟩)

/-! ## Restore points that are guarded -/

/-- The session still holds a restore point of this design, after the older ones, and a
restore of it gives the design back. -/
structure Guards (older : List Point) (c : Design) (s : Session) : Prop where
  regular : s.design.Regular
  points : ∃ newer, s.points = newer ++ ⟨c.snapshot, true⟩ :: older ∧
    ∀ q ∈ newer, c.snapshot.Within q.snapshot
  extent : c.snapshot.Within s.design.snapshot
  returns : c.Returned (s.design.restore c.snapshot)

variable {s : Session} {c d : Design} {older : List Point}

theorem guards_snapshot (hs : s.design.Regular) :
    (s.step .snapshot).Guards s.points s.design where
  regular := hs
  points := ⟨[], rfl, List.forall_mem_nil _⟩
  extent := .refl _
  returns := by
    change s.design.Returned (s.design.restore s.design.snapshot)
    rw [Design.restore_snapshot hs hs (.refl _)]
    exact .refl _

/-- A session keeps the point while its design is changed in ways that a restore undoes. -/
theorem Guards.change (h : s.Guards older c) {t : Session} (points : t.points = s.points)
    (regular : t.design.Regular) (spares : Design.Spares c.snapshot s.design t.design) :
    t.Guards older c where
  regular := regular
  points := points ▸ h.points
  extent := spares.extent
  returns := h.returns.trans spares.undone

/-- A restore of this point, or of a newer one, leaves the older points. -/
theorem Guards.restore (h : s.Guards older c) {k : Nat}
    (since : k + older.length < s.points.length) : (s.restore k).Guards older c := by
  obtain ⟨newer, points, reach⟩ := h.points
  rw [points, List.length_append, List.length_cons] at since
  -- Points before the recorded one are newer, and their extents hold its extent.
  have at_point : ∀ p, s.points[k]? = some p → c.snapshot.Within p.snapshot := by
    intro p hp
    rw [points] at hp
    by_cases hk : k < newer.length
    · rw [List.getElem?_append_left hk] at hp
      exact reach p (List.mem_of_getElem? hp)
    · rw [List.getElem?_append_right (by omega), show k - newer.length = 0 by omega] at hp
      cases hp
      exact .refl c
  unfold Session.restore
  cases hp : s.points[k]? with
  | none => exact h
  | some p =>
    have spares := Design.Spares.restore h.regular h.extent (at_point p hp)
    refine ⟨h.regular.restore _, ?_, spares.extent, h.returns.trans spares.undone⟩
    refine ⟨(newer.take k).map (fun q => { q with valid := false }) ++ newer.drop k, ?_, ?_⟩
    · have front : (newer ++ ⟨c.snapshot, true⟩ :: older).take k = newer.take k :=
        List.take_append_of_le_length (by omega)
      have back : (newer ++ ⟨c.snapshot, true⟩ :: older).drop k =
          newer.drop k ++ ⟨c.snapshot, true⟩ :: older :=
        List.drop_append_of_le_length (by omega)
      simp only [points, front, back, List.append_assoc]
    · intro q hq
      rcases List.mem_append.1 hq with hq | hq
      · obtain ⟨q', hq', rfl⟩ := List.mem_map.1 hq
        exact reach q' (List.mem_of_mem_take hq')
      · exact reach q (List.mem_of_mem_drop hq)

/-- No call since the restore point gets in the way of it. -/
theorem Guards.step (h : s.Guards older c) {call : Call} (since : s.Since older.length call) :
    (s.step call).Guards older c := by
  rcases step_cases h.regular since.1 with ⟨points, -, built | same⟩ | rfl | ⟨k, rfl⟩
  · exact h.change points (built.regular h.regular)
      (.grow h.regular (built.regular h.regular) h.extent built.grows)
  · exact h.change points (regular_step h.regular call) (.of_returned h.extent same)
  · obtain ⟨newer, points, reach⟩ := h.points
    refine ⟨h.regular, ⟨⟨s.design.snapshot, true⟩ :: newer, congrArg _ points, ?_⟩, h.extent,
      h.returns⟩
    exact List.forall_mem_cons.2 ⟨h.extent, reach⟩
  · exact h.restore (since.2 k rfl)

theorem Guards.run (h : s.Guards older c) {calls : List Call}
    (since : Admitted (Since older.length) s calls) : (s.run calls).Guards older c := by
  induction calls generalizing s with
  | nil => exact h
  | cons call rest ih => exact ih (h.step since.1) since.2

theorem Guards.point (h : s.Guards older c) :
    s.points[s.position older.length]? = some ⟨c.snapshot, true⟩ := by
  obtain ⟨newer, points, -⟩ := h.points
  rw [position, points, List.length_append, List.length_cons,
    show newer.length + (older.length + 1) - (older.length + 1) = newer.length by omega,
    List.getElem?_append_right (Nat.le_refl _), Nat.sub_self]
  rfl

theorem Guards.design_restore (h : s.Guards older c) :
    (s.restore (s.position older.length)).design = s.design.restore c.snapshot := by
  simp only [Session.restore, h.point]

theorem Guards.length_lt (h : s.Guards older c) :
    s.position older.length + older.length < s.points.length := by
  obtain ⟨newer, points, -⟩ := h.points
  rw [position, points, List.length_append, List.length_cons]
  omega

/-- A restore point guards what it gave back as well as what it was taken of. -/
theorem Guards.of_returned (h : s.Guards older c) (same : c.Returned d)
    (returns : d.Returned (s.design.restore c.snapshot)) : s.Guards older d := by
  have extent := same.snapshot
  exact ⟨h.regular, by rw [extent]; exact h.points, by rw [extent]; exact h.extent,
    by rw [extent]; exact returns⟩

/-- After any calls that restore no older point, a restore gives back the design of the
restore point, and each later restore of the point gives it back again. -/
theorem restore_after_run {s : Session} (reached : s.Reachable anyCall) {calls : List Call}
    (since : Admitted (Since s.points.length) (s.step .snapshot) calls) :
    let n := s.points.length
    let t := (s.step .snapshot).run calls
    let u := t.restore (t.position n)
    t.points[t.position n]? = some ⟨s.design.snapshot, true⟩ ∧ s.design.Returned u.design ∧
      (u.restore (u.position n)).design = u.design ∧
      ∀ more, Admitted (Since n) u more →
        let v := u.run more
        u.design.Returned (v.restore (v.position n)).design := by
  intro n t u
  have guards : t.Guards s.points s.design := (guards_snapshot reached.regular).run since
  have regular := guards.regular.restore s.design.snapshot
  have given := guards.design_restore
  have returned : s.design.Returned u.design := by
    change s.design.Returned (t.restore (t.position s.points.length)).design
    rw [given]
    exact guards.returns
  have restored : u.Guards s.points s.design := guards.restore guards.length_lt
  have again : u.design.restore s.design.snapshot = u.design := by
    rw [← returned.snapshot, Design.restore_snapshot restored.regular restored.regular (.refl _)]
  refine ⟨guards.point, returned, restored.design_restore.trans again, fun more ok => ?_⟩
  have kept : (u.run more).Guards s.points u.design :=
    (restored.of_returned returned (again.symm ▸ .refl _)).run ok
  change u.design.Returned ((u.run more).restore ((u.run more).position s.points.length)).design
  rw [kept.design_restore]
  exact kept.returns

/-- Two modules that are only declared. -/
def sessionWithTwoModules : Session :=
  .run .start [.openNamespace "lib", .declareModule ⟨0⟩ "reg" TypeTable.bitInId [],
    .declareModule ⟨0⟩ "main" TypeTable.anyId []]

/-- A new type, a new namespace with a module in it, a definition and metadata for old modules,
a load that fails and one that does not, and a newer restore point that is restored. -/
def callsAfterPoint : List Call := [
  .array TypeTable.bitOutId 4, .openNamespace "new", .declareModule ⟨1⟩ "wrap" ⟨3⟩ [],
  .newDraft ⟨1⟩, .addInstance 0 "r" ⟨2⟩ [], .attach 0, .annotateModule ⟨0⟩ ⟨[("line", .int 7)]⟩,
  .load false (.object [("top", .null)]), .snapshot,
  .load true (.object [("top", .array [.string "other", .string "m"]),
    ("namespaces", .object [("other", .object [("modules",
      .object [("m", .object [("type", .string "Any")])])])])]),
  .restore 0]

/-- The module with a new definition and the one with new metadata are there before the
restore, and so are a namespace and a type more. -/
theorem two_modules_after_run :
    let s := sessionWithTwoModules
    let t := (s.step .snapshot).run callsAfterPoint
    (t.design.modules.items.map (·.definition.isSome)) = #[false, true, false] ∧
      s.design.Returned (t.restore (t.position s.points.length)).design := by
  intro s t
  have reached : s.Reachable anyCall := .run .start ⟨trivial, trivial, trivial, trivial⟩
  have since : Admitted (Since s.points.length) (s.step .snapshot) callsAfterPoint := by
    decide +kernel
  exact ⟨by decide +kernel, (restore_after_run reached since).2.1⟩

end Session

end Netlist
