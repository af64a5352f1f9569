-- Types in range. If arrays and records are only made of types that are there, the types of
-- a design are sound, whatever else was called, with whatever handles. For this the names
-- and types are looked at as a design of their own.
import Netlist.Proofs.Interning
import Netlist.Proofs.Live

namespace Netlist

/-! ## Names and types alone -/

namespace Design

/-- The design with the names and types of another one. -/
def withTables (d e : Design) : Design := { d with names := e.names, types := e.types }

/-- The names and types of a design without anything that was declared. -/
def tables (d : Design) : Design := empty.withTables d

/-- Sound names and types. What was declared with them may be anything. -/
structure TypesSound (d : Design) : Prop where
  names : d.names.Consistent
  types : d.types.Consistent
  self : d.text? selfName = some selfWord
  any : d.types.get? TypeTable.anyId = some .any
  bitIn : d.types.get? TypeTable.bitInId = some .bitIn
  bitOut : d.types.get? TypeTable.bitOutId = some .bitOut
  typeSound : ∀ {id w}, d.types.get? id = some w → w.Sound d id

variable {c d : Design}

theorem Sound.typesSound (h : d.Sound) : d.TypesSound where
  names := h.names
  types := h.types
  self := h.self
  any := h.any
  bitIn := h.bitIn
  bitOut := h.bitOut
  typeSound := h.typeSound

/-- Sound names and types are a sound design by themselves. -/
theorem TypesSound.tables (h : d.TypesSound) : d.tables.Sound :=
  { sound_empty with
    names := h.names
    types := h.types
    leaves := Table.index_lt_of_get? h.bitOut
    self := h.self
    any := h.any
    bitIn := h.bitIn
    bitOut := h.bitOut
    typeSound := h.typeSound
    namespaceSound := nofun
    moduleSound := nofun
    generatorSound := nofun }

/-- Whether names and types are sound does not depend on what was declared. -/
theorem TypesSound.of_tables (h : c.TypesSound) (names : d.names = c.names)
    (types : d.types = c.types) : d.TypesSound := by
  obtain ⟨_, _, _, _, _, _⟩ := d
  cases names
  cases types
  exact { h with }

/-- Growth of designs is growth of their names and types. -/
theorem Grows.tables_keeps (g : c.Grows d) : c.tables.Keeps d.tables where
  names := g.names
  types := g.types
  namespaces := nofun
  modules := nofun
  generators := nofun

/-- The tree of a type is told by names and types alone. -/
theorem typeTree?_withTables (d e : Design) (id : TypeId) :
    (d.withTables e).typeTree? id = e.typeTree? id := by
  have within : ∀ fuel id, (d.withTables e).treeWithin? fuel id = e.treeWithin? fuel id := by
    intro fuel
    induction fuel with
    | zero => exact fun _ => rfl
    | succ fuel ih =>
      intro id
      simp only [treeWithin?, ih]
      rfl
  exact within _ id

theorem typeTree?_tables (d : Design) (id : TypeId) : d.tables.typeTree? id = d.typeTree? id :=
  typeTree?_withTables empty d id

/-- So are the node of a type, and the outline of arguments. -/
theorem outlineArgs?_withTables (d e : Design) (args : Args) :
    (d.withTables e).outlineArgs? args = e.outlineArgs? args := by
  have tree : (d.withTables e).argTree? = e.argTree? := by
    funext a
    cases a with
    | int | string => rfl
    | type id => rw [argTree?, argTree?, typeTree?_withTables]
  rw [outlineArgs?, tree]
  rfl

end Design

/-! ## Steps on names and types -/

namespace Edit

open Design

variable {ε ε' α β : Type} {d e : Design}

/-- A result with everything but names and types from another design. -/
def overlaid (d : Design) : EStateM.Result (Failure ε) Design α → EStateM.Result (Failure ε) Design α
  | .ok a e => .ok a (d.withTables e)
  | .error f e => .error f (d.withTables e)

/-- A step that reads and changes names and types alone. -/
def Local (step : Edit ε α) : Prop := ∀ d e : Design, step (d.withTables e) = overlaid d (step e)

theorem Local.pure (a : α) : Local (pure a : Edit ε α) := fun _ _ => rfl

theorem Local.fail (e : ε) : Local (fail e : Edit ε α) := fun _ _ => rfl

theorem Local.ofExcept (x : Except ε α) : Local (ofExcept x) := by
  cases x <;> exact fun _ _ => rfl

theorem Local.bind {x : Edit ε α} {f : α → Edit ε β} (hx : Local x) (hf : ∀ a, Local (f a)) :
    Local (x >>= f) := fun d e => by
  have first := hx d e
  cases h : x e with
  | error f e' =>
    rw [h] at first
    rw [bind_of_error first, bind_of_error h]
    rfl
  | ok a e' =>
    rw [h] at first
    rw [bind_of_ok first, bind_of_ok h]
    exact hf a d e'

theorem Local.within {x : Edit ε α} (hx : Local x) (f : ε → ε') : Local (x.within f) :=
  fun d e => by
    rw [within_apply, within_apply, hx d e]
    cases x e <;> rfl

theorem Local.intern (s : String) : Local (intern s : Edit ε Name) := fun _ _ => rfl

theorem Local.internAll (words : List String) : Local (internAll words : Edit ε (List Name)) := by
  induction words with
  | nil => exact .pure _
  | cons s rest ih => exact (Local.intern s).bind fun _ => ih.bind fun _ => .pure _

theorem Local.array (element : TypeId) (length : Nat) :
    Local (array element length : Edit ε TypeId) := fun _ _ => rfl

theorem Local.record (fields : List (String × TypeId)) : Local (record fields) := by
  refine (Local.internAll _).bind fun names d e => ?_
  rw [bind_of_ok (get_apply _), bind_of_ok (get_apply _)]
  rw [show (d.withTables e).types = e.types from rfl]
  cases e.types.record (names.zip (fields.map (·.2))) <;> rfl

instance : Document.TypeSteps Local where
  pure := .pure
  fail := .fail
  ofExcept := .ofExcept
  bind := .bind
  within := .within
  array := .array
  record := .record

/-- A local step does in a design what it does to the names and types by themselves. -/
theorem Local.apply_eq {step : Edit ε α} (h : Local step) (d : Design) :
    step d = overlaid d (step d.tables) :=
  h d d.tables

theorem Local.left_eq {step : Edit ε α} (h : Local step) (d : Design) :
    step.left d = d.withTables (step.left d.tables) := by
  rw [left, left, h.apply_eq]
  cases step d.tables <;> rfl

/-- What keeps the names and types sound by themselves keeps them sound in any design. -/
theorem Local.typesSound_left {step : Edit ε α} (h : Local step)
    (sound : (step.left d.tables).Sound) : (step.left d).TypesSound := by
  rw [h.left_eq]
  exact sound.typesSound.of_tables rfl rfl

end Edit

/-! ## Types in range -/

namespace Design

variable {c d : Design}

theorem TypesSound.withName (h : d.TypesSound) (s : String) : (d.withName s).TypesSound :=
  (h.tables.withName s).typesSound.of_tables rfl rfl

theorem TypesSound.readType (h : d.TypesSound) (node : Json) :
    ((Document.readType node).left d).TypesSound :=
  (Document.TypeSteps.readType Edit.Local node).typesSound_left
    (Document.mirrors_readType node h.tables).sound_left

theorem TypesSound.restore (h : d.TypesSound) (p : Snapshot) : (d.restore p).TypesSound where
  names := h.names
  types := h.types.take _
  self := h.self
  any := (TypeTable.get?_keep_of_lt (by decide) _ _).trans h.any
  bitIn := (TypeTable.get?_keep_of_lt (by decide) _ _).trans h.bitIn
  bitOut := (TypeTable.get?_keep_of_lt (by decide) _ _).trans h.bitOut
  typeSound stored := h.typeSound (TypeTable.get?_of_keep stored)

/-- Whether the types of a design are sound if those of another one are. -/
def KeepsTypes (c d : Design) : Prop := c.TypesSound → d.TypesSound

instance : Call.Leading KeepsTypes where
  refl _ h := h
  trans h k hb := k (h hb)
  move {c d} h types hc := by
    cases h with
    | name s => exact hc.withName s
    | type t => exact hc.of_tables rfl types
    | scope | module | generator => exact (hc.withName _).of_tables rfl rfl
    | define => exact hc.of_tables rfl rfl
  readType node _ h := h.readType node
  modules _ _ h := h.of_tables rfl rfl
  generators _ _ h := h.of_tables rfl rfl
  restore _ p h := h.restore p

end Design

namespace Session

/-- Every call, except that arrays and records are only made of types that are there. The
length of an array has 32 bits. -/
def TypesInRange (s : Session) : Call → Prop
  | .array element length =>
    element.index < s.design.types.size ∧ length < UInt32.size
  | .record fields => ∀ f ∈ fields, f.2.index < s.design.types.size
  | _ => True

instance (s : Session) : (c : Call) → Decidable (s.TypesInRange c)
  | .array .. => instDecidableAnd
  | .record fields => inferInstanceAs (Decidable (∀ f ∈ fields, f.2.index < s.design.types.size))
  | .intern .. | .readType .. | .readParams .. | .readArgs .. | .openNamespace ..
  | .declareModule .. | .declareGenerator .. | .annotateModule .. | .annotateGenerator ..
  | .writeModule .. | .writeGenerator .. | .newDraft .. | .addInstance ..
  | .addGeneratorInstance .. | .connect .. | .annotateInstance .. | .annotateConnection ..
  | .annotateDraft .. | .writeDraft .. | .attach .. | .load .. | .snapshot | .restore .. =>
    .isTrue trivial

/-- Types that are only made of types that are there are sound. -/
theorem Reachable.typesSound {s : Session} (h : Reachable TypesInRange s) :
    s.design.TypesSound := by
  induction h with
  | start => exact Design.sound_empty.typesSound
  | @step s c _ range ih =>
    have live : ∀ {id : TypeId}, id.index < s.design.types.size →
        (s.design.tables.types.get? id).isSome := (Table.isSome_get?_iff _ _).2
    refine leads_step (R := Design.KeepsTypes) s c ?_ ?_ ih
    · rintro element length rfl sound
      exact (Edit.Local.array (ε := LoadError) element length).typesSound_left
        (sound.tables.withType (Design.sound_array (live range.1) range.2))
    · rintro fields rfl sound
      exact (Edit.Local.record fields).typesSound_left
        (Edit.sound_record sound.tables fun f hf => live (range f hf))

end Session

end Netlist
