-- Which arguments a list of parameters accepts. The check walks through two maps, each in
-- its own order, yet what it accepts is told by names and kinds alone. The order counts
-- only for what is refused: a parameter is blamed before an argument, and of each sort the
-- one that came first.
import Netlist.Proofs.Drafts

namespace Netlist

/-! ## Maps that the operations make -/

/-- The maps that come of the operations, in whatever order these follow each other. -/
inductive NameMap.Made {α : Type} : NameMap α → Prop
  | empty : Made ∅
  | ofList (entries : List (Name × α)) : Made (NameMap.ofList entries)
  | insert {m : NameMap α} (h : Made m) (n : Name) (a : α) : Made (m.insert n a).2
  | tryInsert {m k : NameMap α} (h : Made m) (n : Name) (a : α) (new : m.tryInsert? n a = some k) :
    Made k
  | modify {m : NameMap α} (h : Made m) (n : Name) (f : α → α) : Made (m.modify n f)
  | take {m : NameMap α} (h : Made m) (size : Nat) : Made (m.take size)

theorem NameMap.Made.consistent {α : Type} {m : NameMap α} (h : m.Made) : m.Consistent := by
  induction h with
  | empty => exact consistent_empty
  | ofList entries => exact consistent_ofList entries
  | insert _ n a ih => exact ih.insert n a
  | tryInsert _ n a new ih => exact ih.tryInsert? new
  | modify _ n f ih => exact ih.modify n f
  | take _ size ih => exact ih.take size

namespace Params

variable {params : Params} {args : Args} {m : Mismatch}

/-! ## What is asked of the arguments -/

/-- The arguments bind the parameters and nothing else, each to a value of its kind. -/
structure Exact (params : Params) (args : Args) : Prop where
  names : ∀ n, n ∈ args.names ↔ n ∈ params.names
  kinds : ∀ p ∈ params.toList, ∀ e ∈ args.toList, e.1 = p.1 → e.2.kind = p.2

/-- A parameter is bound to a value of its kind. -/
def Meets (args : Args) (p : Name × ParamKind) : Prop :=
  ∃ a, (p.1, a) ∈ args.toList ∧ a.kind = p.2

/-- What the arguments do wrong for a parameter. -/
inductive Lacks (args : Args) : Name × ParamKind → Mismatch → Prop
  | missing {n : Name} {kind : ParamKind} (unbound : n ∉ args.names) :
    Lacks args (n, kind) (.missing n)
  | wrongKind {n : Name} {kind : ParamKind} {a : Arg} (bound : (n, a) ∈ args.toList)
      (other : a.kind ≠ kind) : Lacks args (n, kind) (.wrongKind n kind a.kind)

/-- What is to blame for a refusal: the first parameter that is not met, and if all are, the
first argument that none of them declares. -/
inductive Blames (params : Params) (args : Args) : Mismatch → Prop
  | param {before after : List (Name × ParamKind)} {p : Name × ParamKind} {m : Mismatch}
      (place : params.toList = before ++ p :: after) (met : ∀ q ∈ before, Meets args q)
      (lacks : Lacks args p m) : Blames params args m
  | arg {before after : List Name} {n : Name} (met : ∀ q ∈ params.toList, Meets args q)
      (place : args.names = before ++ n :: after) (declared : ∀ k ∈ before, k ∈ params.names)
      (undeclared : n ∉ params.names) : Blames params args (.unexpected n)

/-! ## One parameter -/

/-- What is wrong with the argument of one parameter. -/
def lack? (args : Args) (p : Name × ParamKind) : Option Mismatch :=
  match args.get? p.1 with
  | none => some (.missing p.1)
  | some a => if a.kind = p.2 then none else some (.wrongKind p.1 p.2 a.kind)

theorem unmet?_eq_findSome? (args : Args) (l : List (Name × ParamKind)) :
    unmet? args l = l.findSome? (lack? args) := by
  induction l with
  | nil => rfl
  | cons p rest ih =>
    rw [unmet?, List.findSome?_cons, lack?]
    cases args.get? p.1 with
    | none => rfl
    | some a => by_cases same : a.kind = p.2 <;> simp [same, ih]

theorem lack?_eq_none_iff (ha : args.Consistent) (p : Name × ParamKind) :
    lack? args p = none ↔ Meets args p := by
  unfold lack? Meets
  simp only [← ha.get?_eq_some_iff]
  cases args.get? p.1 with
  | none => simp
  | some a => simp

theorem lack?_eq_some_iff (ha : args.Consistent) (p : Name × ParamKind) :
    lack? args p = some m ↔ Lacks args p m := by
  obtain ⟨n, kind⟩ := p
  unfold lack?
  constructor
  · cases found : args.get? n with
    | none =>
      rintro ⟨⟩
      exact .missing ((ha.get?_eq_none_iff n).1 found)
    | some a =>
      dsimp only
      split
      · rintro ⟨⟩
      · rename_i other
        rintro ⟨⟩
        exact .wrongKind ((ha.get?_eq_some_iff n a).1 found) other
  · intro lacks
    cases lacks with
    | missing unbound => simp [(ha.get?_eq_none_iff n).2 unbound]
    | wrongKind bound other => simp [(ha.get?_eq_some_iff n _).2 bound, other]

/-! ## All parameters and all arguments -/

theorem undeclared?_eq_some_iff (hp : params.Consistent) : undeclared? params args = some m ↔
    ∃ before n after, args.names = before ++ n :: after ∧ (∀ k ∈ before, k ∈ params.names) ∧
      n ∉ params.names ∧ m = .unexpected n := by
  have declares : ∀ n, (!params.contains n) = true ↔ n ∉ params.names := fun n => by
    rw [Bool.not_eq_true', hp.contains_eq_false_iff]
  simp only [undeclared?, Option.map_eq_some_iff, List.find?_eq_some_iff_append, declares,
    Bool.not_not, hp.contains_iff]
  constructor
  · rintro ⟨n, ⟨new, before, after, place, declared⟩, rfl⟩
    exact ⟨before, n, after, place, declared, new, rfl⟩
  · rintro ⟨before, n, after, place, declared, new, rfl⟩
    exact ⟨n, ⟨new, before, after, place, declared⟩, rfl⟩

theorem mismatch?_eq_some_iff (hp : params.Consistent) (ha : args.Consistent) :
    params.mismatch? args = some m ↔ Blames params args m := by
  rw [mismatch?, Option.or_eq_some_iff, unmet?_eq_findSome?, undeclared?_eq_some_iff hp,
    List.findSome?_eq_some_iff, List.findSome?_eq_none_iff]
  simp only [lack?_eq_none_iff ha, lack?_eq_some_iff ha]
  constructor
  · rintro (⟨before, p, after, place, lacks, met⟩ |
      ⟨met, before, n, after, place, declared, new, rfl⟩)
    · exact .param place met lacks
    · exact .arg met place declared new
  · intro blames
    cases blames with
    | param place met lacks => exact .inl ⟨_, _, _, place, lacks, met⟩
    | arg met place declared new => exact .inr ⟨met, _, _, _, place, declared, new, rfl⟩

/-- Arguments fit exactly if they bind the parameters, whatever the two orders are. -/
theorem fits_iff_exact (hp : params.Consistent) (ha : args.Consistent) :
    params.Fits args ↔ Exact params args := by
  simp only [fits_iff, ha.get?_eq_some_iff, hp.contains_iff]
  constructor
  · rintro ⟨met, declared⟩
    refine ⟨fun n => ⟨declared n, fun hn => ?_⟩, fun p param e bound same => ?_⟩
    · obtain ⟨p, param, rfl⟩ := List.mem_map.1 hn
      obtain ⟨a, bound, -⟩ := met p param
      exact List.mem_map_of_mem bound
    · obtain ⟨b, bound', kind⟩ := met p param
      -- a name has one value
      have found := (ha.get?_eq_some_iff e.1 e.2).2 bound
      rw [same, (ha.get?_eq_some_iff p.1 b).2 bound'] at found
      rw [← Option.some.inj found, kind]
  · rintro ⟨names, kinds⟩
    refine ⟨fun p param => ?_, fun n hn => (names n).1 hn⟩
    obtain ⟨e, bound, same⟩ := List.mem_map.1 ((names p.1).2 (List.mem_map_of_mem param))
    rw [← same]
    exact ⟨e.2, bound, kinds p param e bound same⟩

theorem check_eq_error_iff {target : String} {names : NameTable} {e : Failure GraphError} :
    params.check args target names = .error e ↔
      ∃ m, params.mismatch? args = some m ∧ e = .ofOption (m.toError? names target) := by
  unfold check
  cases params.mismatch? args <;> simp [eq_comm]

/-! ## The check -/

/-- The names of the maps below. -/
def adderNames : NameTable :=
  (((Pool.empty.intern "width").2.intern "depth").2.intern "mode").2.intern "seed" |>.2

def adderParams : Params := .ofList [(⟨0⟩, .int), (⟨1⟩, .int), (⟨2⟩, .string)]

/-- Every parameter, in another order: one bound late, and one bound again. -/
def adderArgs : Args :=
  let start : Args := .ofList [(⟨2⟩, .string "fast"), (⟨0⟩, .string "wide")]
  ((start.insert ⟨1⟩ (.int 4)).2.insert ⟨0⟩ (.int 8)).2

/-- An argument that no parameter declares, then one of another kind, and one cut off. -/
def flawedArgs : Args :=
  (NameMap.ofList [(⟨3⟩, .int 1), (⟨1⟩, .string "deep"), (⟨0⟩, .int 8), (⟨2⟩, .string "")]).take 3

end Params

end Netlist
