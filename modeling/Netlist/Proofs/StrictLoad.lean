-- Strict and lax loads. They take the same steps up to the first argument that no parameter
-- asks for: there the strict load refuses the document, and the lax one only warns. So a
-- strict load is a lax one that has nothing to warn of, with the same answer and the same
-- design, and the warnings of a lax load are told from the document.
import Netlist.Proofs.FailedLoad
import Netlist.Proofs.Live
import Netlist.Proofs.Loaded

namespace Netlist.Document

open Edit

variable {α β : Type}

/-! ## Outcomes of a strict and of a lax step -/

/-- How the outcome of a strict step compares to that of the lax one. -/
inductive Tightened :
    EStateM.Result (Failure LoadError) Design (α × List Diagnostic) →
    EStateM.Result (Failure LoadError) Design (α × List Diagnostic) → Prop
  /-- There is nothing to warn of, and nothing differs. -/
  | same (a : α) (d : Design) : Tightened (.ok (a, []) d) (.ok (a, []) d)
  /-- Both fail for the same reason. -/
  | failed (e : Failure LoadError) (d : Design) : Tightened (.error e d) (.error e d)
  /-- The strict step refuses an argument. The lax one fails later, or has a warning. -/
  | refused (text : String) (d : Design)
      {lax : EStateM.Result (Failure LoadError) Design (α × List Diagnostic)}
      (warns : ∀ a d', lax ≠ .ok (a, []) d') :
      Tightened (.error (.error (.arg text)) d) lax

/-- Whether one step is the strict form of another one, whatever design it begins with. -/
def Tightens (x y : Load (α × List Diagnostic)) : Prop := ∀ d, Tightened (x d) (y d)

/-- Whether a step that ends without any warning was given none. -/
def Carries (given : List Diagnostic) (x : Load (α × List Diagnostic)) : Prop :=
  ∀ d a d', x d = .ok (a, []) d' → given = []

theorem Carries.pure (a : α) (given more : List Diagnostic) :
    Carries given (pure (a, given ++ more) : Load (α × List Diagnostic)) := by
  intro d b d' h
  have none : given ++ more = [] := by
    injection h with answer _
    exact (Prod.mk.inj answer).2
  exact (List.append_eq_nil_iff.1 none).1

theorem Carries.last (a : α) (given : List Diagnostic) :
    Carries given (Pure.pure (a, given) : Load (α × List Diagnostic)) := by
  simpa using Carries.pure a given []

theorem Carries.after {given : List Diagnostic} {x : Load β}
    {f : β → Load (α × List Diagnostic)} (h : ∀ b, Carries given (f b)) :
    Carries given (x >>= f) := by
  intro d a d' ran
  cases hx : x d with
  | error e left =>
    rw [bind_of_error hx] at ran
    cases ran
  | ok b left =>
    rw [bind_of_ok hx] at ran
    exact h b left a d' ran

namespace Tightens

theorem refl (a : α) : Tightens (pure (a, [])) (pure (a, [])) := fun d => .same a d

/-- First comes a step that does not depend on being strict. -/
theorem after {x : Load β} {f g : β → Load (α × List Diagnostic)}
    (h : ∀ b, Tightens (f b) (g b)) : Tightens (x >>= f) (x >>= g) := by
  intro d
  cases hx : x d with
  | error e left =>
    rw [bind_of_error hx, bind_of_error hx]
    exact .failed e left
  | ok b left =>
    rw [bind_of_ok hx, bind_of_ok hx]
    exact h b left

/-- First comes a step that warns, and its warnings are carried along. -/
theorem bind {x y : Load (β × List Diagnostic)} {f g : β × List Diagnostic → Load (α × List Diagnostic)}
    (hx : Tightens x y) (h : ∀ b, Tightens (f (b, [])) (g (b, [])))
    (carries : ∀ b given, Carries given (g (b, given))) : Tightens (x >>= f) (y >>= g) := by
  intro d
  have first := hx d
  generalize hs : x d = strict at first
  generalize hl : y d = lax at first
  cases first with
  | same b left =>
    rw [bind_of_ok hs, bind_of_ok hl]
    exact h b left
  | failed e left =>
    rw [bind_of_error hs, bind_of_error hl]
    exact .failed e left
  | refused text left warns =>
    rw [bind_of_error hs]
    refine .refused text left fun a d' ran => ?_
    cases lax with
    | error e left' =>
      rw [bind_of_error hl] at ran
      cases ran
    | ok answer left' =>
      obtain ⟨b, given⟩ := answer
      rw [bind_of_ok hl] at ran
      obtain rfl := carries b given left' a d' ran
      exact warns b left' rfl

end Tightens

/-! ## Steps of a load -/

theorem tightens_readArgs (params : Params) (node : Json) (what : String) :
    Tightens (readArgs params node what true) (readArgs params node what false) := by
  unfold readArgs
  refine .after fun ms => .after fun args => .after fun d => ?_
  cases unknownKeys d params ms with
  | nil => exact .refl args
  | cons key more =>
    intro left
    refine .refused _ left fun a d' ran => ?_
    injection ran with answer _
    exact List.cons_ne_nil _ _ (Prod.mk.inj answer).2

theorem tightens_readInstance (owner : String) (definition : Definition) (name : String)
    (node : Json) :
    Tightens (readInstance true owner definition name node)
      (readInstance false owner definition name node) :=
  .after fun _ => .after fun _ => .after fun _ => .after fun _ => .after fun params =>
    .bind (tightens_readArgs params _ _)
      (fun _ => .after fun _ => .after fun _ => .after fun _ => .refl _)
      fun _ _ => .after fun _ => .after fun _ => .after fun _ => .last _ _

theorem tightens_readInstances (owner : String) (ms : List (String × Json))
    (definition : Definition) :
    Tightens (readInstances true owner definition ms) (readInstances false owner definition ms) := by
  induction ms generalizing definition with
  | nil => exact .refl definition
  | cons m rest ih =>
    exact .bind (tightens_readInstance owner definition m.1 m.2)
      (fun first => .bind (ih first) (fun all => .refl all) fun _ _ => .last _ _)
      fun _ _ => .after fun _ => .pure _ _ _

theorem tightens_readInstancesOf (owner : String) (id : ModuleId) (ms : List (String × Json)) :
    Tightens (readInstancesOf true owner id ms) (readInstancesOf false owner id ms) := by
  unfold readInstancesOf
  cases optional ms "instances" with
  | none => exact .refl (Definition.empty id)
  | some node => exact .after fun entries => tightens_readInstances owner entries (Definition.empty id)

theorem tightens_readDefinition (u : Undefined) :
    Tightens (readDefinition true u) (readDefinition false u) :=
  .after fun _ => .after fun _ => .bind (tightens_readInstancesOf _ _ _)
    (fun _ => .after fun _ => .after fun _ => .after fun _ => .refl _)
    fun _ _ => .after fun _ => .after fun _ => .after fun _ => .last _ _

theorem tightens_readDefinitions (us : List Undefined) :
    Tightens (readDefinitions true us) (readDefinitions false us) := by
  induction us with
  | nil => exact .refl []
  | cons u rest ih =>
    exact .bind (tightens_readDefinition u)
      (fun _ => .bind ih (fun _ => .refl _) fun _ _ => .last _ _)
      fun _ _ => .after fun _ => .pure _ _ _

theorem tightens_read (doc : Json) : Tightens (read true doc) (read false doc) :=
  .after fun _ => .after fun _ => .after fun _ => .after fun _ => .after fun _ => .after fun _ =>
    .bind (tightens_readDefinitions _) (fun _ => .after fun _ => .after fun _ => .refl _)
      fun _ _ => .after fun _ => .after fun _ => .last _ _

/-- What a failed load takes back does not depend on being strict. -/
theorem tightens_load (doc : Json) : Tightens (load true doc) (load false doc) := by
  intro d
  have reading := tightens_read doc d
  unfold load
  generalize read true doc d = strict at reading ⊢
  generalize read false doc d = lax at reading ⊢
  cases reading with
  | same top left => exact .same top left
  | failed e left => cases e <;> exact .failed _ _
  | refused text left warns =>
    refine .refused text _ fun top d' ran => ?_
    cases lax with
    | ok answer left' => exact warns top d' ran
    | error e left' => cases e <;> cases ran

/-! ## The log -/

/-- Warnings that leave the log as it is are none. -/
theorem emitAll_eq_self_iff {log : Diagnostic.Log} {ds : List Diagnostic} :
    log.emitAll ds = log ↔ ds = [] := by
  constructor
  · intro same
    have pending := Diagnostic.Log.pending_emitAll log ds
    rw [same] at pending
    exact List.self_eq_append_right.1 pending
  · rintro rfl
    rfl

theorem loadReporting_eq_ok_iff {strict : Bool} {doc : Json} {d d' : Design}
    {log log' : Diagnostic.Log} {top : ModuleId} :
    loadReporting strict doc (d, log) = .ok top (d', log') ↔
      ∃ warnings, load strict doc d = .ok (top, warnings) d' ∧ log' = log.emitAll warnings := by
  constructor
  · intro h
    cases hl : load strict doc d with
    | error e left =>
      simp only [loadReporting, hl] at h
      cases h
    | ok answer left =>
      simp only [loadReporting, hl] at h
      cases h
      exact ⟨answer.2, rfl, rfl⟩
  · rintro ⟨warnings, loaded, rfl⟩
    simp only [loadReporting, loaded]

theorem loadReporting_eq_error_iff {strict : Bool} {doc : Json} {d d' : Design}
    {log log' : Diagnostic.Log} {e : Failure LoadError} :
    loadReporting strict doc (d, log) = .error e (d', log') ↔
      load strict doc d = .error e d' ∧ log' = log := by
  refine ⟨loadReporting_error, ?_⟩
  rintro ⟨failed, rfl⟩
  simp only [loadReporting, failed]

/-! ## Strict and lax loads -/

/-- A document with arguments that no parameter of a register asks for, in two instances. -/
def documentOfRegisters : Json :=
  .object [
    ("top", .array [.string "app", .string "pair"]),
    ("namespaces", .object [("app", .object [("modules", .object [
      ("pair", .object [("type", .string "Any"), ("def", .object [("instances", .object [
        ("high", .object [
          ("config", .object [("depth", .int 2), ("width", .int 8)]),
          ("instref", .array [.string "lib", .string "reg"])]),
        ("low", .object [
          ("instref", .array [.string "lib", .string "reg"]),
          ("config", .object [("width", .int 4), ("height", .null)])])])])])])])])]

end Netlist.Document
