-- Strict reading. What can be read strictly gives no warning, and it reads the same in the
-- other way: to be strict only turns the warnings into errors.
import Netlist.Proofs.Plain

namespace Netlist.Plain

open Document

/-- Whether one reading succeeds only without warnings, and the other one then gives the same. -/
def Strictly {α : Type} (x y : Reading (α × List Diagnostic)) : Prop :=
  ∀ a warnings, x = .ok (a, warnings) → warnings = [] ∧ y = .ok (a, [])

namespace Strictly

variable {α β : Type}

theorem refl (a : α) : Strictly (return (a, [])) (return (a, [])) := by
  intro b warnings h
  cases h
  exact ⟨rfl, rfl⟩

/-- First comes something that does not depend on being strict. -/
theorem after {x : Reading β} {f g : β → Reading (α × List Diagnostic)}
    (h : ∀ b, Strictly (f b) (g b)) : Strictly (x >>= f) (x >>= g) := by
  intro a warnings ha
  cases x with
  | error e => cases ha
  | ok b => exact h b a warnings ha

theorem bind {x y : Reading (β × List Diagnostic)}
    {f g : β × List Diagnostic → Reading (α × List Diagnostic)} (hx : Strictly x y)
    (h : ∀ b, Strictly (f (b, [])) (g (b, []))) : Strictly (x >>= f) (y >>= g) := by
  intro a warnings ha
  cases hb : x with
  | error e => rw [hb] at ha; cases ha
  | ok b =>
    obtain ⟨b, w⟩ := b
    obtain ⟨rfl, same⟩ := hx b w hb
    rw [hb] at ha
    rw [same]
    exact h b a warnings ha

end Strictly

theorem strictly_readArgs (params : List (String × ParamKind)) (node : Json) (what : String) :
    Strictly (readArgs params node what true) (readArgs params node what false) := by
  unfold readArgs
  refine .after fun ms => .after fun args => ?_
  cases unknownKeys params ms with
  | nil => exact .refl args
  | cons key more => exact fun _ _ h => nomatch h

theorem strictly_readInstance (scopes : Scopes) (owner name : String) (node : Json)
    (before : List (String × Outline.Instance)) :
    Strictly (readInstance true scopes owner name node before)
      (readInstance false scopes owner name node before) :=
  .after fun _ => .after fun _ => .after fun _ => .after fun _ =>
    .bind (strictly_readArgs _ _ _) fun _ => .after fun _ => .after fun _ => .after fun _ => .refl _

theorem strictly_readInstances (scopes : Scopes) (owner : String) (ms : List (String × Json))
    (before : List (String × Outline.Instance)) :
    Strictly (readInstances true scopes owner ms before)
      (readInstances false scopes owner ms before) := by
  induction ms generalizing before with
  | nil => exact .refl before
  | cons m rest ih =>
    exact .bind (strictly_readInstance scopes owner m.1 m.2 before) fun first =>
      .bind (ih first) fun all => .refl all

theorem strictly_readInstancesOf (scopes : Scopes) (owner : String) (ms : List (String × Json)) :
    Strictly (readInstancesOf true scopes owner ms) (readInstancesOf false scopes owner ms) := by
  unfold readInstancesOf
  cases optional ms "instances" with
  | none => exact .refl []
  | some node => exact .after fun entries => strictly_readInstances scopes owner entries []

theorem strictly_readDefinition (scopes : Scopes) (p : Pending) :
    Strictly (readDefinition true scopes p) (readDefinition false scopes p) :=
  .after fun _ => .bind (strictly_readInstancesOf _ _ _) fun _ =>
    .after fun _ => .after fun _ => .after fun _ => .refl _

theorem strictly_readDefinitions (scopes : Scopes) (ps : List Pending) :
    Strictly (readDefinitions true scopes ps) (readDefinitions false scopes ps) := by
  induction ps with
  | nil => exact .refl []
  | cons p rest ih => exact .bind (strictly_readDefinition scopes p) fun _ => .bind ih fun _ => .refl _

theorem strictly_read (doc : Json) (scopes : Scopes) :
    Strictly (read true doc scopes) (read false doc scopes) :=
  .after fun _ => .after fun _ => .after fun _ => .after fun _ => .after fun _ => .after fun _ =>
    .bind (strictly_readDefinitions _ _) fun _ => .after fun _ => .refl _

end Netlist.Plain
