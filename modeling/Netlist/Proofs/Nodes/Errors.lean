-- How the readers of single nodes fail: of which kind the error is, and what is wrong with the
-- node. A reader that only asks for a shape fails with a structural error.
import Netlist.Proofs.Valid

namespace Netlist

/-- An error of this kind, whatever its text. -/
def LoadError.Of (kind : String → LoadError) (e : LoadError) : Prop := ∃ text, e = kind text

namespace Plain

open Document
open Json (Optional)
open LoadError (Of)

/-! ## Readings that fail in one way only -/

/-- Whether a reading that fails does so with an error like this. -/
def OnlyFails {α : Type} (P : LoadError → Prop) (x : Reading α) : Prop := ∀ e, x = .error e → P e

namespace OnlyFails

variable {α β : Type} {P Q : LoadError → Prop} {x : Reading α}

protected theorem pure (a : α) : OnlyFails P (pure a : Reading α) := nofun

protected theorem throw {e : LoadError} (h : P e) : OnlyFails P (throw e : Reading α) := by
  rintro _ ⟨⟩
  exact h

theorem mono (h : OnlyFails P x) (weaker : ∀ e, P e → Q e) : OnlyFails Q x :=
  fun e failed => weaker e (h e failed)

protected theorem bind {f : α → Reading β} (first : OnlyFails P x)
    (next : ∀ a, x = .ok a → OnlyFails P (f a)) : OnlyFails P (x >>= f) := by
  intro e failed
  cases hx : x with
  | error e' =>
    rw [hx] at failed
    cases failed
    exact first _ hx
  | ok a =>
    rw [hx] at failed
    exact next a hx e failed

/-- What makes a reading succeed is amiss whenever it fails. -/
theorem otherwise {V : Prop} (h : OnlyFails P x) (valid : V → ∃ a, x = .ok a) :
    OnlyFails (fun e => P e ∧ ¬ V) x := by
  refine fun e failed => ⟨h e failed, fun v => ?_⟩
  obtain ⟨a, ok⟩ := valid v
  cases failed.symm.trans ok

/-- An error of the only kind there is. -/
theorem of {kind : String → LoadError} (text : String) :
    OnlyFails (Of kind) (throw (kind text) : Reading α) :=
  .throw ⟨text, rfl⟩

end OnlyFails

/-! ## Shapes -/

section

variable {node : Json} {ms : List (String × Json)} {key what owner name : String}

theorem members_fails : OnlyFails (Of .structural) (members node what) := by
  unfold members
  split
  · exact .pure _
  · exact .of _

theorem items_fails : OnlyFails (Of .structural) (items node what) := by
  unfold items
  split
  · exact .pure _
  · exact .of _

theorem required_fails : OnlyFails (Of .structural) (required ms key what) := by
  unfold required
  split
  · exact .pure _
  · exact .of _

theorem symbolPair_fails : OnlyFails (Of .structural) (symbolPair node what) := by
  unfold symbolPair
  split
  · exact .pure _
  · exact .of _

theorem readMetadata_fails : OnlyFails (Of .structural) (readMetadata node what) := by
  unfold readMetadata
  split
  · exact .pure _
  · exact members_fails.bind fun _ _ => .pure _

theorem readMetadata?_fails : OnlyFails (Of .structural) (readMetadata? ms key what) := by
  unfold readMetadata?
  split
  · exact readMetadata_fails
  · exact .pure _

theorem requireNew_fails {instances : List (String × Outline.Instance)} :
    OnlyFails (Of .structural) (requireNew owner name instances) := by
  unfold requireNew
  split
  · exact .of _
  · split
    · exact .of _
    · exact .pure _

/-! ## Connections -/

theorem connectionParts_fails : OnlyFails (Of .structural) (connectionParts node what) := by
  refine items_fails.bind fun parts _ => ?_
  split
  · exact .pure _
  · exact .pure _
  · exact .of _

theorem readWords_fails {P : LoadError → Prop} {malformed : LoadError} (h : P malformed)
    (nodes : List Json) : OnlyFails P (readWords malformed nodes) := by
  fun_induction readWords malformed nodes with
  | case1 => exact .pure _
  | case2 word rest ih => exact ih.bind fun _ _ => .pure _
  | case3 => exact .throw h

theorem readWirePath_fails : OnlyFails (Of .structural) (readWirePath node what) := by
  unfold readWirePath
  dsimp only
  split
  · refine (readWords_fails ⟨_, rfl⟩ _).bind fun words _ => ?_
    split
    · exact .pure _
    · exact .of _
  · exact .of _

theorem requireEnd_fails {instances : List (String × Outline.Instance)} {path : List String} :
    OnlyFails (Of .structural) (requireEnd owner instances path) := by
  unfold requireEnd
  split
  · exact .of _
  · split
    · exact .pure _
    · exact .of _

theorem readConnection_fails {instances : List (String × Outline.Instance)}
    {before : List Outline.Connection} :
    OnlyFails (Of .structural) (readConnection owner instances node before) := by
  refine connectionParts_fails.bind fun parts _ => ?_
  refine readWirePath_fails.bind fun first _ => readWirePath_fails.bind fun second _ => ?_
  refine readMetadata_fails.bind fun metadata _ => ?_
  exact requireEnd_fails.bind fun _ _ => requireEnd_fails.bind fun _ _ => .pure _

theorem readConnections_fails {instances : List (String × Outline.Instance)}
    (nodes : List Json) (before : List Outline.Connection) :
    OnlyFails (Of .structural) (readConnections owner instances nodes before) := by
  induction nodes generalizing before with
  | nil => exact .pure _
  | cons node rest ih => exact readConnection_fails.bind fun more _ => ih more

theorem readConnectionsOf_fails {instances : List (String × Outline.Instance)} :
    OnlyFails (Of .structural) (readConnectionsOf owner instances ms) := by
  unfold readConnectionsOf
  split
  · exact items_fails.bind fun nodes _ => readConnections_fails nodes []
  · exact .pure _

end

/-! ## Types -/

/-- Whatever is wrong inside the node of a type, the error is about a type. The induction
follows the node down. -/
theorem readType_isType (node : Json) : OnlyFails (Of .type) (readType node) := by
  refine typeNode_induction (P := fun node => OnlyFails (Of .type) (readType node))
    (Q := fun entries => OnlyFails (Of .type) (readFields entries))
    ?leaf ?array ?record ?malformed ?nil ?field ?noField node
  case leaf =>
    intro word id leaf
    obtain ⟨t, leaf'⟩ := exists_leafByName leaf
    rw [readType_leaf leaf']
    exact .pure t
  case array =>
    intro length element ih
    rw [readType_array]
    refine OnlyFails.bind ?_ fun n _ => ih.bind fun t _ => .pure _
    unfold readLength
    split
    · exact .pure _
    · exact .of _
  case record =>
    intro entries ih
    rw [readType_record]
    refine ih.bind fun fields _ => ?_
    split
    · exact .of _
    · exact .pure _
  case malformed =>
    intro node text h
    rw [readType_malformed h]
    exact .of _
  case nil =>
    rw [readFields]
    exact .pure []
  case field =>
    intro name node rest ih ih'
    rw [readFields]
    exact ih.bind fun t _ => ih'.bind fun more _ => .pure _
  case noField =>
    intro entry rest h
    rw [readFields_noField h]
    exact .of _

theorem exists_readType_iff {node : Json} : (∃ t, readType node = .ok t) ↔ ValidType node := by
  rw [validType_iff]
  exact exists_congr fun t => readType_eq_ok_iff.trans (and_congr_right fun _ => eq_comm)

theorem readType_fails {node : Json} :
    OnlyFails (fun e => e.Of .type ∧ ¬ ValidType node) (readType node) :=
  (readType_isType node).otherwise exists_readType_iff.2

/-! ## Parameters -/

theorem readKind_fails {name : String} {node : Json} :
    OnlyFails (Of .param) (readKind name node) := by
  unfold readKind
  split
  · split
    · exact .pure _
    · exact .of _
  · exact .of _

theorem readParamMembers_fails (ms : List (String × Json)) (before : List (String × ParamKind)) :
    OnlyFails (Of .param) (readParamMembers before ms) := by
  induction ms generalizing before with
  | nil => exact .pure _
  | cons m rest ih => exact readKind_fails.bind fun kind _ => ih _

/-- An error about parameters is one about the member that declares them. -/
theorem readParams?_fails {ms : List (String × Json)} (wf : (Json.object ms).WellFormed)
    {key : String} : OnlyFails (fun e => e.Of .param ∧ ¬ Optional ValidParams (.object ms) key)
      (readParams? ms key) := by
  refine OnlyFails.otherwise ?_ fun valid => ?_
  · unfold readParams? readParams
    split
    · split
      · exact .pure _
      · exact readParamMembers_fails _ []
      · exact .of _
    · exact .pure _
  · obtain ⟨ps, said⟩ := exists_params_iff.2 valid
    exact ⟨ps, (readParams?_eq_ok_iff wf).2 said⟩

end Plain

/-! ## Arguments -/

namespace Document

/-- The node of arguments that fits these parameters: each of them has a value of its kind. -/
def Fits (params : List (String × ParamKind)) (config : Json) : Prop :=
  (config = .null ∨ config.IsObject) ∧
    ∀ p ∈ params, ∃ v, Assoc.get? p.1 config.entries = some v ∧ ValidArg p.2 v

/-- A key of the arguments that no parameter has. -/
def Undeclared (params : List (String × ParamKind)) (config : Json) (key : String) : Prop :=
  key ∈ Assoc.keys config.entries ∧ key ∉ Assoc.keys params

end Document

namespace Plain

open Document
open LoadError (Of)

section

variable {params : List (String × ParamKind)} {config : Json} {what : String} {strict : Bool}

theorem exists_readArgs_iff : (∃ r, readArgs params config what strict = .ok r) ↔
    Fits params config ∧ (strict = true → ∀ key, ¬ Undeclared params config key) := by
  unfold Fits Undeclared
  constructor
  · rintro ⟨⟨args, warnings⟩, read⟩
    obtain ⟨ms, given, binds, known, -⟩ := readArgs_eq_ok_iff.1 read
    have entries : config.entries = ms := by
      rcases given with ⟨rfl, rfl⟩ | rfl <;> rfl
    rw [entries]
    refine ⟨⟨given.imp And.left fun h => ⟨ms, h⟩, exists_binds_iff.1 ⟨args, binds⟩⟩, ?_⟩
    rintro isStrict key ⟨there, undeclared⟩
    exact undeclared (unknownKeys_eq_nil_iff.1 (known isStrict) key there)
  · rintro ⟨⟨given, valid⟩, known⟩
    obtain ⟨args, binds⟩ := exists_binds_iff.2 valid
    refine ⟨(args, _), readArgs_eq_ok_iff.2 ⟨config.entries, ?_, binds, fun isStrict => ?_, rfl⟩⟩
    · rcases given with rfl | ⟨ms, rfl⟩
      · exact Or.inl ⟨rfl, rfl⟩
      · exact Or.inr rfl
    · exact unknownKeys_eq_nil_iff.2 fun key there =>
        by_contra fun undeclared => known isStrict key ⟨there, undeclared⟩

theorem readBindings_fails (ms : List (String × Json)) (params : List (String × ParamKind)) :
    OnlyFails (Of .arg) (readBindings ms what params) := by
  induction params with
  | nil => exact .pure _
  | cons p rest ih =>
    obtain ⟨key, kind⟩ := p
    rw [readBindings]
    split
    · exact .of _
    · refine OnlyFails.bind ?_ fun o _ => ?_
      · unfold readArg
        split
        · exact .pure _
        · exact .pure _
        · -- An error about the type of a value is told as one about the argument.
          refine OnlyFails.bind (fun e failed => ?_) fun t _ => .pure _
          cases hr : readType _ with
          | error e' => rw [hr] at failed; cases failed; exact ⟨_, rfl⟩
          | ok t => rw [hr] at failed; cases failed
      · split
        · exact ih.bind fun more _ => .pure _
        · exact .of _

/-- An error about arguments is one about the node that gives them. -/
theorem readArgs_fails : OnlyFails (fun e => e.Of .arg ∧
    (¬ Fits params config ∨ strict = true ∧ ∃ key, Undeclared params config key))
    (readArgs params config what strict) := by
  have invalid : OnlyFails (fun e => e.Of .arg ∧ ¬ (Fits params config ∧
      (strict = true → ∀ key, ¬ Undeclared params config key)))
      (readArgs params config what strict) := by
    refine OnlyFails.otherwise ?_ exists_readArgs_iff.2
    refine OnlyFails.bind ?_ fun ms _ => (readBindings_fails ms params).bind fun args _ => ?_
    · unfold argMembers
      split
      · exact .pure _
      · exact .pure _
      · exact .of _
    · split
      · exact .of _
      · exact .pure _
  refine invalid.mono fun e h => ⟨h.1, ?_⟩
  by_cases fits : Fits params config
  · refine Or.inr (by_contra fun known => h.2 ⟨fits, fun isStrict key undeclared => ?_⟩)
    exact known ⟨isStrict, key, undeclared⟩
  · exact Or.inl fits

end

end Plain

end Netlist
