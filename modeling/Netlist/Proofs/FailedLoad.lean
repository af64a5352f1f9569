-- A load that fails changes nothing. Wherever it stops, it has only let the design grow,
-- so the restore finds the old one again, with more names at most; and the log is only
-- written after the last thing that can fail.
import Netlist.Proofs.Session

namespace Netlist.Document

open Edit

variable {d d' : Design}

/-- A load that fails leaves the design behind, with the names that it met. -/
theorem load_error {strict : Bool} {doc : Json} {e : LoadError} (hd : d.Regular)
    (h : load strict doc d = .error (.error e) d') :
    d' = { d with names := d'.names } ∧ ∀ {n s}, d.text? n = some s → d'.text? n = some s := by
  have regular := OnlyGrows.regular (leads_read strict doc) hd
  have grows := OnlyGrows.grows (leads_read strict doc) d
  unfold left at regular grows
  unfold load at h
  cases hr : read strict doc d with
  | ok a left =>
    rw [hr] at h
    cases h
  | error e' left =>
    rw [hr] at h regular grows
    cases e' with
    | stale => cases h
    | error e' =>
      cases h
      rw [Design.restore_snapshot hd regular grows]
      exact ⟨rfl, grows.names⟩

theorem loadReporting_error {strict : Bool} {doc : Json} {log log' : Diagnostic.Log}
    {e : Failure LoadError} (h : loadReporting strict doc (d, log) = .error e (d', log')) :
    load strict doc d = .error e d' ∧ log' = log := by
  cases hl : load strict doc d with
  | ok a left =>
    simp only [loadReporting, hl] at h
    cases h
  | error e' left =>
    simp only [loadReporting, hl] at h
    cases h
    exact ⟨rfl, rfl⟩

/-- Whatever calls led to a design, a load into it that fails leaves it as it was. Only the
names can be more than before, and the log is untouched. -/
theorem failed_load_changes_nothing {s : Session} (reached : s.Reachable Session.anyCall)
    {strict : Bool} {doc : Json} {log log' : Diagnostic.Log} {e : LoadError} {d' : Design}
    (failed : loadReporting strict doc (s.design, log) = .error (.error e) (d', log')) :
    d'.types = s.design.types ∧ d'.namespaces = s.design.namespaces ∧
      d'.scopes = s.design.scopes ∧ d'.modules = s.design.modules ∧
      d'.generators = s.design.generators ∧
      (∀ n t, s.design.text? n = some t → d'.text? n = some t) ∧ log' = log := by
  obtain ⟨load, rfl⟩ := loadReporting_error failed
  obtain ⟨same, names⟩ := load_error reached.regular load
  rw [same]
  exact ⟨rfl, rfl, rfl, rfl, rfl, fun _ _ => names, rfl⟩

/-- A session with a restore point and a module that has a parameter. -/
def sessionWithRegister : Session :=
  .run .start [.openNamespace "lib", .snapshot, .intern "width",
    .declareModule ⟨0⟩ "reg" TypeTable.bitInId [(⟨2⟩, .int)]]

/-- A document whose last name stands for nothing. What comes before can be read: a new
namespace, a new module in an old namespace, a new type, and an argument to warn of. -/
def documentWithoutTop : Json :=
  .object [
    ("top", .array [.string "lib", .string "nowhere"]),
    ("namespaces", .object [
      ("new", .null),
      ("lib", .object [("modules", .object [("wrap", .object [
        ("type", .array [.string "Array", .int 4, .string "BitOut"]),
        ("metadata", .object [("line", .int 7)]),
        ("def", .object [("instances", .object [("r", .object [
          ("instref", .array [.string "lib", .string "reg"]),
          ("config", .object [("width", .int 8), ("depth", .int 2)])])])])])])])])]

theorem failed_load_with_register : ∃ e d' log',
    loadReporting false documentWithoutTop (sessionWithRegister.design, .empty) =
        .error (.error e) (d', log') ∧
      d'.types = sessionWithRegister.design.types ∧
      d'.namespaces = sessionWithRegister.design.namespaces ∧
      d'.scopes = sessionWithRegister.design.scopes ∧
      d'.modules = sessionWithRegister.design.modules ∧
      d'.generators = sessionWithRegister.design.generators ∧
      (∀ n t, sessionWithRegister.design.text? n = some t → d'.text? n = some t) ∧
      log' = .empty := by
  have reached : sessionWithRegister.Reachable Session.anyCall :=
    .run .start ⟨trivial, trivial, trivial, trivial, trivial⟩
  have failed : Edit.refusal? (loadReporting false documentWithoutTop
      (sessionWithRegister.design, .empty)) = some (.symbol "Missing Symbol: lib.nowhere") := by
    decide +kernel
  obtain ⟨⟨d', log'⟩, h⟩ := Edit.refusal?_eq_some_iff.1 failed
  exact ⟨_, d', log', h, failed_load_changes_nothing reached h⟩

end Netlist.Document
