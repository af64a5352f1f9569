-- What loads of files report. A load that fails tells of one error, with the file in its note,
-- and a load that succeeds tells of warnings alone. So the counters of a log say how many loads
-- failed and how much was warned of, however often what is pending is taken in between.
import Netlist.Document.File
import Netlist.Proofs.Closed
import Netlist.Proofs.FailedLoad
import Netlist.Proofs.Json.Accepted
import Netlist.Proofs.Loaded

namespace Netlist

/-! ## Logs -/

namespace Diagnostic

/-- A warning tells of something that was tolerated. -/
def isWarning (d : Diagnostic) : Bool := d.severity == .warning

/-- A log after some reports: they are pending behind what was there, and counted by their
severity. -/
structure Log.Appends (log : Log) (ds : List Diagnostic) (log' : Log) : Prop where
  pending : log'.pending = log.pending ++ ds
  errors : log'.errors = log.errors + ds.countP isFatal
  warnings : log'.warnings = log.warnings + ds.countP isWarning

theorem Log.Appends.trans {log log' log'' : Log} {ds es : List Diagnostic}
    (h : log.Appends ds log') (k : log'.Appends es log'') : log.Appends (ds ++ es) log'' where
  pending := by rw [k.pending, h.pending, List.append_assoc]
  errors := by rw [k.errors, h.errors, List.countP_append, Nat.add_assoc]
  warnings := by rw [k.warnings, h.warnings, List.countP_append, Nat.add_assoc]

theorem Log.appends_emit (log : Log) (d : Diagnostic) : log.Appends [d] (log.emit d) := by
  unfold emit
  cases h : d.severity <;> constructor <;> simp [isFatal, Severity.isError, isWarning, h]

theorem Log.appends_emitAll (log : Log) (ds : List Diagnostic) :
    log.Appends ds (log.emitAll ds) := by
  induction ds generalizing log with
  | nil => exact ⟨(List.append_nil _).symm, rfl, rfl⟩
  | cons d rest ih => exact (log.appends_emit d).trans (ih (log.emit d))

end Diagnostic

namespace Document

open Diagnostic Edit

variable {strict : Bool} {path : String} {content : Except FileError String} {d d' : Design}

/-! ## What becomes of a file -/

/-- Why a file gives no module, and the design that is left: the file was not read, its text is
no JSON, or its document is refused. -/
inductive Fails (strict : Bool) (path : String) (d : Design) :
    Except FileError String → LoadError → Design → Prop
  | unread (e : FileError) : Fails strict path d (.error e) (.io path e.message) d
  | notJson {text : String} {e : Json.TextError} (parsed : Json.parse text = .error e) :
    Fails strict path d (.ok text) (.badJson e.message) d
  | refused {text : String} {doc : Json} {e : LoadError} {d' : Design}
      (parsed : Json.parse text = .ok doc) (refused : load strict doc d = .error (.error e) d') :
    Fails strict path d (.ok text) e d'

theorem loadText_eq_ok_iff {text : String} {answer : ModuleId × List Diagnostic} :
    loadText strict text d = .ok answer d' ↔
      ∃ doc, Json.parse text = .ok doc ∧ load strict doc d = .ok answer d' := by
  unfold loadText
  constructor
  · intro loaded
    cases parsed : Json.parse text with
    | error e => rw [parsed] at loaded; cases loaded
    | ok doc =>
      rw [parsed] at loaded
      exact ⟨doc, rfl, loaded⟩
  · rintro ⟨doc, parsed, loaded⟩
    rw [parsed]
    exact loaded

theorem loadContent_eq_error_iff {e : LoadError} :
    loadContent strict path content d = .error (.error e) d' ↔
      Fails strict path d content e d' := by
  constructor
  · intro failed
    cases content with
    | error e =>
      cases failed
      exact .unread e
    | ok text =>
      change loadText strict text d = _ at failed
      unfold loadText at failed
      cases parsed : Json.parse text with
      | error e =>
        rw [parsed] at failed
        cases failed
        exact .notJson parsed
      | ok doc =>
        rw [parsed] at failed
        exact .refused parsed failed
  · intro fails
    cases fails with
    | unread e => rfl
    | notJson parsed =>
      change loadText strict _ d = _
      rw [loadText, parsed]
      rfl
    | refused parsed refused =>
      change loadText strict _ d = _
      rw [loadText, parsed]
      exact refused

theorem loadContent_eq_ok_iff {answer : ModuleId × List Diagnostic} :
    loadContent strict path content d = .ok answer d' ↔
      ∃ text doc, content = .ok text ∧ Json.parse text = .ok doc ∧
        load strict doc d = .ok answer d' := by
  constructor
  · intro loaded
    cases content with
    | error e => cases loaded
    | ok text =>
      obtain ⟨doc, parsed, loaded⟩ := loadText_eq_ok_iff.1 loaded
      exact ⟨text, doc, rfl, parsed, loaded⟩
  · rintro ⟨text, doc, rfl, parsed, loaded⟩
    exact loadText_eq_ok_iff.2 ⟨doc, parsed, loaded⟩

/-- A load of a file into a sound design meets no stale handle. -/
theorem loadContent_ne_stale (sound : d.Sound) :
    loadContent strict path content d ≠ .error .stale d' := by
  intro stale
  cases content with
  | error e => cases stale
  | ok text =>
    change loadText strict text d = _ at stale
    unfold loadText at stale
    cases parsed : Json.parse text with
    | error e => rw [parsed] at stale; cases stale
    | ok doc =>
      rw [parsed] at stale
      exact sound.answers.load strict doc d' (Json.fits_of_parse parsed).1 stale

/-- A load that fails leaves the design behind, with the names that it met. -/
theorem Fails.design {e : LoadError} (h : Fails strict path d content e d') (regular : d.Regular) :
    d' = { d with names := d'.names } ∧ ∀ n t, d.text? n = some t → d'.text? n = some t := by
  cases h with
  | unread | notJson => exact ⟨rfl, fun _ _ h => h⟩
  | refused _ refused =>
    obtain ⟨same, texts⟩ := load_error regular refused
    exact ⟨same, fun _ _ => texts⟩

/-- What is warned of is an argument that no parameter asks for. -/
theorem code_of_warning {env : Plain.Signatures} {doc : Json} :
    ∀ w ∈ Plain.documentWarnings env doc, w.severity = .warning ∧ w.code = .unknownConfigKey := by
  intro w hw
  obtain ⟨p, -, hw⟩ := List.mem_flatMap.1 hw
  obtain ⟨m, -, hw⟩ := List.mem_flatMap.1 hw
  obtain ⟨key, -, rfl⟩ := List.mem_map.1 hw
  exact ⟨rfl, rfl⟩

theorem code_of_loadContent (sound : d.Sound) {top : ModuleId} {warnings : List Diagnostic}
    (loaded : loadContent strict path content d = .ok (top, warnings) d') :
    ∀ w ∈ warnings, w.severity = .warning ∧ w.code = .unknownConfigKey := by
  obtain ⟨text, doc, -, parsed, loaded⟩ := loadContent_eq_ok_iff.1 loaded
  obtain ⟨scopes, hs⟩ := sound.exists_outlineNamespaces
  obtain ⟨-, o, -, -, rfl⟩ :=
    documentNode_of_loaded sound hs (Json.fits_of_parse parsed).1 loaded
  exact code_of_warning

/-! ## What is reported of a file -/

/-- The one report of a load that fails. -/
def failureReport (path : String) (e : LoadError) : Diagnostic :=
  ⟨.error, e.code, e.message, ["while loading " ++ path]⟩

/-- What a load of a file answers and reports. It gives no module exactly if it reports one
error, with the code of what went wrong and one note that names the file, and has changed
nothing but names. It gives a module exactly if it reports no error, and then it only warns of
arguments that no parameter asks for. -/
structure Reported (strict : Bool) (path : String) (content : Except FileError String) (d : Design)
    (answer : Option ModuleId) (ds : List Diagnostic) (d' : Design) : Prop where
  none_iff : answer = none ↔ ∃ e, Fails strict path d content e d' ∧ ds = [failureReport path e] ∧
    d' = { d with names := d'.names } ∧ ∀ n t, d.text? n = some t → d'.text? n = some t
  isSome_iff : answer.isSome ↔ ∀ x ∈ ds, x.severity ≠ .error
  warnings : answer.isSome → ∀ x ∈ ds, x.severity = .warning ∧ x.code = .unknownConfigKey

/-- There is one error for a load that failed, and none for another. -/
theorem Reported.errors {answer : Option ModuleId} {ds : List Diagnostic}
    (h : Reported strict path content d answer ds d') :
    ds.countP isFatal = if answer.isNone then 1 else 0 := by
  cases answer with
  | none =>
    obtain ⟨e, -, rfl, -⟩ := h.none_iff.1 rfl
    rfl
  | some top =>
    refine List.countP_eq_zero.2 fun x hx => ?_
    rw [isFatal, (h.warnings rfl x hx).1]
    exact Bool.false_ne_true

/-- A load of a file into a sound design always has an answer, and reports once. -/
theorem exists_reported (sound : d.Sound) (strict : Bool) (path : String)
    (content : Except FileError String) (log : Log) : ∃ answer log' d',
      loadFile strict path content log d = .ok (answer, log') d' ∧
      ∃ ds, log.Appends ds log' ∧ Reported strict path content d answer ds d' := by
  unfold loadFile
  cases h : loadContent strict path content d with
  | ok r d' =>
    obtain ⟨top, warnings⟩ := r
    have codes := code_of_loadContent sound h
    refine ⟨_, _, _, rfl, warnings, log.appends_emitAll warnings, ?_, ?_, fun _ => codes⟩
    · refine ⟨fun nothing => ?_, ?_⟩
      · cases nothing
      · rintro ⟨e, fails, -⟩
        cases h.symm.trans (loadContent_eq_error_iff.2 fails)
    · refine ⟨fun _ w hw error => ?_, fun _ => rfl⟩
      cases error.symm.trans (codes w hw).1
  | error e d' =>
    cases e with
    | stale => exact absurd h (loadContent_ne_stale sound)
    | error e =>
      have fails := loadContent_eq_error_iff.1 h
      refine ⟨_, _, _, rfl, [failureReport path e], log.appends_emit _, ?_, ?_, ?_⟩
      · exact ⟨fun _ => ⟨e, fails, rfl, fails.design sound.toRegular⟩, fun _ => rfl⟩
      · refine ⟨fun there => ?_, fun clean => ?_⟩
        · cases there
        · exact absurd rfl (clean _ (List.mem_singleton_self _))
      · intro there
        cases there

/-! ## Loads and drains, one after another -/

/-- What is done with a log: the load of a file into some design reports to it, or what is
pending is taken. -/
inductive LogRequest where
  | load (d : Design) (strict : Bool) (path : String) (content : Except FileError String)
  | drain

/-- What is seen of it: the answer of a load and what came to the log, or what was taken. -/
inductive LogEntry where
  | load (answer : Option ModuleId) (reports : List Diagnostic)
  | drain (taken : List Diagnostic)
  /-- A stale handle was met. -/
  | stale

namespace LogEntry

/-- Whether a load failed. -/
def failed : LogEntry → Bool
  | load none _ => true
  | _ => false

/-- What came to the log. -/
def reports : LogEntry → List Diagnostic
  | load _ reports => reports
  | _ => []

/-- What was taken from the log. -/
def taken : LogEntry → List Diagnostic
  | drain taken => taken
  | _ => []

end LogEntry

namespace LogRequest

def serve : LogRequest → Log → LogEntry × Log
  | load d strict path content, log =>
    match loadFile strict path content log d with
    | .ok (answer, log') _ => (.load answer (log'.pending.drop log.pending.length), log')
    | .error _ _ => (.stale, log)
  | drain, log => (.drain log.drain.1, log.drain.2)

def run : List LogRequest → Log → List LogEntry × Log
  | [], log => ([], log)
  | r :: rest, log =>
    let (entry, log) := r.serve log
    let (entries, log) := run rest log
    (entry :: entries, log)

/-- A load is careful if it goes into the design of a careful session: of the same one as
before, or of another one. -/
def Careful : LogRequest → Prop
  | load d _ _ _ => ∃ s : Session, s.Reachable Session.Careful ∧ s.design = d
  | drain => True

end LogRequest

/-- What entries tell of a log that was there before, and of what it has become: how many loads
failed, how much was warned of, and that each report is taken or still pending, in the order in
which the reports came. -/
structure Accounts (log : Log) (entries : List LogEntry) (log' : Log) : Prop where
  answered : .stale ∉ entries
  errors : log'.errors = log.errors + entries.countP LogEntry.failed
  warnings : log'.warnings = log.warnings + (entries.flatMap LogEntry.reports).countP isWarning
  reports : entries.flatMap LogEntry.taken ++ log'.pending =
    log.pending ++ entries.flatMap LogEntry.reports

namespace Accounts

theorem nil (log : Log) : Accounts log [] log := ⟨by simp, rfl, rfl, by simp⟩

theorem cons {log log' log'' : Log} {entry : LogEntry} {entries : List LogEntry}
    (h : Accounts log [entry] log') (k : Accounts log' entries log'') :
    Accounts log (entry :: entries) log'' where
  answered := by
    rw [List.mem_cons, not_or]
    exact ⟨fun stale => h.answered (stale ▸ List.mem_singleton_self _), k.answered⟩
  errors := by
    rw [← List.singleton_append, List.countP_append, k.errors, h.errors, Nat.add_assoc]
  warnings := by
    rw [← List.singleton_append, List.flatMap_append, List.countP_append, k.warnings, h.warnings,
      Nat.add_assoc]
  reports := by
    rw [← List.singleton_append, List.flatMap_append, List.flatMap_append, List.append_assoc,
      k.reports, ← List.append_assoc, h.reports, List.append_assoc]

end Accounts

/-- One request is accounted for. -/
theorem accounts_serve {r : LogRequest} (careful : r.Careful) (log : Log) :
    Accounts log [(r.serve log).1] (r.serve log).2 := by
  cases r with
  | drain =>
    exact ⟨by simp [LogRequest.serve], rfl, rfl, by simp [LogRequest.serve, Log.drain,
      LogEntry.taken, LogEntry.reports]⟩
  | load d strict path content =>
    obtain ⟨s, reached, rfl⟩ := careful
    obtain ⟨answer, log', d', ran, ds, appends, reported⟩ :=
      exists_reported reached.sound_of_careful.design strict path content log
    have served : (LogRequest.load s.design strict path content).serve log =
        (.load answer ds, log') := by
      rw [LogRequest.serve, ran]
      dsimp only
      rw [appends.pending, List.drop_left]
    rw [served]
    refine ⟨by simp, ?_, ?_, ?_⟩
    · rw [appends.errors, reported.errors]
      cases answer <;> rfl
    · simpa [LogEntry.reports] using appends.warnings
    · simpa [LogEntry.reports, LogEntry.taken] using appends.pending

theorem accounts_run {rs : List LogRequest} (careful : ∀ r ∈ rs, r.Careful) (log : Log) :
    Accounts log (LogRequest.run rs log).1 (LogRequest.run rs log).2 := by
  induction rs generalizing log with
  | nil => exact .nil log
  | cons r rest ih =>
    obtain ⟨first, later⟩ := List.forall_mem_cons.1 careful
    exact (accounts_serve first log).cons (ih later _)

/-- The design that a load of a file leaves is that of a careful session again. -/
theorem exists_reachable_of_loadFile {s : Session} (reached : s.Reachable Session.Careful)
    {log : Log} {r : Option ModuleId × Log}
    (ran : loadFile strict path content log s.design = .ok r d') :
    ∃ s' : Session, s'.Reachable Session.Careful ∧ s'.design = d' := by
  have load {text : String} {doc : Json} (parsed : Json.parse text = .ok doc) :
      (s.step (.load strict doc)).Reachable Session.Careful :=
    .step reached (Json.fits_of_parse parsed).1
  unfold loadFile at ran
  cases h : loadContent strict path content s.design with
  | ok answer left =>
    rw [h] at ran
    cases ran
    obtain ⟨text, doc, -, parsed, loaded⟩ := loadContent_eq_ok_iff.1 h
    exact ⟨_, load parsed, left_of_ok loaded⟩
  | error e left =>
    rw [h] at ran
    cases e with
    | stale => cases ran
    | error e =>
      cases ran
      cases loadContent_eq_error_iff.1 h with
      | unread | notJson => exact ⟨s, reached, rfl⟩
      | refused parsed refused => exact ⟨_, load parsed, left_of_error refused⟩

/-- Every load of a file into the design of a careful session has an answer, reports once and
leaves the design of such a session. After any loads and drains, a log that was empty has
counted the loads that failed and what was warned of, and each report was taken or is pending,
in the order in which it came. -/
theorem file_loads_report_once :
    (∀ s : Session, s.Reachable Session.Careful → ∀ strict path content log, ∃ answer log' d',
      loadFile strict path content log s.design = .ok (answer, log') d' ∧
      (∃ ds, log.Appends ds log' ∧ Reported strict path content s.design answer ds d') ∧
      ∃ s' : Session, s'.Reachable Session.Careful ∧ s'.design = d') ∧
    ∀ rs : List LogRequest, (∀ r ∈ rs, r.Careful) →
      .stale ∉ (LogRequest.run rs .empty).1 ∧
      (LogRequest.run rs .empty).2.errors =
        (LogRequest.run rs .empty).1.countP LogEntry.failed ∧
      (LogRequest.run rs .empty).2.warnings =
        ((LogRequest.run rs .empty).1.flatMap LogEntry.reports).countP isWarning ∧
      (LogRequest.run rs .empty).1.flatMap LogEntry.taken ++
        (LogRequest.run rs .empty).2.pending =
          (LogRequest.run rs .empty).1.flatMap LogEntry.reports := by
  refine ⟨fun s reached strict path content log => ?_, fun rs careful => ?_⟩
  · obtain ⟨answer, log', d', ran, reported⟩ :=
      exists_reported reached.sound_of_careful.design strict path content log
    exact ⟨answer, log', d', ran, reported, exists_reachable_of_loadFile reached ran⟩
  · obtain ⟨answered, errors, warnings, reports⟩ := accounts_run careful .empty
    exact ⟨answered, errors.trans (Nat.zero_add _), warnings.trans (Nat.zero_add _), reports⟩

/-- The text of a document with an argument that no parameter of a register asks for. -/
def textOfRegister : String := Json.compact <|
  .object [
    ("top", .array [.string "app", .string "one"]),
    ("namespaces", .object [("app", .object [("modules", .object [("one", .object [
      ("type", .string "Any"),
      ("def", .object [("instances", .object [("r", .object [
        ("instref", .array [.string "lib", .string "reg"]),
        ("config", .object [("width", .int 8), ("depth", .int 2)])])])])])])])])]

/-- Loads of files that are not there, hold no JSON, and hold a document that a strict load
refuses, with drains between them. -/
def requestsOfRegister : List LogRequest := [
  .load sessionWithRegister.design false "a.json" (.error .notFound), .drain,
  .load sessionWithRegister.design false "b.json" (.ok textOfRegister),
  .load sessionWithRegister.design true "b.json" (.ok textOfRegister), .drain,
  .load sessionWithRegister.design false "c.json" (.ok "[1,")]

theorem reports_of_register : (∀ r ∈ requestsOfRegister, r.Careful) ∧
    (LogRequest.run requestsOfRegister .empty).2.errors = 3 ∧
    (LogRequest.run requestsOfRegister .empty).2.warnings = 1 ∧
    ((LogRequest.run requestsOfRegister .empty).1.flatMap LogEntry.taken ++
      (LogRequest.run requestsOfRegister .empty).2.pending).map (·.code.text) =
        ["E001", "W001", "E005", "E006"] ∧
    ∃ answer log d, loadFile false "a.json" (.error .notFound) .empty sessionWithRegister.design =
      .ok (answer, log) d ∧ log.errors = 1 := by
  have reached : sessionWithRegister.Reachable Session.Live := .run .start (by decide +kernel)
  have careful : ∀ r ∈ requestsOfRegister, r.Careful := by
    have load (strict : Bool) (path : String) (content : Except FileError String) :
        (LogRequest.load sessionWithRegister.design strict path content).Careful :=
      ⟨sessionWithRegister, reached.careful, rfl⟩
    unfold requestsOfRegister
    simp only [List.forall_mem_cons, load, true_and]
    exact ⟨trivial, trivial, List.forall_mem_nil _⟩
  obtain ⟨-, errors, warnings, reports⟩ := file_loads_report_once.2 _ careful
  obtain ⟨answer, log, d, ran, -⟩ :=
    file_loads_report_once.1 _ reached.careful false "a.json" (.error .notFound) .empty
  rw [errors, warnings, reports]
  have entries : (LogRequest.run requestsOfRegister .empty).1.countP LogEntry.failed = 3 ∧
      ((LogRequest.run requestsOfRegister .empty).1.flatMap LogEntry.reports).map (·.code.text) =
        ["E001", "W001", "E005", "E006"] ∧
      ((LogRequest.run requestsOfRegister .empty).1.flatMap LogEntry.reports).countP isWarning =
        1 := by
    decide +kernel
  refine ⟨careful, entries.1, entries.2.2, entries.2.1, answer, log, d, ran, ?_⟩
  cases ran
  rfl

end Document

end Netlist
