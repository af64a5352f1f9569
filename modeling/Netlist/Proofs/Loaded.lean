-- Loads told by outlines alone. A document loads into a sound design exactly if it says
-- something in the namespaces that are there, and then the design has the outline that it
-- says, with the warnings that it gives.
import Netlist.Proofs.Mirror.Document
import Netlist.Proofs.Nodes.Warnings

namespace Netlist.Document

open Plain

variable {d d' : Design} {scopes : Scopes} {strict : Bool} {doc : Json}

/-- The namespaces of a sound design have different names in its outline. -/
theorem nodup_keys_outlineNamespaces (hd : d.Sound) (hs : d.outlineNamespaces? = some scopes) :
    (Assoc.keys scopes).Nodup :=
  (hd.nodup_keys_iff ((Design.outlineNamespaces_eq_entries _ _).1 hs)).1 hd.nodup_namespaceEntries

theorem documentNode_of_loaded (hd : d.Sound) (hs : d.outlineNamespaces? = some scopes)
    (wf : doc.WellFormed) {top : ModuleId} {warnings : List Diagnostic}
    (loaded : load strict doc d = .ok (top, warnings) d') :
    d'.Sound ∧ ∃ o, d'.outline? top = some o ∧ DocumentNode strict scopes doc o ∧
      warnings = documentWarnings (signature? o.namespaces) doc := by
  cases read : Plain.read strict doc scopes with
  | error e =>
    obtain ⟨_, failed⟩ := load_of_read_error hd hs wf read
    cases loaded.symm.trans failed
  | ok result =>
    obtain ⟨o, w⟩ := result
    obtain ⟨_, _, ran, sound, -, outline⟩ := load_of_read_ok hd hs wf read
    cases loaded.symm.trans ran
    have said := (read_eq_ok_iff wf (nodup_keys_outlineNamespaces hd hs)).1 ⟨_, read⟩
    exact ⟨sound, o, outline, said, read_warnings wf read⟩

theorem loaded_of_documentNode (hd : d.Sound) (hs : d.outlineNamespaces? = some scopes)
    (wf : doc.WellFormed) {o : Outline} (said : DocumentNode strict scopes doc o) :
    ∃ top d', load strict doc d =
        .ok (top, documentWarnings (signature? o.namespaces) doc) d' ∧
      d'.Sound ∧ d'.outline? top = some o := by
  obtain ⟨w, read⟩ := (read_eq_ok_iff wf (nodup_keys_outlineNamespaces hd hs)).2 said
  obtain ⟨top, d', loaded, sound, -, outline⟩ := load_of_read_ok hd hs wf read
  rw [read_warnings wf read] at loaded
  exact ⟨top, d', loaded, sound, outline⟩

end Netlist.Document
