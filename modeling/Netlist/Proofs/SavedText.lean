-- Saved texts: the text of a design is read back as its document unless the document is
-- nested more deeply than a text may be, and then nothing is read. Types have no limit to
-- their nesting, so there are designs that can be saved and not be loaded again.
import Netlist.Proofs.Json.Parsed
import Netlist.Proofs.RoundTrip
import Netlist.Proofs.Saved.FloatFree

namespace Netlist.Document

/-- To load a saved text is to load what was saved, unless it is nested too deeply. -/
theorem loadText_documentText (strict : Bool) (indent : Nat) {doc : Json} (wf : doc.WellFormed)
    (free : doc.floatFree = true) : loadText strict (Design.documentText indent doc) =
      if doc.depth ≤ Json.Reader.depthLimit then load strict doc
      else Edit.fail (.badJson Json.TextError.tooDeep.message) := by
  rw [loadText, Design.documentText, Json.parse_documentText indent wf free]
  by_cases fits : doc.depth ≤ Json.Reader.depthLimit
  · rw [if_pos fits, if_pos fits]
  · rw [if_neg fits, if_neg fits]

open Session

/-- The text of a design loads again, strictly or not and without a warning, and the outline is
the same up to the order of arguments, if its document is not nested too deeply. Otherwise the
text is refused. -/
theorem saved_text_loads_unless_too_deep {s : Session} (reached : s.Reachable Live)
    (only : s.design.ModulesOnly) (free : s.design.FloatFree) {top : ModuleId}
    (live : (s.design.modules.get? top).isSome) (indent : Nat) :
    ∃ o text, s.design.outline? top = some o ∧ s.design.save? top indent = some text ∧
      o.Alike o.arrange ∧
      (o.toJson.depth ≤ Json.Reader.depthLimit → ∀ strict, ∃ top' d',
        loadText strict text .empty = .ok (top', []) d' ∧ d'.outline? top' = some o.arrange) ∧
      (Json.Reader.depthLimit < o.toJson.depth → ∀ strict,
        loadText strict text .empty =
          .error (.error (.badJson Json.TextError.tooDeep.message)) .empty) := by
  have hd := reached.sound.design
  obtain ⟨o, outline⟩ := hd.exists_outline live
  have sound := hd.outline_sound outline (only.outline outline)
  have reads := fun strict => loadText_documentText strict indent sound.wellFormed
    (free.outline outline).toJson
  refine ⟨o, Design.documentText indent o.toJson, outline, ?_, sound.alike,
    fun fits strict => ?_, fun deep strict => ?_⟩
  · rw [Design.save?, Design.document?, outline]
    rfl
  · obtain ⟨top', d', loaded, -, outline'⟩ := load_toJson sound strict
    rw [reads strict, if_pos fits]
    exact ⟨top', d', loaded, outline'⟩
  · rw [reads strict, if_neg (Nat.not_le.2 deep)]
    rfl

theorem text_in_other_order_loads : ∃ o text, designInOtherOrder.outline? ⟨1⟩ = some o ∧
    designInOtherOrder.save? ⟨1⟩ 2 = some text ∧ o.Alike o.arrange ∧
    ∀ strict, ∃ top' d', loadText strict text .empty = .ok (top', []) d' ∧
      d'.outline? top' = some o.arrange := by
  have reached : (start.run callsInOtherOrder).Reachable Live := .run .start (by decide +kernel)
  obtain ⟨o, text, outline, saved, alike, loads, -⟩ := @saved_text_loads_unless_too_deep
    (start.run callsInOtherOrder) reached (by decide +kernel) (by decide +kernel) ⟨1⟩
    (by decide +kernel) 2
  have depth : (designInOtherOrder.outline? ⟨1⟩).map (·.toJson.depth) = some 9 := by
    decide +kernel
  obtain ⟨o', outline', depth⟩ := Option.map_eq_some_iff.1 depth
  cases outline.symm.trans outline'
  exact ⟨o, text, outline, saved, alike, loads (by rw [depth]; decide)⟩

/-- A module whose type is 123 arrays inside each other. -/
def callsWithNestedType : List Call :=
  .openNamespace "lib" :: ((List.range 123).map fun i => .array ⟨i + 2⟩ 1) ++
    [.declareModule ⟨0⟩ "deep" ⟨125⟩ []]

def designWithNestedType : Design := (start.run callsWithNestedType).design

/-- The design can be saved, but the text is refused. -/
theorem text_of_nested_type_is_refused : ∃ s : Session, s.Reachable Live ∧
    s.design.ModulesOnly ∧ s.design.FloatFree ∧ ∃ top text,
      s.design.save? top 2 = some text ∧ ∀ strict, loadText strict text .empty =
        .error (.error (.badJson Json.TextError.tooDeep.message)) .empty := by
  have reached : (start.run callsWithNestedType).Reachable Live := .run .start (by decide +kernel)
  have only : designWithNestedType.ModulesOnly := by decide +kernel
  have free : designWithNestedType.FloatFree := by decide +kernel
  have deep : (designWithNestedType.outline? ⟨0⟩).map (·.toJson.depth) = some 128 := by
    decide +kernel
  obtain ⟨o, outline, deep⟩ := Option.map_eq_some_iff.1 deep
  have sound := reached.sound.design.outline_sound outline (only.outline outline)
  have saved : designWithNestedType.save? ⟨0⟩ 2 = some (Design.documentText 2 o.toJson) := by
    rw [Design.save?, Design.document?, outline]
    rfl
  refine ⟨_, reached, only, free, ⟨0⟩, _, saved, fun strict => ?_⟩
  rw [loadText_documentText strict 2 sound.wellFormed (free.outline outline).toJson,
    if_neg (by rw [deep]; decide)]
  rfl

end Netlist.Document
