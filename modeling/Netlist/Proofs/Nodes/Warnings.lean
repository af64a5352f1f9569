-- The warnings of a reading, told from the document. There is one for each argument of an
-- instance that is for no parameter of what the instance stands for.
import Netlist.Proofs.Nodes.Document

namespace Netlist.Plain

open Document

/-! ## What is warned of -/

/-- The parameters of what a reference stands for. -/
def paramsAt (env : Signatures) : Json → List (String × ParamKind)
  | .array [.string scope, .string name] => ((env (scope, name)).map (·.2)).getD []
  | _ => []

def instanceWarnings (env : Signatures) (owner name : String) (node : Json) : List Diagnostic :=
  (unknownKeys (paramsAt env (node.entry "instref")) (node.entry "config").entries).map
    (unknownKeyWarning s!"instance {name} in {owner}")

def definitionWarnings (env : Signatures) (owner : String) (node : Json) : List Diagnostic :=
  (node.entry "instances").entries.flatMap fun m => instanceWarnings env owner m.1 m.2

def pendingWarnings (env : Signatures) (p : Pending) : List Diagnostic :=
  definitionWarnings env (p.scope ++ "." ++ p.name) p.node

/-- The warnings for a document, if the kinds and parameters of everything are known. -/
def documentWarnings (env : Signatures) (doc : Json) : List Diagnostic :=
  (pendingNodes (doc.entry "namespaces").entries).flatMap (pendingWarnings env)

/-! ## What is read gives these warnings -/

theorem readInstance_warnings {strict : Bool} {scopes : Scopes} {owner name : String} {node : Json}
    {before is : List (String × Outline.Instance)} {warnings : List Diagnostic}
    (h : readInstance strict scopes owner name node before = .ok (is, warnings)) :
    warnings = instanceWarnings (signature? scopes) owner name node := by
  obtain ⟨ms, hms, h⟩ := bind_eq_ok_iff.1 h
  obtain ⟨ref, href, h⟩ := bind_eq_ok_iff.1 h
  obtain ⟨⟨scope, target⟩, hpair, h⟩ := bind_eq_ok_iff.1 h
  obtain ⟨symbol, hsymbol, h⟩ := bind_eq_ok_iff.1 h
  obtain ⟨⟨config, _⟩, hargs, h⟩ := bind_eq_ok_iff.1 h
  obtain ⟨_, -, h⟩ := bind_eq_ok_iff.1 h
  obtain ⟨_, -, h⟩ := bind_eq_ok_iff.1 h
  obtain ⟨_, -, h⟩ := bind_eq_ok_iff.1 h
  cases h
  rw [members_eq_ok hms]
  rw [symbolPair_eq_ok_iff] at hpair
  rw [requireSymbol_eq_ok_iff] at hsymbol
  obtain ⟨entries, said, -, -, rfl⟩ := readArgs_eq_ok_iff.1 hargs
  have listed : ((Json.object ms).entry "config").entries = entries := by
    unfold Json.entry
    rw [Json.entries]
    rcases said with ⟨null, rfl⟩ | object
    · rw [null]
      rfl
    · rw [object]
      rfl
  have params : paramsAt (signature? scopes) ((Json.object ms).entry "instref") = symbol.params := by
    unfold Json.entry
    rw [Json.entries, required_eq_ok_iff.1 href, Option.getD_some, hpair, paramsAt, signature?,
      hsymbol]
    rfl
  rw [instanceWarnings, listed, params]

theorem readInstances_warnings {strict : Bool} {scopes : Scopes} {owner : String}
    {ms : List (String × Json)} : ∀ {before is : List (String × Outline.Instance)}
    {warnings : List Diagnostic},
    readInstances strict scopes owner ms before = .ok (is, warnings) →
    warnings = ms.flatMap fun m => instanceWarnings (signature? scopes) owner m.1 m.2 := by
  induction ms with
  | nil =>
    intro before is warnings h
    cases h
    rfl
  | cons m rest ih =>
    intro before is warnings h
    obtain ⟨⟨_, _⟩, h₁, h⟩ := bind_eq_ok_iff.1 h
    obtain ⟨⟨_, _⟩, h₂, h⟩ := bind_eq_ok_iff.1 h
    cases h
    rw [List.flatMap_cons, readInstance_warnings h₁, ih h₂]

theorem readInstancesOf_warnings {strict : Bool} {scopes : Scopes} {owner : String}
    {ms : List (String × Json)} {is : List (String × Outline.Instance)}
    {warnings : List Diagnostic}
    (h : readInstancesOf strict scopes owner ms = .ok (is, warnings)) :
    warnings = definitionWarnings (signature? scopes) owner (.object ms) := by
  unfold readInstancesOf at h
  unfold definitionWarnings
  cases hn : optional ms "instances" with
  | none =>
    rw [hn] at h
    cases h
    rw [entry_of_absent hn]
    rfl
  | some node =>
    rw [hn] at h
    obtain ⟨entries, hentries, h⟩ := bind_eq_ok_iff.1 h
    rw [entry_of_optional hn, members_eq_ok hentries]
    exact readInstances_warnings h

theorem readDefinition_warnings {strict : Bool} {scopes : Scopes} {p : Pending}
    {x : Outline.Definition} {warnings : List Diagnostic}
    (h : readDefinition strict scopes p = .ok (x, warnings)) :
    warnings = pendingWarnings (signature? scopes) p := by
  obtain ⟨ms, hms, h⟩ := bind_eq_ok_iff.1 h
  obtain ⟨⟨is, _⟩, his, h⟩ := bind_eq_ok_iff.1 h
  obtain ⟨_, -, h⟩ := bind_eq_ok_iff.1 h
  obtain ⟨_, -, h⟩ := bind_eq_ok_iff.1 h
  obtain ⟨_, -, h⟩ := bind_eq_ok_iff.1 h
  cases h
  rw [pendingWarnings, members_eq_ok hms]
  exact readInstancesOf_warnings his

theorem readDefinitions_warnings {strict : Bool} {scopes : Scopes} {ps : List Pending} :
    ∀ {ds : List Outline.Definition} {warnings : List Diagnostic},
    readDefinitions strict scopes ps = .ok (ds, warnings) →
    warnings = ps.flatMap (pendingWarnings (signature? scopes)) := by
  induction ps with
  | nil =>
    intro ds warnings h
    cases h
    rfl
  | cons p rest ih =>
    intro ds warnings h
    obtain ⟨⟨_, _⟩, h₁, h⟩ := bind_eq_ok_iff.1 h
    obtain ⟨⟨_, _⟩, h₂, h⟩ := bind_eq_ok_iff.1 h
    cases h
    rw [List.flatMap_cons, readDefinition_warnings h₁, ih h₂]

theorem signature?_defineAll (ps : List Pending) (ds : List Outline.Definition) (scopes : Scopes) :
    signature? (defineAll ps ds scopes) = signature? scopes := by
  induction ps generalizing ds scopes with
  | nil => cases ds <;> rfl
  | cons p rest ih =>
    cases ds with
    | nil => rfl
    | cons x ds => exact (ih ds _).trans (signature?_define p.scope p.name x scopes)

/-- A reading that succeeds warns of what the outline does not ask for. -/
theorem read_warnings {strict : Bool} {doc : Json} (wf : doc.WellFormed) {scopes : Scopes}
    {o : Outline} {warnings : List Diagnostic}
    (h : read strict doc scopes = .ok (o, warnings)) :
    warnings = documentWarnings (signature? o.namespaces) doc := by
  obtain ⟨ms, hms, h⟩ := bind_eq_ok_iff.1 h
  obtain ⟨v, -, h⟩ := bind_eq_ok_iff.1 h
  obtain ⟨⟨scope, name⟩, -, h⟩ := bind_eq_ok_iff.1 h
  obtain ⟨n, hn, h⟩ := bind_eq_ok_iff.1 h
  obtain ⟨nodes, hnodes, h⟩ := bind_eq_ok_iff.1 h
  obtain ⟨⟨_, _⟩, hdecl, h⟩ := bind_eq_ok_iff.1 h
  obtain ⟨⟨ds, _⟩, hds, h⟩ := bind_eq_ok_iff.1 h
  obtain ⟨_, -, h⟩ := bind_eq_ok_iff.1 h
  cases h
  obtain rfl := members_eq_ok hms
  obtain rfl := members_eq_ok hnodes
  rw [required_eq_ok_iff] at hn
  obtain ⟨nss, -, -, rfl, rfl⟩ := (declareNamespaces_eq_ok_iff (wf.member hn)).1 hdecl
  have listed : ((Json.object ms).entry "namespaces").entries = nodes := by
    unfold Json.entry
    rw [Json.entries, hn]
    rfl
  rw [documentWarnings, listed, signature?_defineAll]
  exact readDefinitions_warnings hds

end Netlist.Plain
