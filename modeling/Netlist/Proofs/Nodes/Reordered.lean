-- Nodes in which the members come in another order say the same, up to the order in which
-- they say it.
import Netlist.Proofs.Accepted
import Netlist.Proofs.Json.Reordered
import Netlist.Proofs.Saved.WellFormed

namespace Netlist

/-! ## Objects whose members may be left out -/

namespace Json

/-- Members under these keys, present in both objects or in neither. -/
inductive MembersReordered : List (Option (String × Json)) → List (Option (String × Json)) →
    List String → Prop
  | nil : MembersReordered [] [] []
  | absent {ms ns keys} (key : String) : MembersReordered ms ns keys →
      MembersReordered (none :: ms) (none :: ns) (key :: keys)
  | present {ms ns keys v w} (key : String) : v.Reordered w → MembersReordered ms ns keys →
      MembersReordered (some (key, v) :: ms) (some (key, w) :: ns) (key :: keys)

namespace MembersReordered

variable {ms ns : List (Option (String × Json))} {keys : List String}

theorem unlessEmpty {key : String} {b b' : Bool} {v w : Json} (same : b = b')
    (h : b = false → v.Reordered w) (rest : MembersReordered ms ns keys) :
    MembersReordered (Json.unlessEmpty key b v :: ms) (Json.unlessEmpty key b' w :: ns)
      (key :: keys) := by
  subst same
  cases b with
  | true => exact .absent key rest
  | false => exact .present key (h rfl) rest

theorem map {α : Type} {key : String} {f : α → Json} {o o' : Option α}
    (h : Option.Rel (fun a b => (f a).Reordered (f b)) o o') (rest : MembersReordered ms ns keys) :
    MembersReordered (o.map (fun a => (key, f a)) :: ms) (o'.map (fun a => (key, f a)) :: ns)
      (key :: keys) := by
  cases h with
  | none => exact .absent key rest
  | some r => exact .present key r rest

theorem sublist (h : MembersReordered ms ns keys) :
    (Assoc.keys (ms.filterMap id)).Sublist keys ∧ (Assoc.keys (ns.filterMap id)).Sublist keys := by
  induction h with
  | nil => exact ⟨.slnil, .slnil⟩
  | absent key _ ih => exact ⟨ih.1.cons key, ih.2.cons key⟩
  | present key _ _ ih => exact ⟨ih.1.cons_cons key, ih.2.cons_cons key⟩

theorem agree (h : MembersReordered ms ns keys) :
    Assoc.Agree Reordered (ms.filterMap id) (ns.filterMap id) := by
  induction h with
  | nil => exact .refl (by simp)
  | absent key _ ih => exact ih
  | @present ms ns _ v w key r _ ih =>
    have first : Assoc.Agree Reordered [(key, v)] [(key, w)] := by
      intro k
      simp only [Assoc.get?]
      split
      · exact .some r
      · exact .none
    exact first.append ih

theorem reordered (h : MembersReordered ms ns keys) (nodup : keys.Nodup) :
    (objectOf ms).Reordered (objectOf ns) :=
  reordered_object_iff.2 ⟨h.sublist.1.nodup nodup, h.sublist.2.nodup nodup, h.agree⟩

end MembersReordered

end Json

open Json (Reordered)

/-! ## Optional members -/

namespace Document

variable {ms ns : List (String × Json)}

theorem optional_agree (agree : Assoc.Agree Reordered ms ns) (key : String) :
    Option.Rel Reordered (optional ms key) (optional ns key) := by
  cases hm : optional ms key with
  | none =>
    have none : optional ns key = none := by
      rw [optional_eq_none_iff] at hm ⊢
      rcases hm with absent | null
      · rw [Assoc.get?_eq_none_iff, agree.mem_keys_iff, ← Assoc.get?_eq_none_iff] at absent
        exact Or.inl absent
      · obtain ⟨w, hw, r⟩ := agree.of_get? null
        exact Or.inr (Json.rigid_null r ▸ hw)
    rw [none]
    exact .none
  | some v =>
    obtain ⟨hv, nonnull⟩ := optional_eq_some_iff.1 hm
    obtain ⟨w, hw, r⟩ := agree.of_get? hv
    have there : optional ns key = some w := by
      refine optional_eq_some_iff.2 ⟨hw, ?_⟩
      rintro rfl
      exact nonnull (Json.rigid_null r.symm)
    rw [there]
    exact .some r

/-- What an optional member says is said in the other order, if that holds of a member that is
there. -/
theorem Optionally.reordered {α : Type} {key : String} {toJson : α → Json} {e a : α}
    {S : α → α → Prop} (h : Optionally ms key toJson e a) (agree : Assoc.Agree Reordered ms ns)
    (empty : S e e) (step : ∀ {w}, (toJson a).Reordered w → ∃ b, w = toJson b ∧ S a b) :
    ∃ b, Optionally ns key toJson e b ∧ S a b := by
  have members := optional_agree agree key
  rcases h with ⟨absent, rfl⟩ | there
  · rw [absent] at members
    refine ⟨a, Or.inl ⟨?_, rfl⟩, empty⟩
    generalize optional ns key = o at members
    cases members
    rfl
  · rw [there] at members
    cases hn : optional ns key with
    | none => rw [hn] at members; cases members
    | some w =>
      rw [hn] at members
      obtain ⟨r⟩ := members
      obtain ⟨b, rfl, s⟩ := step r
      exact ⟨b, Or.inr hn, s⟩

theorem Optionally.reordered_object {key : String} {es : List (String × Json)}
    (h : Optionally ms key .object [] es) (agree : Assoc.Agree Reordered ms ns) :
    ∃ fs, Optionally ns key .object [] fs ∧ (Json.object es).Reordered (.object fs) := by
  apply h.reordered agree (S := fun es fs => (Json.object es).Reordered (.object fs))
  · exact .refl (by decide)
  · intro w r
    obtain ⟨fs, rfl, -⟩ := r.object_left
    exact ⟨fs, rfl, r⟩

end Document

/-! ## Metadata and parameters -/

def Metadata.Reordered (m k : Metadata) : Prop := m.toJson.Reordered k.toJson

namespace Metadata.Reordered

variable {m k m' k' : Metadata}

theorem empty : Metadata.Reordered ∅ ∅ := .refl Metadata.wellFormed_empty

theorem isEmpty_eq (h : m.Reordered k) : m.isEmpty = k.isEmpty :=
  (Json.reordered_object_iff.1 h).2.2.isEmpty_eq

theorem extend (h : m.Reordered k) (h' : m'.Reordered k') :
    (m.extend m').Reordered (k.extend k') := by
  obtain ⟨-, -, agree⟩ := Json.reordered_object_iff.1 h
  obtain ⟨nodup, nodup', agree'⟩ := Json.reordered_object_iff.1 h'
  have left : (m.extend m').toJson.WellFormed := Metadata.WellFormed.extend h.left h'.left
  have right : (k.extend k').toJson.WellFormed := Metadata.WellFormed.extend h.right h'.right
  exact Json.reordered_object_iff.2 ⟨left.1, right.1, agree.setAll agree' nodup nodup'⟩

end Metadata.Reordered

namespace Outline

/-- Parameters of the same names and kinds. -/
structure ParamsAgree (ps qs : List (String × ParamKind)) : Prop where
  left : (Assoc.keys ps).Nodup
  right : (Assoc.keys qs).Nodup
  agree : Assoc.Agree Eq ps qs

theorem ParamsAgree.refl {ps : List (String × ParamKind)} (h : (Assoc.keys ps).Nodup) :
    ParamsAgree ps ps :=
  ⟨h, h, .refl fun _ _ => rfl⟩

theorem reordered_entriesToJson {α : Type} {f : α → Json} {R : α → α → Prop}
    {es fs : List (String × α)} (left : (Assoc.keys es).Nodup) (right : (Assoc.keys fs).Nodup)
    (agree : Assoc.Agree R es fs) (step : ∀ {a b}, R a b → (f a).Reordered (f b)) :
    (entriesToJson f es).Reordered (entriesToJson f fs) := by
  refine Json.reordered_object_iff.2 ⟨?_, ?_, agree.map step⟩
  · rwa [Assoc.keys_map]
  · rwa [Assoc.keys_map]

theorem ParamsAgree.reordered {ps qs : List (String × ParamKind)} (h : ParamsAgree ps qs) :
    (paramsToJson ps).Reordered (paramsToJson qs) := by
  apply reordered_entriesToJson h.left h.right h.agree
  rintro kind _ rfl
  exact .refl trivial

/-- Parameters in another order are parameters. -/
theorem exists_params_of_reordered {ps : List (String × ParamKind)} {w : Json}
    (h : (paramsToJson ps).Reordered w) : ∃ qs, w = paramsToJson qs ∧ ParamsAgree ps qs := by
  obtain ⟨ns, rfl, -⟩ := h.object_left
  obtain ⟨left, right, agree⟩ := Json.reordered_object_iff.1 h
  have left : (Assoc.keys (ps.map fun p => (p.1, Json.string p.2.text))).Nodup := left
  rw [Assoc.keys_map fun kind : ParamKind => Json.string kind.text] at left
  have own : Assoc.Paired (fun _ v kind => v = Json.string kind.text)
      (ps.map fun p => (p.1, Json.string p.2.text)) ps :=
    List.forall₂_map_left_iff.2 (List.forall₂_same.2 fun _ _ => ⟨rfl, rfl⟩)
  obtain ⟨qs, paired, same⟩ := own.transport (S := Eq)
    (P := fun _ v kind => v = Json.string kind.text) agree right fun r said => by
      subst said
      exact ⟨_, Json.rigid_string _ r, rfl⟩
  have shape : ns = qs.map fun q => (q.1, Json.string q.2.text) := by
    have pairs : List.Forall₂ Eq ns (qs.map fun q => (q.1, Json.string q.2.text)) :=
      List.forall₂_map_right_iff.2 (paired.imp fun _ _ h => Prod.ext h.1.symm h.2)
    rwa [List.forall₂_eq_eq_eq] at pairs
  refine ⟨qs, congrArg Json.object shape, left, ?_, same⟩
  rwa [paired.keys_eq]

end Outline

/-! ## Arguments and instances -/

namespace Plain

open Document Outline

/-- Everything has the same kind here and there, and the same parameters up to order. -/
def Signatures.Agree (env env' : Signatures) : Prop :=
  ∀ target, Option.Rel (fun s s' => s'.1 = s.1 ∧ ParamsAgree s.2 s'.2) (env target) (env' target)

theorem Signatures.Agree.of_some {env env' : Signatures} (h : env.Agree env')
    {target : String × String} {kind : TargetKind} {ps : List (String × ParamKind)}
    (known : env target = some (kind, ps)) :
    ∃ qs, env' target = some (kind, qs) ∧ ParamsAgree ps qs := by
  have both := h target
  rw [known] at both
  cases found : env' target with
  | none => rw [found] at both; cases both
  | some s =>
    rw [found] at both
    obtain ⟨rfl, params⟩ := both
    exact ⟨s.2, rfl, params⟩

section

variable {ms ns : List (String × Json)} {ps qs : List (String × ParamKind)}

theorem Binds.reordered {args : List (String × ArgTree)} (h : Binds ms ps args)
    (agree : Assoc.Agree Reordered ms ns) (params : ParamsAgree ps qs) :
    ∃ args', Binds ns qs args' ∧ (argsToJson args).Reordered (argsToJson args') := by
  have paired : Assoc.Paired (fun key kind a => a.kind = kind ∧ a.Sound ∧
      Assoc.get? key ms = some a.toJson) ps args := h
  obtain ⟨args', binds, same⟩ := paired.transport (S := fun a b => b = a ∧ a.Sound)
    (P := fun key kind a => a.kind = kind ∧ a.Sound ∧ Assoc.get? key ns = some a.toJson)
    params.agree params.right fun {_ _ _ a} r said => by
      subst r
      obtain ⟨kind, sound, there⟩ := said
      obtain ⟨w, hw, r⟩ := agree.of_get? there
      exact ⟨a, ⟨kind, sound, a.rigid_toJson r ▸ hw⟩, rfl, sound⟩
  refine ⟨args', binds, reordered_entriesToJson ?_ ?_ same ?_⟩
  · rw [paired.keys_eq]
    exact params.left
  · rw [binds.keys_eq]
    exact params.right
  · rintro a _ ⟨rfl, sound⟩
    exact .refl sound.wellFormed

theorem unknownKeys_eq_nil_of_agree (h : unknownKeys ps ms = [])
    (agree : Assoc.Agree Reordered ms ns) (params : ParamsAgree ps qs) :
    unknownKeys qs ns = [] := by
  rw [unknownKeys_eq_nil_iff] at h ⊢
  intro key hk
  exact params.agree.mem_keys_iff.1 (h key (agree.mem_keys_iff.2 hk))

end

section

variable {ms ns : List (String × Json)}

theorem metadata_reordered {key : String} {m : Metadata}
    (h : Optionally ms key Metadata.toJson ∅ m) (agree : Assoc.Agree Reordered ms ns) :
    ∃ k, Optionally ns key Metadata.toJson ∅ k ∧ m.Reordered k := by
  apply h.reordered agree .empty
  intro w r
  obtain ⟨fs, rfl, -⟩ := r.object_left
  exact ⟨⟨fs⟩, rfl, r⟩

theorem metadataMember_reordered {m k : Metadata} (h : m.Reordered k)
    {ms ns : List (Option (String × Json))} {keys : List String}
    (rest : Json.MembersReordered ms ns keys) :
    Json.MembersReordered (metadataMember m :: ms) (metadataMember k :: ns) ("metadata" :: keys) :=
  .unlessEmpty h.isEmpty_eq (fun _ => h) rest

theorem params_reordered {key : String} {ps : List (String × ParamKind)}
    (h : Optionally ms key paramsToJson [] ps) (agree : Assoc.Agree Reordered ms ns) :
    ∃ qs, Optionally ns key paramsToJson [] qs ∧ ParamsAgree ps qs :=
  h.reordered agree (.refl List.nodup_nil) exists_params_of_reordered

end

section

variable {strict : Bool} {env env' : Signatures} {node node' : Json}

theorem argsToJson_isEmpty {args args' : List (String × ArgTree)}
    (h : (argsToJson args).Reordered (argsToJson args')) : args.isEmpty = args'.isEmpty := by
  have same := (Json.reordered_object_iff.1 h).2.2.isEmpty_eq
  rwa [List.isEmpty_map, List.isEmpty_map] at same

theorem InstanceNode.reordered {i : Outline.Instance} (h : InstanceNode strict env node i)
    (same : node.Reordered node') (agree : env.Agree env') :
    ∃ i', InstanceNode strict env' node' i' ∧ i.toJson.Reordered i'.toJson := by
  obtain ⟨ms, config, ps, rfl, ref, known, kind, genargs, none, said, binds, strictly, md⟩ := h
  obtain ⟨ns, rfl, members⟩ := same.object_left
  obtain ⟨w, ref', r⟩ := members.of_get? ref
  obtain rfl := Json.rigid_words [i.target.1, i.target.2] r
  obtain ⟨qs, known', params⟩ := agree.of_some known
  obtain ⟨config', said', reordered⟩ := said.reordered_object members
  obtain ⟨-, -, entries⟩ := Json.reordered_object_iff.1 reordered
  obtain ⟨args', binds', args⟩ := binds.reordered entries params
  obtain ⟨md', saidMd, metadata⟩ := metadata_reordered md members
  have genargs' : Assoc.get? "genargs" ns = Option.none := by
    rwa [Assoc.get?_eq_none_iff, members.mem_keys_iff, ← Assoc.get?_eq_none_iff] at genargs
  refine ⟨⟨.module, i.target, Option.none, args', md'⟩, ⟨ns, config', qs, rfl, ref', known', rfl,
    genargs', rfl, said', binds', fun h => unknownKeys_eq_nil_of_agree (strictly h) entries params,
    saidMd⟩, ?_⟩
  unfold Outline.Instance.toJson
  rw [none]
  refine @Json.MembersReordered.reordered _ _ ["instref", "genargs", "config", "metadata"] ?_
    (by decide)
  exact .present _ r (.absent _ (.unlessEmpty (argsToJson_isEmpty args) (fun _ => args)
    (metadataMember_reordered metadata .nil)))

end

/-! ## Connections -/

/-- The same ends in the same order, with reordered metadata. -/
structure LinkReordered (c k : Outline.Connection) : Prop where
  first : k.first = c.first
  second : k.second = c.second
  metadata : c.metadata.Reordered k.metadata

theorem LinkReordered.toJson {c k : Outline.Connection} (h : LinkReordered c k) :
    c.toJson.Reordered k.toJson := by
  unfold Outline.Connection.toJson
  rw [h.first, h.second, h.metadata.isEmpty_eq]
  have words (path : List String) :
      (Json.array (path.map .string)).Reordered (.array (path.map .string)) :=
    .refl (Json.wellFormed_strings path)
  apply Json.reordered_array_iff.2
  refine .cons (words _) (.cons (words _) ?_)
  split
  · exact .nil
  · exact .cons h.metadata .nil

theorem linkAll_reordered {more more' : List Outline.Connection}
    (h : List.Forall₂ LinkReordered more more') :
    List.Forall₂ LinkReordered (linkAll more) (linkAll more') := by
  have fold : ∀ {cs cs' : List Outline.Connection}, List.Forall₂ LinkReordered cs cs' →
      List.Forall₂ LinkReordered
        (more.foldl (fun cs c => link cs c.first c.second c.metadata) cs)
        (more'.foldl (fun cs c => link cs c.first c.second c.metadata) cs') := by
    induction h with
    | nil => exact fun hc => hc
    | @cons c k _ _ r _ ih =>
      intro cs cs' hc
      apply ih
      dsimp only
      rw [r.first, r.second]
      apply forall₂_updateFirst hc
      · intro a b r
        unfold links
        rw [r.first, r.second]
      · intro a b r'
        exact ⟨r'.first, r'.second, r'.metadata.extend r.metadata⟩
      · exact ⟨rfl, rfl, Metadata.Reordered.empty.extend r.metadata⟩
  exact fold .nil

theorem EndOf.mono {names names' path : List String} (h : EndOf names path)
    (sub : ∀ name ∈ names, name ∈ names') : EndOf names' path :=
  ⟨h.1, h.2.imp_right (sub _)⟩

theorem ConnectionNode.reordered {names names' : List String} {node node' : Json}
    {c : Outline.Connection} (h : ConnectionNode names node c) (same : node.Reordered node')
    (sub : ∀ name ∈ names, name ∈ names') :
    ∃ k, ConnectionNode names' node' k ∧ LinkReordered c k := by
  obtain ⟨said, first, second⟩ := h
  have paths {a b : List String} {rest : List Json} {w : Json}
      (r : (Json.array (pathToJson a :: pathToJson b :: rest)).Reordered w) :
      ∃ rest', w = .array (pathToJson a :: pathToJson b :: rest') ∧
        List.Forall₂ Reordered rest rest' := by
    obtain ⟨ys, rfl, items⟩ := r.array_left
    cases items with
    | cons ra items =>
    cases items with
    | cons rb items =>
      exact ⟨_, by rw [Json.rigid_words a ra, Json.rigid_words b rb]; rfl, items⟩
  rcases said with ⟨rfl, md⟩ | ⟨rfl, md⟩ | rfl
  · obtain ⟨_, rfl, ⟨⟩⟩ := paths same
    refine ⟨⟨c.first, c.second, ∅⟩, ⟨Or.inl ⟨rfl, rfl⟩, first.mono sub, second.mono sub⟩, rfl, rfl, ?_⟩
    rw [md]
    exact .empty
  · obtain ⟨_, rfl, rest⟩ := paths same
    cases rest with
    | cons null none =>
    cases none
    obtain rfl := Json.rigid_null null
    refine ⟨⟨c.first, c.second, ∅⟩, ⟨Or.inr (Or.inl ⟨rfl, rfl⟩), first.mono sub, second.mono sub⟩,
      rfl, rfl, ?_⟩
    rw [md]
    exact .empty
  · obtain ⟨_, rfl, rest⟩ := paths same
    cases rest with
    | cons r none =>
    cases none
    obtain ⟨entries, rfl, -⟩ := r.object_left
    exact ⟨⟨c.first, c.second, ⟨entries⟩⟩,
      ⟨Or.inr (Or.inr rfl), first.mono sub, second.mono sub⟩, rfl, rfl, r⟩

/-! ## Definitions -/

theorem connections_reordered {names names' : List String} {nodes nodes' : List Json}
    {links : List Outline.Connection} (h : List.Forall₂ (ConnectionNode names) nodes links)
    (same : List.Forall₂ Reordered nodes nodes') (sub : ∀ name ∈ names, name ∈ names') :
    ∃ links', List.Forall₂ (ConnectionNode names') nodes' links' ∧
      List.Forall₂ LinkReordered links links' := by
  induction h generalizing nodes' with
  | nil =>
    cases same
    exact ⟨[], .nil, .nil⟩
  | cons said _ ih =>
    cases same with
    | cons r rest =>
      obtain ⟨k, said', link⟩ := said.reordered r sub
      obtain ⟨links', saidRest, others⟩ := ih rest
      exact ⟨k :: links', .cons said' saidRest, .cons link others⟩

section

variable {strict : Bool} {env env' : Signatures} {node node' : Json}

theorem InstanceNodes.reordered {ms ns : List (String × Json)}
    {is : List (String × Outline.Instance)} (h : InstanceNodes strict env ms is)
    (same : (Json.object ms).Reordered (.object ns)) (agree : env.Agree env') :
    ∃ is', InstanceNodes strict env' ns is' ∧ (∀ name ∈ Assoc.keys is, name ∈ Assoc.keys is') ∧
      is.isEmpty = is'.isEmpty ∧
      (entriesToJson Outline.Instance.toJson is).Reordered
        (entriesToJson Outline.Instance.toJson is') := by
  obtain ⟨left, right, members⟩ := Json.reordered_object_iff.1 same
  have paired : Assoc.Paired (fun key node i => key ≠ Design.selfWord ∧ InstanceNode strict env node i)
      ms is := h.imp fun _ _ said => ⟨said.1.symm, said.2⟩
  obtain ⟨is', paired', instances⟩ := paired.transport
    (S := fun i i' => i.toJson.Reordered i'.toJson)
    (P := fun key node i => key ≠ Design.selfWord ∧ InstanceNode strict env' node i)
    members right fun r said => by
      obtain ⟨i', said', saved⟩ := said.2.reordered r agree
      exact ⟨i', ⟨said.1, said'⟩, saved⟩
  refine ⟨is', paired'.imp fun _ _ said => ⟨said.1.symm, said.2⟩,
    fun _ => instances.mem_keys_iff.1, instances.isEmpty_eq, ?_⟩
  refine reordered_entriesToJson ?_ ?_ instances fun r => r
  · rwa [paired.keys_eq]
  · rwa [paired'.keys_eq]

theorem DefinitionNode.reordered {x : Outline.Definition} (h : DefinitionNode strict env node x)
    (same : node.Reordered node') (agree : env.Agree env') :
    ∃ x', DefinitionNode strict env' node' x' ∧ x.toJson.Reordered x'.toJson := by
  obtain ⟨ms, entries, nodes, links, rfl, hentries, instances, hnodes, said, linked, impl, md⟩ := h
  obtain ⟨ns, rfl, members⟩ := same.object_left
  obtain ⟨entries', hentries', rs⟩ := hentries.reordered_object members
  obtain ⟨is', instances', names, empty, saved⟩ := instances.reordered rs agree
  obtain ⟨nodes', hnodes', items⟩ : ∃ nodes', Optionally ns "connections" .array [] nodes' ∧
      List.Forall₂ Reordered nodes nodes' := hnodes.reordered members .nil fun r => r.array_left
  obtain ⟨links', said', links⟩ := connections_reordered said items names
  obtain ⟨impl', saidImpl, implementations⟩ := metadata_reordered impl members
  obtain ⟨md', saidMd, metadata⟩ := metadata_reordered md members
  have connections := linkAll_reordered links
  rw [← linked] at connections
  refine ⟨⟨is', linkAll links', impl', md'⟩, ⟨ns, entries', nodes', links', rfl, hentries',
    instances', hnodes', said', rfl, saidImpl, saidMd⟩, ?_⟩
  have size : x.connections.isEmpty = (linkAll links').isEmpty := by
    rw [Bool.eq_iff_iff, List.isEmpty_iff_length_eq_zero, List.isEmpty_iff_length_eq_zero,
      connections.length_eq]
  unfold Outline.Definition.toJson
  refine @Json.MembersReordered.reordered _ _
    ["instances", "connections", "implementations", "metadata"] ?_ (by decide)
  refine .unlessEmpty empty (fun _ => saved) (.unlessEmpty size (fun _ => ?_)
    (.unlessEmpty implementations.isEmpty_eq (fun _ => implementations)
      (metadataMember_reordered metadata .nil)))
  apply Json.reordered_array_iff.2
  exact List.forall₂_map_left_iff.2 (List.forall₂_map_right_iff.2 (connections.imp fun _ _ r =>
    r.toJson))

end

/-! ## Modules, generators and namespaces -/

end Plain

namespace Outline

structure Module.Reordered (m k : Module) : Prop where
  params : ParamsAgree m.params k.params
  saved : m.toJson.Reordered k.toJson

structure Generator.Reordered (g k : Generator) : Prop where
  params : ParamsAgree g.params k.params
  saved : g.toJson.Reordered k.toJson

structure Namespace.Reordered (ns k : Namespace) : Prop where
  modules : Assoc.Agree Module.Reordered ns.modules k.modules
  generators : Assoc.Agree Generator.Reordered ns.generators k.generators

namespace Namespace.Reordered

variable {ns k ns' k' : Namespace}

theorem empty : Namespace.Reordered ⟨[], []⟩ ⟨[], []⟩ := ⟨fun _ => .none, fun _ => .none⟩

theorem append (h : ns.Reordered k) (h' : ns'.Reordered k') :
    (ns.append ns').Reordered (k.append k') :=
  ⟨h.modules.append h'.modules, h.generators.append h'.generators⟩

theorem mem_names_iff (h : ns.Reordered k) {name : String} : name ∈ ns.names ↔ name ∈ k.names := by
  unfold names
  rw [List.mem_append, List.mem_append, h.modules.mem_keys_iff, h.generators.mem_keys_iff]

/-- What is new stays so in another order. -/
theorem fresh (h : ns'.Reordered k') (modules : (Assoc.keys k'.modules).Nodup)
    (generators : (Assoc.keys k'.generators).Nodup) (new : ns.Fresh ns') : ns.Fresh k' := by
  obtain ⟨-, -, apart⟩ := List.nodup_append.1 new.1
  constructor
  · refine List.nodup_append.2 ⟨modules, generators, fun a ha b hb => ?_⟩
    exact apart a (h.modules.mem_keys_iff.2 ha) b (h.generators.mem_keys_iff.2 hb)
  · intro name hn
    exact new.2 name (h.mem_names_iff.2 hn)

theorem toJson (h : ns.Reordered k) (left : ns.names.Nodup) (right : k.names.Nodup) :
    ns.toJson.Reordered k.toJson := by
  obtain ⟨modules, generators, -⟩ := List.nodup_append.1 left
  obtain ⟨modules', generators', -⟩ := List.nodup_append.1 right
  refine @Json.MembersReordered.reordered _ _ ["modules", "generators"] ?_ (by decide)
  exact .unlessEmpty h.modules.isEmpty_eq
    (fun _ => reordered_entriesToJson modules modules' h.modules fun r => r.saved)
    (.unlessEmpty h.generators.isEmpty_eq
      (fun _ => reordered_entriesToJson generators generators' h.generators fun r => r.saved) .nil)

end Namespace.Reordered

end Outline

namespace Plain

open Document Outline

/-- The second reading of an optional definition takes reordered nodes that the first one
takes. -/
def Body.Follows (body body' : Body) : Prop :=
  ∀ {o o' : Option Json} {x : Option Outline.Definition}, Option.Rel Json.Reordered o o' →
    body o x → ∃ x', body' o' x' ∧ Option.Rel (fun d d' => d.toJson.Reordered d'.toJson) x x'

theorem unread_follows : Body.Follows unread unread := by
  rintro _ _ _ - rfl
  exact ⟨none, rfl, .none⟩

theorem defined_follows (strict : Bool) {env env' : Signatures} (agree : env.Agree env') :
    Body.Follows (defined strict env) (defined strict env') := by
  intro o o' x same said
  cases same with
  | none =>
    cases said
    exact ⟨none, .none, .none⟩
  | some r =>
    cases said with
    | some said =>
      obtain ⟨x', said', saved⟩ := said.reordered r agree
      exact ⟨some x', .some said', .some saved⟩

section

variable {body body' : Body} {node node' : Json}

theorem paramsMember_reordered {ps qs : List (String × ParamKind)} (h : ParamsAgree ps qs)
    {ms ns : List (Option (String × Json))} {keys : List String}
    (rest : Json.MembersReordered ms ns keys) :
    Json.MembersReordered (configparamsMember ps :: ms) (configparamsMember qs :: ns)
      ("configparams" :: keys) :=
  .unlessEmpty h.agree.isEmpty_eq (fun _ => h.reordered) rest

theorem ModuleNode.reordered {m : Outline.Module} (h : ModuleNode body node m)
    (same : node.Reordered node') (follows : body.Follows body') :
    ∃ k, ModuleNode body' node' k ∧ m.Reordered k := by
  obtain ⟨ms, rfl, type, sound, params, md, said⟩ := h
  obtain ⟨ns, rfl, members⟩ := same.object_left
  obtain ⟨w, type', r⟩ := members.of_get? type
  obtain rfl := m.type.rigid_toJson r
  obtain ⟨qs, saidParams, agree⟩ := params_reordered params members
  obtain ⟨md', saidMd, metadata⟩ := metadata_reordered md members
  obtain ⟨x', said', definition⟩ := follows (optional_agree members "def") said
  refine ⟨⟨m.type, qs, md', x'⟩, ⟨ns, rfl, type', sound, saidParams, saidMd, said'⟩, agree, ?_⟩
  unfold Outline.Module.toJson
  refine @Json.MembersReordered.reordered _ _ ["type", "configparams", "metadata", "def"] ?_
    (by decide)
  exact .present _ r (paramsMember_reordered agree (metadataMember_reordered metadata
    (.map definition .nil)))

theorem GeneratorNode.reordered {g : Outline.Generator} (h : GeneratorNode node g)
    (same : node.Reordered node') : ∃ k, GeneratorNode node' k ∧ g.Reordered k := by
  obtain ⟨ms, rfl, genparams, params, md⟩ := h
  obtain ⟨ns, rfl, members⟩ := same.object_left
  obtain ⟨gs, saidGen, gen⟩ := params_reordered genparams members
  obtain ⟨qs, saidParams, agree⟩ := params_reordered params members
  obtain ⟨md', saidMd, metadata⟩ := metadata_reordered md members
  refine ⟨⟨gs, qs, md'⟩, ⟨ns, rfl, saidGen, saidParams, saidMd⟩, agree, ?_⟩
  unfold Outline.Generator.toJson
  refine @Json.MembersReordered.reordered _ _ ["genparams", "configparams", "metadata"] ?_
    (by decide)
  exact .present _ gen.reordered (paramsMember_reordered agree
    (metadataMember_reordered metadata .nil))

theorem Entries.reordered {α : Type} {R R' : Json → α → Prop} {S : α → α → Prop}
    {ms ns : List (String × Json)} {xs : List (String × α)} (h : Entries R ms xs)
    (same : (Json.object ms).Reordered (.object ns))
    (step : ∀ {v w a}, v.Reordered w → R v a → ∃ b, R' w b ∧ S a b) :
    ∃ ys, Entries R' ns ys ∧ Assoc.Agree S xs ys := by
  obtain ⟨-, right, members⟩ := Json.reordered_object_iff.1 same
  have paired : Assoc.Paired (fun _ => R) ms xs := h
  exact paired.transport members right step

theorem NamespaceNode.reordered {ns : Outline.Namespace} (h : NamespaceNode body node ns)
    (same : node.Reordered node') (follows : body.Follows body') :
    ∃ k, NamespaceNode body' node' k ∧ ns.Reordered k := by
  rcases h with ⟨rfl, rfl⟩ | ⟨ms, es, es', rfl, hes, hes', modules, generators⟩
  · exact ⟨⟨[], []⟩, Or.inl ⟨Json.rigid_null same, rfl⟩, .empty⟩
  · obtain ⟨ns', rfl, members⟩ := same.object_left
    obtain ⟨fs, hfs, r⟩ := hes.reordered_object members
    obtain ⟨fs', hfs', r'⟩ := hes'.reordered_object members
    obtain ⟨xs, saidModules, agree⟩ := modules.reordered r fun r said => said.reordered r follows
    obtain ⟨gs, saidGenerators, agree'⟩ := generators.reordered r' fun r said => said.reordered r
    exact ⟨⟨xs, gs⟩, Or.inr ⟨ns', fs, fs', rfl, hfs, hfs', saidModules, saidGenerators⟩,
      agree, agree'⟩

end

end Plain

end Netlist
