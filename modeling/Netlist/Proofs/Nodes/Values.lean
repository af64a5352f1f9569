-- What the smallest nodes of a document say: types, parameters, arguments and metadata.
-- A node that says something is the node that it is saved as, except that an optional
-- member may be null or absent.
import Netlist.Document.Save
import Netlist.Proofs.Mirror.Definitions

namespace Netlist

/-! ## Shapes -/

namespace Document

theorem bind_eq_ok_iff {α β : Type} {x : Reading α} {f : α → Reading β} {b : β} :
    (x >>= f) = .ok b ↔ ∃ a, x = .ok a ∧ f a = .ok b := by
  cases x with
  | error e => exact ⟨nofun, nofun⟩
  | ok a => exact ⟨fun h => ⟨a, rfl, h⟩, fun ⟨_, ha, h⟩ => by cases ha; exact h⟩

theorem required_eq_ok_iff {ms : List (String × Json)} {key what : String} {v : Json} :
    required ms key what = .ok v ↔ Assoc.get? key ms = some v := by
  unfold required
  cases Assoc.get? key ms with
  | none => exact ⟨nofun, nofun⟩
  | some w => exact ⟨fun h => congrArg some (Except.ok.inj h), fun h => by cases h; rfl⟩

theorem symbolPair_eq_ok_iff {node : Json} {what : String} {scope name : String} :
    symbolPair node what = .ok (scope, name) ↔ node = .array [.string scope, .string name] := by
  constructor
  · intro h
    unfold symbolPair at h
    split at h <;> cases h
    rfl
  · rintro rfl
    rfl

/-- What an optional member says: nothing if it is absent or null. -/
def Optionally {α : Type} (ms : List (String × Json)) (key : String) (toJson : α → Json) (empty : α)
    (a : α) : Prop :=
  optional ms key = none ∧ a = empty ∨ optional ms key = some (toJson a)

theorem optional_eq_none_iff {ms : List (String × Json)} {key : String} :
    optional ms key = none ↔ Assoc.get? key ms = none ∨ Assoc.get? key ms = some .null := by
  unfold optional
  cases h : Assoc.get? key ms with
  | none => simp
  | some v => cases v <;> simp [Json.isNull, Option.filter]

theorem optional_eq_some_iff {ms : List (String × Json)} {key : String} {v : Json} :
    optional ms key = some v ↔ Assoc.get? key ms = some v ∧ v ≠ .null := by
  unfold optional
  rw [Option.filter_eq_some_iff]
  cases v <;> simp [Json.isNull]

/-- An optional member, with what an absent and a null one stand for. -/
theorem optionally_iff {α : Type} {ms : List (String × Json)} {key : String} {toJson : α → Json}
    {e a : α} (nonnull : ∀ a, toJson a ≠ .null) :
    (match Assoc.get? key ms with
      | some node => node = .null ∧ a = e ∨ node = toJson a
      | none => a = e) ↔ Optionally ms key toJson e a := by
  unfold Optionally
  rw [optional_eq_none_iff, optional_eq_some_iff]
  cases Assoc.get? key ms with
  | none => simp
  | some node => simp [nonnull]

/-- An optional member is taken apart and read, or nothing is read in its place. -/
theorem optionally_eq_ok_iff {α β : Type} {ms : List (String × Json)} {key : String}
    {parts : Json → Reading α} {toJson : α → Json} (h : ∀ {v a}, parts v = .ok a ↔ v = toJson a)
    (read : α → Reading β) {empty : α} {b : β} :
    ((optional ms key).elim (read empty) fun node => parts node >>= read) = .ok b ↔
      ∃ a, Optionally ms key toJson empty a ∧ read a = .ok b := by
  unfold Optionally
  cases optional ms key with
  | none =>
    constructor
    · intro hb
      exact ⟨empty, Or.inl ⟨rfl, rfl⟩, hb⟩
    · rintro ⟨_, ⟨-, rfl⟩ | absent, hb⟩
      · exact hb
      · cases absent
  | some node =>
    rw [Option.elim_some, bind_eq_ok_iff]
    constructor
    · rintro ⟨a, ha, hb⟩
      exact ⟨a, Or.inr (congrArg some (h.1 ha)), hb⟩
    · rintro ⟨a, ⟨absent, -⟩ | there, hb⟩
      · cases absent
      · exact ⟨a, h.2 (Option.some.inj there), hb⟩

theorem members_eq_ok_iff {node : Json} {what : String} {ms : List (String × Json)} :
    members node what = .ok ms ↔ node = .object ms :=
  ⟨members_eq_ok, fun h => by rw [h]; rfl⟩

theorem items_eq_ok_iff {node : Json} {what : String} {vs : List Json} :
    items node what = .ok vs ↔ node = .array vs :=
  ⟨items_eq_ok, fun h => by rw [h]; rfl⟩

/-- The object of an optional member is well-formed. -/
theorem wellFormed_optionally {ms es : List (String × Json)} {key : String}
    (wf : (Json.object ms).WellFormed) (h : Optionally ms key .object [] es) :
    (Json.object es).WellFormed := by
  rcases h with ⟨-, rfl⟩ | there
  · exact Json.wellFormed_object_iff.2 ⟨List.nodup_nil, nofun⟩
  · exact wellFormed_optional wf there

end Document

/-! ## Types -/

mutual

/-- No record in the type has a field twice, and lengths fit 32 bits. -/
def TypeTree.Sound : TypeTree String → Prop
  | array length element => length < UInt32.size ∧ element.Sound
  | record fields => (Assoc.keys fields).Nodup ∧ TypeTree.SoundFields fields
  | any | bitIn | bitOut => True

def TypeTree.SoundFields : List (String × TypeTree String) → Prop
  | [] => True
  | (_, t) :: rest => t.Sound ∧ TypeTree.SoundFields rest

end

theorem TypeTree.soundFields_iff {ts : List (String × TypeTree String)} :
    TypeTree.SoundFields ts ↔ ∀ f ∈ ts, f.2.Sound := by
  induction ts with
  | nil => simp [TypeTree.SoundFields]
  | cons f rest ih => simp [TypeTree.SoundFields, ih]

theorem TypeTree.fieldsToJson_eq (ts : List (String × TypeTree String)) :
    TypeTree.fieldsToJson ts = ts.map fun f => .array [.string f.1, f.2.toJson] := by
  induction ts with
  | nil => rfl
  | cons f rest ih => rw [TypeTree.fieldsToJson, ih, List.map_cons]

def ArgTree.kind : ArgTree → ParamKind
  | int _ => .int
  | string _ => .string
  | type _ => .type

/-- An integer fits 64 bits, and a type is sound. -/
def ArgTree.Sound : ArgTree → Prop
  | int i => Json.fitsInt64 i = true
  | string _ => True
  | type t => t.Sound

namespace Plain

open Document

theorem readLength_eq_ok_iff {node : Json} {n : Nat} :
    readLength node = .ok n ↔ node = .nat n ∧ n < UInt32.size := by
  rw [← Json.asNat32?_eq_some_iff]
  unfold readLength
  cases node.asNat32? with
  | none => exact ⟨nofun, nofun⟩
  | some k => exact ⟨fun h => congrArg some (Except.ok.inj h), fun h => by cases h; rfl⟩

/-- A record whose fields are different. -/
theorem record_eq_ok_iff {ts : List (String × TypeTree String)} {t : TypeTree String} :
    (match TypeTable.firstRepeat (Assoc.keys ts) with
      | some name => throw (LoadError.ofGraph (.duplicateField name))
      | none => return .record ts : Reading (TypeTree String)) = .ok t ↔
      t = .record ts ∧ (Assoc.keys ts).Nodup := by
  rw [← TypeTable.firstRepeat_eq_none_iff]
  cases TypeTable.firstRepeat (Assoc.keys ts) with
  | some name => exact ⟨nofun, nofun⟩
  | none => exact ⟨fun h => ⟨(Except.ok.inj h).symm, rfl⟩, fun h => by rw [h.1]; rfl⟩

mutual

/-- The node of a type says this type. -/
theorem readType_toJson : ∀ {t : TypeTree String}, t.Sound → readType t.toJson = .ok t
  | .any, _ | .bitIn, _ | .bitOut, _ => by simp [TypeTree.toJson, readType, leafByName]; rfl
  | .array n t, h => by
    rw [TypeTree.toJson, readType_array, readLength_eq_ok_iff.2 ⟨rfl, h.1⟩, readType_toJson h.2]
    rfl
  | .record ts, h => by
    rw [TypeTree.toJson, readType_record, readFields_toJson h.2]
    exact record_eq_ok_iff.2 ⟨rfl, h.1⟩

theorem readFields_toJson : ∀ {ts : List (String × TypeTree String)}, TypeTree.SoundFields ts →
    readFields (TypeTree.fieldsToJson ts) = .ok ts
  | [], _ => by rw [TypeTree.fieldsToJson, readFields]; rfl
  | (name, t) :: rest, h => by
    rw [TypeTree.fieldsToJson, readFields, readType_toJson h.1, readFields_toJson h.2]
    rfl

end

theorem leafByName_eq_some_iff {word : String} {t : TypeTree String} :
    leafByName word = some t ↔
      word = "Any" ∧ t = .any ∨ word = "BitIn" ∧ t = .bitIn ∨ word = "BitOut" ∧ t = .bitOut := by
  unfold leafByName
  split <;> simp_all [eq_comm]

/-- A node that says a type is the node of this type. -/
theorem toJson_of_readType {node : Json} :
    ∀ {t : TypeTree String}, readType node = .ok t → t.Sound ∧ t.toJson = node := by
  refine typeNode_induction
    (P := fun node => ∀ {t}, readType node = .ok t → t.Sound ∧ t.toJson = node)
    (Q := fun entries => ∀ {ts}, readFields entries = .ok ts →
      TypeTree.SoundFields ts ∧ TypeTree.fieldsToJson ts = entries)
    ?leaf ?array ?record ?malformed ?nil ?field ?noField node
  case leaf =>
    intro word id leaf t h
    obtain ⟨t', leaf'⟩ := exists_leafByName leaf
    rw [readType_leaf leaf'] at h
    cases h
    rcases leafByName_eq_some_iff.1 leaf' with ⟨rfl, rfl⟩ | ⟨rfl, rfl⟩ | ⟨rfl, rfl⟩ <;>
      exact ⟨trivial, rfl⟩
  case array =>
    intro length element ih t h
    rw [readType_array] at h
    obtain ⟨n, hn, h⟩ := bind_eq_ok_iff.1 h
    obtain ⟨e, he, h⟩ := bind_eq_ok_iff.1 h
    cases h
    obtain ⟨rfl, lt⟩ := readLength_eq_ok_iff.1 hn
    obtain ⟨sound, same⟩ := ih he
    exact ⟨⟨lt, sound⟩, by rw [TypeTree.toJson, same]⟩
  case record =>
    intro entries ih t h
    rw [readType_record] at h
    obtain ⟨ts, hts, h⟩ := bind_eq_ok_iff.1 h
    obtain ⟨rfl, nodup⟩ := record_eq_ok_iff.1 h
    obtain ⟨sound, same⟩ := ih hts
    exact ⟨⟨nodup, sound⟩, by rw [TypeTree.toJson, same]⟩
  case malformed =>
    intro node text malformed t h
    rw [readType_malformed malformed] at h
    cases h
  case nil =>
    intro ts h
    rw [readFields] at h
    cases h
    exact ⟨trivial, rfl⟩
  case field =>
    intro name node rest ih ih' ts h
    rw [readFields] at h
    obtain ⟨t, ht, h⟩ := bind_eq_ok_iff.1 h
    obtain ⟨more, hmore, h⟩ := bind_eq_ok_iff.1 h
    cases h
    obtain ⟨sound, same⟩ := ih ht
    obtain ⟨sound', same'⟩ := ih' hmore
    exact ⟨⟨sound, sound'⟩, by rw [TypeTree.fieldsToJson, same, same']⟩
  case noField =>
    intro entry rest noField ts h
    rw [readFields_noField noField] at h
    cases h

/-- What says a type is its node, and nothing else. -/
theorem readType_eq_ok_iff {node : Json} {t : TypeTree String} :
    readType node = .ok t ↔ t.Sound ∧ t.toJson = node :=
  ⟨toJson_of_readType, fun ⟨sound, same⟩ => same ▸ readType_toJson sound⟩

/-! ## Metadata -/

theorem readMetadata_eq_ok_iff {node : Json} {what : String} {md : Metadata} :
    readMetadata node what = .ok md ↔ node = .null ∧ md = ∅ ∨ node = md.toJson := by
  constructor
  · intro h
    cases node with
    | null => cases h; exact Or.inl ⟨rfl, rfl⟩
    | object ms => cases h; exact Or.inr rfl
    | bool | number | string | array => cases h
  · rintro (⟨rfl, rfl⟩ | rfl) <;> rfl

theorem toJson_ne_null (md : Metadata) : md.toJson ≠ .null := nofun

theorem readMetadata?_eq_ok_iff {ms : List (String × Json)} {key what : String} {md : Metadata} :
    readMetadata? ms key what = .ok md ↔ Optionally ms key Metadata.toJson ∅ md := by
  unfold readMetadata?
  refine Iff.trans ?_ (optionally_iff (e := ∅) toJson_ne_null)
  cases Assoc.get? key ms with
  | none => exact ⟨fun h => (Except.ok.inj h).symm, fun h => by cases h; rfl⟩
  | some node => exact readMetadata_eq_ok_iff

/-! ## Parameters -/

theorem readKind_eq_ok_iff {name : String} {node : Json} {kind : ParamKind} :
    readKind name node = .ok kind ↔ node = .string kind.text := by
  constructor
  · intro h
    cases node with
    | string word =>
      unfold readKind at h
      dsimp only at h
      cases hk : ParamKind.ofText? word with
      | none => rw [hk] at h; cases h
      | some k =>
        rw [hk] at h
        cases h
        rw [ParamKind.ofText?_eq_some_iff.1 hk]
    | null | bool | number | array | object => cases h
  · rintro rfl
    unfold readKind
    dsimp only
    rw [ParamKind.ofText?_eq_some_iff.2 rfl]
    rfl

theorem readParamMembers_eq_ok_iff {ms : List (String × Json)} :
    ∀ {before ps : List (String × ParamKind)}, (Assoc.keys before ++ Assoc.keys ms).Nodup →
    (readParamMembers before ms = .ok ps ↔
      ∃ more, ps = before ++ more ∧ .object ms = Outline.paramsToJson more) := by
  induction ms with
  | nil =>
    intro before ps _
    rw [readParamMembers]
    constructor
    · intro h
      cases h
      exact ⟨[], by simp, rfl⟩
    · rintro ⟨more, rfl, same⟩
      cases more with
      | nil => simp; rfl
      | cons => cases same
  | cons m rest ih =>
    obtain ⟨name, node⟩ := m
    intro before ps nodup
    have fresh : name ∉ Assoc.keys before := fun h =>
      (List.nodup_append.1 nodup).2.2 name h name List.mem_cons_self rfl
    have next (kind : ParamKind) :
        readParamMembers (Assoc.set name kind before) rest = .ok ps ↔
          ∃ more, ps = before ++ (name, kind) :: more ∧ .object rest = Outline.paramsToJson more := by
      rw [Assoc.set_of_not_mem kind fresh, ih (by simpa using nodup)]
      simp
    rw [readParamMembers]
    constructor
    · intro h
      obtain ⟨kind, hk, h⟩ := bind_eq_ok_iff.1 h
      obtain ⟨more, rfl, same⟩ := (next kind).1 h
      rw [readKind_eq_ok_iff] at hk
      refine ⟨(name, kind) :: more, rfl, ?_⟩
      simp_all [Outline.paramsToJson, Outline.entriesToJson]
    · rintro ⟨more, rfl, same⟩
      cases more with
      | nil => cases same
      | cons p more =>
        obtain ⟨key, kind⟩ := p
        simp only [Outline.paramsToJson, Outline.entriesToJson, List.map_cons, Json.object.injEq,
          List.cons.injEq, Prod.mk.injEq] at same
        obtain ⟨⟨rfl, rfl⟩, same⟩ := same
        rw [readKind_eq_ok_iff.2 rfl]
        exact (next kind).2 ⟨more, rfl, congrArg Json.object same⟩

theorem readParams_eq_ok_iff {node : Json} (wf : node.WellFormed) {ps : List (String × ParamKind)} :
    readParams node = .ok ps ↔ node = .null ∧ ps = [] ∨ node = Outline.paramsToJson ps := by
  cases node with
  | null =>
    constructor
    · intro h
      cases h
      exact Or.inl ⟨rfl, rfl⟩
    · rintro (⟨-, rfl⟩ | h)
      · rfl
      · cases h
  | object ms =>
    have nodup := (Json.wellFormed_object_iff.1 wf).1
    refine (readParamMembers_eq_ok_iff (by simpa using nodup)).trans ?_
    simp
  | bool | number | string | array => exact ⟨nofun, nofun⟩

theorem readParams?_eq_ok_iff {ms : List (String × Json)} (wf : (Json.object ms).WellFormed)
    {key : String} {ps : List (String × ParamKind)} :
    readParams? ms key = .ok ps ↔ Optionally ms key Outline.paramsToJson [] ps := by
  unfold readParams?
  refine Iff.trans ?_ (optionally_iff (e := []) (fun _ => nofun))
  cases hk : Assoc.get? key ms with
  | none => exact ⟨fun h => (Except.ok.inj h).symm, fun h => by cases h; rfl⟩
  | some node => exact readParams_eq_ok_iff (wf.member hk)

/-! ## Arguments -/

theorem readArg_eq_ok_iff {kind : ParamKind} {key what : String} {node : Json} {a : ArgTree} :
    readArg kind key what node = .ok (some a) ↔ a.kind = kind ∧ a.Sound ∧ node = a.toJson := by
  cases kind with
  | int =>
    have read : readArg .int key what node = .ok (some a) ↔ node.asInt64?.map .int = some a :=
      ⟨Except.ok.inj, congrArg Except.ok⟩
    rw [read, Option.map_eq_some_iff]
    simp only [Json.asInt64?_eq_some_iff]
    constructor
    · rintro ⟨i, ⟨rfl, fits⟩, rfl⟩
      exact ⟨rfl, fits, rfl⟩
    · rintro ⟨hk, sound, rfl⟩
      cases a with
      | int i => exact ⟨i, ⟨rfl, sound⟩, rfl⟩
      | string | type => cases hk
  | string =>
    have read : readArg .string key what node = .ok (some a) ↔ node.asString?.map .string = some a :=
      ⟨Except.ok.inj, congrArg Except.ok⟩
    rw [read, Option.map_eq_some_iff]
    simp only [Json.asString?_eq_some_iff]
    constructor
    · rintro ⟨s, rfl, rfl⟩
      exact ⟨rfl, trivial, rfl⟩
    · rintro ⟨hk, -, rfl⟩
      cases a with
      | string s => exact ⟨s, rfl, rfl⟩
      | int | type => cases hk
  | type =>
    constructor
    · intro h
      obtain ⟨t, ht, h⟩ := bind_eq_ok_iff.1 h
      cases h
      cases hr : readType node with
      | error e => rw [hr] at ht; cases ht
      | ok t' =>
        rw [hr] at ht
        cases ht
        obtain ⟨sound, same⟩ := toJson_of_readType hr
        exact ⟨rfl, sound, same.symm⟩
    · rintro ⟨hk, sound, rfl⟩
      cases a with
      | type t =>
        unfold readArg ArgTree.toJson
        rw [readType_toJson sound]
        rfl
      | int | string => cases hk

/-- Members that bind parameters: one of its kind for each, in the order of the parameters. -/
def Binds (ms : List (String × Json)) (ps : List (String × ParamKind))
    (args : List (String × ArgTree)) : Prop :=
  List.Forall₂ (fun p e => e.1 = p.1 ∧ e.2.kind = p.2 ∧ e.2.Sound ∧
    Assoc.get? p.1 ms = some e.2.toJson) ps args

theorem readBindings_eq_ok_iff {ms : List (String × Json)} {what : String}
    {ps : List (String × ParamKind)} :
    ∀ {args : List (String × ArgTree)}, readBindings ms what ps = .ok args ↔ Binds ms ps args := by
  induction ps with
  | nil =>
    intro args
    constructor
    · intro h
      cases h
      exact .nil
    · intro h
      cases h
      rfl
  | cons p rest ih =>
    obtain ⟨key, kind⟩ := p
    intro args
    rw [readBindings]
    constructor
    · intro h
      cases hk : Assoc.get? key ms with
      | none => rw [hk] at h; cases h
      | some node =>
        rw [hk] at h
        obtain ⟨o, ho, h⟩ := bind_eq_ok_iff.1 h
        cases o with
        | none => cases h
        | some a =>
          obtain ⟨more, hmore, h⟩ := bind_eq_ok_iff.1 h
          cases h
          obtain ⟨kinds, sound, rfl⟩ := readArg_eq_ok_iff.1 ho
          exact .cons ⟨rfl, kinds, sound, hk⟩ (ih.1 hmore)
    · intro h
      cases h with
      | @cons _ e _ more he rest =>
      obtain ⟨key', a⟩ := e
      obtain ⟨rfl, kinds, sound, hk⟩ := he
      rw [hk]
      have read : readArg kind key' what a.toJson = .ok (some a) :=
        readArg_eq_ok_iff.2 ⟨kinds, sound, rfl⟩
      simp only [read, ih.2 rest]
      rfl

theorem argMembers_eq_ok_iff {node : Json} {what : String} {ms : List (String × Json)} :
    argMembers node what = .ok ms ↔ node = .null ∧ ms = [] ∨ node = .object ms := by
  constructor
  · intro h
    cases node with
    | null => cases h; exact Or.inl ⟨rfl, rfl⟩
    | object entries => cases h; exact Or.inr rfl
    | bool | number | string | array => cases h
  · rintro (⟨rfl, rfl⟩ | rfl) <;> rfl

theorem unknownKeys_eq_nil_iff {ps : List (String × ParamKind)} {ms : List (String × Json)} :
    unknownKeys ps ms = [] ↔ ∀ key ∈ Assoc.keys ms, key ∈ Assoc.keys ps := by
  simp [unknownKeys, List.filter_eq_nil_iff]

theorem readArgs_eq_ok_iff {ps : List (String × ParamKind)} {node : Json} {what : String}
    {strict : Bool} {args : List (String × ArgTree)} {warnings : List Diagnostic} :
    readArgs ps node what strict = .ok (args, warnings) ↔
      ∃ ms, (node = .null ∧ ms = [] ∨ node = .object ms) ∧ Binds ms ps args ∧
        (strict = true → unknownKeys ps ms = []) ∧
        warnings = (unknownKeys ps ms).map (unknownKeyWarning what) := by
  constructor
  · intro h
    obtain ⟨ms, hms, h⟩ := bind_eq_ok_iff.1 h
    obtain ⟨bs, hbs, h⟩ := bind_eq_ok_iff.1 h
    refine ⟨ms, argMembers_eq_ok_iff.1 hms, ?_⟩
    have binds := readBindings_eq_ok_iff.1 hbs
    cases strict with
    | false =>
      cases h
      exact ⟨binds, nofun, rfl⟩
    | true =>
      cases hu : unknownKeys ps ms with
      | cons => rw [hu] at h; cases h
      | nil =>
        rw [hu] at h
        cases h
        exact ⟨binds, fun _ => rfl, rfl⟩
  · rintro ⟨ms, hms, binds, known, rfl⟩
    unfold readArgs
    rw [argMembers_eq_ok_iff.2 hms]
    simp only [bind, Except.bind, readBindings_eq_ok_iff.2 binds]
    cases strict with
    | false => rfl
    | true =>
      rw [known rfl]
      rfl

end Plain

end Netlist
