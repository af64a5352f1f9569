-- Types, parameters and arguments of documents: reading them into a sound design mirrors
-- reading them as trees and texts.
import Netlist.Proofs.Mirror.Basic
import Netlist.Proofs.Plain

namespace Netlist

variable {ε : Type} {d : Design}

namespace Document

open Design Edit Mirrors

/-! ## Nodes that are well formed -/

theorem members_eq_ok {node : Json} {what : String} {ms : List (String × Json)}
    (h : members node what = .ok ms) : node = .object ms := by
  cases node <;> cases h
  rfl

theorem wellFormed_members {node : Json} {what : String} {ms : List (String × Json)}
    (wf : node.WellFormed) (h : members node what = .ok ms) : (Json.object ms).WellFormed :=
  members_eq_ok h ▸ wf

theorem wellFormed_optional {ms : List (String × Json)} (wf : (Json.object ms).WellFormed)
    {key : String} {node : Json} (h : optional ms key = some node) : node.WellFormed :=
  wf.member (Option.filter_eq_some_iff.1 h).1

theorem wellFormed_readMetadata {node : Json} {what : String} {md : Metadata}
    (wf : node.WellFormed) (h : readMetadata node what = .ok md) : md.WellFormed := by
  cases node <;> cases h
  · exact Metadata.wellFormed_empty
  · exact wf

theorem wellFormed_readMetadata? {ms : List (String × Json)} {key what : String} {md : Metadata}
    (wf : (Json.object ms).WellFormed) (h : readMetadata? ms key what = .ok md) :
    md.WellFormed := by
  unfold readMetadata? at h
  cases hk : Assoc.get? key ms with
  | none => rw [hk] at h; cases h; exact Metadata.wellFormed_empty
  | some node => rw [hk] at h; exact wellFormed_readMetadata (wf.member hk) h

/-! ## Types -/

theorem mirrors_internAll (sound : d.Sound) (words : List String) :
    Mirrors Interns d (internAll words : Edit ε (List Name)) (.ok words)
      fun d' ns ws => List.Forall₂ (fun n w => d'.text? n = some w) ns ws := by
  induction words generalizing d with
  | nil => exact .ok rfl sound (.refl d) .nil
  | cons w rest ih =>
    obtain ⟨n, d₁, h₁, sound₁, g₁, text⟩ := Mirrors.intern (ε := ε) sound w
    obtain ⟨ns, d₂, h₂, sound₂, g₂, texts⟩ := ih sound₁
    refine ⟨n :: ns, d₂, ?_, sound₂, g₁.trans g₂, .cons (g₂.keeps.names text) texts⟩
    rw [internAll, bind_of_ok h₁, bind_of_ok h₂]
    rfl

/-- The named fields unfold to the trees, if the types do. -/
theorem unfoldsFields_zip {fields : List (String × TypeId)} {ts : List (String × TypeTree String)}
    (h : List.Forall₂ (fun f t => f.1 = t.1 ∧ d.Unfolds f.2 t.2) fields ts) {ns : List Name}
    (hn : List.Forall₂ (fun n w => d.text? n = some w) ns (fields.map (·.1))) :
    d.UnfoldsFields (ns.zip (fields.map (·.2))) ts := by
  induction h generalizing ns with
  | nil => cases hn; exact .nil
  | cons hf _ ih =>
    cases hn with
    | cons text hn => exact .cons (hf.1 ▸ text) hf.2 (ih hn)

/-- Fields whose types unfold to these trees. -/
def UnfoldFields (d : Design) (fields : List (String × TypeId))
    (ts : List (String × TypeTree String)) : Prop :=
  List.Forall₂ (fun f t => f.1 = t.1 ∧ d.Unfolds f.2 t.2) fields ts

theorem mirrors_record (sound : d.Sound) {fields : List (String × TypeId)}
    {ts : List (String × TypeTree String)} (h : UnfoldFields d fields ts) :
    Mirrors Interns d (record fields)
      (match TypeTable.firstRepeat (Assoc.keys ts) with
        | some name => throw (.duplicateField name)
        | none => return .record ts)
      Unfolds := by
  obtain ⟨ns, d', ran, sound', interns, texts⟩ := mirrors_internAll (ε := GraphError) sound
    (fields.map (·.1))
  have words : fields.map (·.1) = Assoc.keys ts := by
    refine List.forall₂_eq_eq_eq ▸ ?_
    exact List.forall₂_map_left_iff.2 (List.forall₂_map_right_iff.2 (h.imp fun _ _ h => h.1))
  have unfolds := unfoldsFields_zip (h.imp fun _ _ h => ⟨h.1, h.2.keep interns.keeps⟩) texts
  have keys : (ns.zip (fields.map (·.2))).map (·.1) = ns :=
    List.map_fst_zip (Nat.le_of_eq (by rw [texts.length_eq, List.length_map, List.length_map]))
  refine .after ran interns (.look (get_apply d') ?_)
  rw [TypeTable.record, keys]
  rcases firstRepeat_of_forall₂ (fun hn hk => sound'.text_eq_iff hn hk) texts with
    ⟨none, none'⟩ | ⟨n, name, some, some', text⟩
  · have parts : ∀ f ∈ ns.zip (fields.map (·.2)),
        (d'.text? f.1).isSome ∧ (d'.types.get? f.2).isSome := fun f hf => by
      obtain ⟨t, -, text, ht⟩ := exists_of_forall₂ (TypeTable.unfoldsFields_iff.1 unfolds) hf
      exact ⟨Option.isSome_of_eq_some text, ht.isSome⟩
    have nodup : (Assoc.keys (ns.zip (fields.map (·.2)))).Nodup := by
      rw [Assoc.keys, keys]
      exact (TypeTable.firstRepeat_eq_none_iff ns).1 none
    have keeps := (interns_withType d' (.record (ns.zip (fields.map (·.2))))).keeps
    rw [none, ← words, none']
    exact .ok rfl (sound'.withType (sound_record nodup parts)) (interns_withType _ _)
      (.record (sound'.type_withType _) (unfolds.mono keeps.types keeps.names))
  · rw [some, ← words, some']
    have told : failWith (fun d => (d.text? n).map GraphError.duplicateField) d' =
        (.error (.error (.duplicateField name)) d' : EStateM.Result _ _ TypeId) := by
      rw [failWith_apply, text]
      rfl
    exact .error told sound'

/-- A word for a leaf stands for the leaf in the design. -/
theorem leaf_unfolds (sound : d.Sound) {word : String} {id : TypeId}
    (leaf : TypeTable.leafByName word = some id) :
    ∃ t, Plain.leafByName word = some t ∧ d.Unfolds id t := by
  unfold TypeTable.leafByName at leaf
  split at leaf <;> cases leaf
  · exact ⟨.any, rfl, .any sound.any⟩
  · exact ⟨.bitIn, rfl, .bitIn sound.bitIn⟩
  · exact ⟨.bitOut, rfl, .bitOut sound.bitOut⟩

theorem readLength_lt {node : Json} {n : Nat} (h : readLength node = .ok n) : n < UInt32.size := by
  unfold readLength Json.asNat32? at h
  split at h
  · rename_i k hk
    obtain ⟨i, hi, rfl⟩ := Option.map_eq_some_iff.1 hk
    have bound := of_decide_eq_true (Option.filter_eq_some_iff.1 hi).2
    cases h
    omega
  · cases h

theorem mirrors_readType (node : Json) : ∀ {d : Design}, d.Sound →
    Mirrors Interns d (readType node) (Plain.readType node) Unfolds := by
  refine typeNode_induction
    (P := fun node => ∀ {d : Design}, d.Sound →
      Mirrors Interns d (readType node) (Plain.readType node) Unfolds)
    (Q := fun entries => ∀ {d : Design}, d.Sound →
      Mirrors Interns d (readFields entries) (Plain.readFields entries) UnfoldFields)
    ?leaf ?array ?record ?malformed ?nil ?field ?noField node
  case leaf =>
    intro word id leaf d sound
    obtain ⟨t, leaf', unfolds⟩ := leaf_unfolds sound leaf
    rw [readType_leaf leaf, Plain.readType_leaf leaf']
    exact .pure sound unfolds (.refl d)
  case array =>
    intro length element ih d sound
    rw [readType_array, Plain.readType_array]
    refine (Mirrors.reading sound _).bind fun {n n' d'} read sound' _ hn => (ih sound').bind
      fun {id t d''} _ sound'' _ ht => ?_
    subst hn
    exact .ok (array_apply id n d'') (sound''.withType (sound_array ht.isSome (readLength_lt read)))
      (interns_withType _ _) (.array (sound''.type_withType _) (ht.keep (interns_withType _ _).keeps))
  case record =>
    intro entries ih d sound
    rw [readType_record, Plain.readType_record]
    refine (ih sound).bind fun {fields ts d'} _ sound' _ h => ?_
    have := (mirrors_record sound' h).within LoadError.ofGraph
    cases hr : TypeTable.firstRepeat (Assoc.keys ts) <;> rw [hr] at this <;> exact this
  case malformed =>
    intro node text h d sound
    rw [h.readType, Plain.readType_malformed h]
    exact .fail sound _
  case nil =>
    intro d sound
    rw [readFields, Plain.readFields]
    exact .pure sound .nil (.refl d)
  case field =>
    intro name node rest ih ih' d sound
    rw [readFields, Plain.readFields]
    refine (ih sound).bind fun _ sound' _ ht => (ih' sound').bind fun _ sound'' g hts =>
      .pure sound'' (.cons ⟨rfl, ht.keep g.keeps⟩ hts) (.refl _)
  case noField =>
    intro entry rest h d sound
    rw [h.readFields, Plain.readFields_noField h]
    exact .fail sound _

/-! ## Parameters -/

/-- Sound parameters, and their outline. -/
def SoundParams (d : Design) (params : Params) (ps : List (String × ParamKind)) : Prop :=
  NameMap.Sound d params ∧ d.outlineParams? params = some ps

theorem SoundParams.keep {c d : Design} {params : Params} {ps : List (String × ParamKind)}
    (h : SoundParams c params ps) (k : c.Keeps d) : SoundParams d params ps :=
  ⟨h.1.keep k, k.outlineParams h.2⟩

theorem soundParams_empty (d : Design) : SoundParams d ∅ [] := ⟨.empty, rfl⟩

theorem mirrors_readParamMembers (ms : List (String × Json)) : ∀ {d : Design} {params : Params}
    {ps : List (String × ParamKind)}, d.Sound → SoundParams d params ps →
    Mirrors Interns d (readParamMembers params ms) (Plain.readParamMembers ps ms) SoundParams := by
  induction ms with
  | nil => exact fun sound h => .pure sound h (.refl _)
  | cons m rest ih =>
    intro d params ps sound h
    refine (Mirrors.reading sound _).bind fun {kind kind' d'} _ sound' g hk => ?_
    subst hk
    obtain ⟨n, d'', ran, sound'', g', text⟩ := (Mirrors.intern sound' m.1 : Mirrors (ε := LoadError) ..)
    have h'' := h.keep (g.trans g').keeps
    refine .after ran g' (ih sound'' ⟨h''.1.insert (Option.isSome_of_eq_some text) kind, ?_⟩)
    rw [outlineParams?, h''.1.consistent.toList_insert]
    exact sound''.outlineEntries_set h''.2 text rfl

theorem mirrors_readParams (sound : d.Sound) (node : Json) :
    Mirrors Interns d (readParams node) (Plain.readParams node) SoundParams := by
  cases node with
  | null => exact .pure sound (soundParams_empty d) (.refl d)
  | object ms => exact mirrors_readParamMembers ms sound (soundParams_empty d)
  | bool | number | string | array => exact .fail sound _

theorem mirrors_readParams? (sound : d.Sound) (ms : List (String × Json)) (key : String) :
    Mirrors Interns d (readParams? ms key) (Plain.readParams? ms key) SoundParams := by
  unfold readParams? Plain.readParams?
  cases Assoc.get? key ms with
  | some node => exact mirrors_readParams sound node
  | none => exact .pure sound (soundParams_empty d) (.refl d)

/-! ## Arguments -/

/-- Sound arguments, and their outline. -/
def SoundArgs (d : Design) (args : Args) (bs : List (String × ArgTree)) : Prop :=
  Args.Sound d args ∧ d.outlineArgs? args = some bs

theorem SoundArgs.keep {c d : Design} {args : Args} {bs : List (String × ArgTree)}
    (h : SoundArgs c args bs) (hd : d.Sound) (k : c.Keeps d) : SoundArgs d args bs :=
  ⟨h.1.keep k, k.outlineArgs hd h.2⟩

theorem mirrors_readArg (sound : d.Sound) (kind : ParamKind) (key what : String) (node : Json) :
    Mirrors Interns d (readArg kind key what node) (Plain.readArg kind key what node)
      fun d' => Option.Rel fun a b => a.Sound d' ∧ d'.argTree? a = some b ∧ a.kind = kind := by
  cases kind with
  | int =>
    refine .pure sound ?_ (.refl d)
    cases h : node.asInt64? with
    | none => exact .none
    | some i => exact .some ⟨(Option.filter_eq_some_iff.1 h).2, rfl, rfl⟩
  | string =>
    refine .pure sound ?_ (.refl d)
    cases node.asString? with
    | none => exact .none
    | some t => exact .some ⟨trivial, rfl, rfl⟩
  | type =>
    refine ((mirrors_readType node sound).within _).bind fun {id t d'} _ sound' _ ht => ?_
    refine .pure sound' (.some ⟨ht.isSome, ?_, rfl⟩) (.refl d')
    exact Option.map_eq_some_iff.2 ⟨t, sound'.typeTree_eq_some_iff.2 ht, rfl⟩

/-- Arguments that bind some parameters in their order. -/
def Bind (args : List (Name × Arg)) (params : List (Name × ParamKind)) : Prop :=
  List.Forall₂ (fun e p => e.1 = p.1 ∧ e.2.kind = p.2) args params

theorem Bind.keys_eq {args : List (Name × Arg)} {params : List (Name × ParamKind)}
    (h : Bind args params) : Assoc.keys args = Assoc.keys params :=
  List.forall₂_eq_eq_eq ▸ List.forall₂_map_left_iff.2 (List.forall₂_map_right_iff.2
    (h.imp fun _ _ h => h.1))

/-- A new argument comes behind the others. -/
theorem SoundArgs.insert {args : Args} {bs : List (String × ArgTree)} (h : SoundArgs d args bs)
    {n : Name} {key : String} (text : d.text? n = some key) {a : Arg} {b : ArgTree}
    (ha : a.Sound d) (hab : d.argTree? a = some b) (fresh : n ∉ Assoc.keys args.toList) :
    (args.insert n a).2.toList = args.toList ++ [(n, a)] ∧
      SoundArgs d (args.insert n a).2 (bs ++ [(key, b)]) := by
  have list : (args.insert n a).2.toList = args.toList ++ [(n, a)] := by
    rw [h.1.consistent.toList_insert, Assoc.set_of_not_mem a fresh]
  refine ⟨list, { h.1.toSound.insert (Option.isSome_of_eq_some text) a with values := ?_ }, ?_⟩
  · intro e he
    rw [list, List.mem_append, List.mem_singleton] at he
    rcases he with he | rfl
    · exact h.1.values e he
    · exact ha
  · rw [outlineArgs?, list]
    exact outlineEntries_append h.2 (outlineEntries_singleton text hab)

/-- Parameters are bound one after another; the ones before are bound already. -/
theorem mirrors_readBindings (ms : List (String × Json)) (what : String)
    {rest : List (Name × ParamKind)} {ps : List (String × ParamKind)} :
    ∀ {d : Design} {args : Args} {bs : List (String × ArgTree)} {before : List (Name × ParamKind)},
    d.Sound → SoundArgs d args bs → Bind args.toList before → (Assoc.keys (before ++ rest)).Nodup →
    d.outlineEntries? some rest = some ps →
    Mirrors Interns d (readBindings ms what args rest) (Plain.readBindings ms what ps)
      fun d' args' l => SoundArgs d' args' (bs ++ l) ∧ Bind args'.toList (before ++ rest) := by
  induction rest generalizing ps with
  | nil =>
    intro d args bs before sound h bind nodup entries
    cases outlineEntries_eq_some_iff.1 entries
    exact .pure sound ⟨by simpa using h, by simpa using bind⟩ (.refl d)
  | cons p rest ih =>
    obtain ⟨n, kind⟩ := p
    intro d args bs before sound h bind nodup entries
    cases outlineEntries_eq_some_iff.1 entries with
    | @cons _ q _ ps hq hps =>
    obtain ⟨key, kind'⟩ := q
    obtain ⟨text, ⟨⟩⟩ := hq
    refine .look (live_of_some text) ?_
    rw [Plain.readBindings]
    cases Assoc.get? key ms with
    | none => exact .fail sound _
    | some node =>
      refine (mirrors_readArg sound kind key what node).bind fun {o o' d'} _ sound' g ho => ?_
      cases ho with
      | none => exact .fail sound' _
      | @some a b hab =>
        obtain ⟨ha, tree, hk⟩ := hab
        have fresh : n ∉ Assoc.keys args.toList := by
          rw [bind.keys_eq]
          rw [Assoc.keys, List.map_append, List.nodup_append] at nodup
          exact fun hn => nodup.2.2 n hn n List.mem_cons_self rfl
        obtain ⟨list, sound''⟩ := SoundArgs.insert (h.keep sound' g.keeps)
          (g.keeps.names text) ha tree fresh
        have bound : Bind (args.insert n a).2.toList (before ++ [(n, kind)]) := by
          rw [list]
          exact List.rel_append bind (.cons ⟨rfl, hk⟩ .nil)
        have entries' : d'.outlineEntries? some rest = some ps :=
          g.keeps.outlineEntries id (outlineEntries_eq_some_iff.2 hps)
        refine (ih sound' sound'' bound (by simpa using nodup) entries').map
          fun _ _ _ h => ?_
        exact ⟨by simpa using h.1, by simpa using h.2⟩

/-- Arguments that bind the parameters in their order fit them. -/
theorem Bind.fits {params : Params} {args : Args} (hp : params.Consistent) (ha : args.Consistent)
    (h : Bind args.toList params.toList) : params.Fits args := by
  rw [Params.fits_iff]
  constructor
  · intro p hp'
    obtain ⟨e, he, name, kind⟩ := exists_of_forall₂ h.flip hp'
    exact ⟨e.2, (ha.get?_eq_some_iff _ _).2 (name ▸ he), kind⟩
  · intro n hn
    obtain ⟨e, he, rfl⟩ := List.mem_map.1 hn
    obtain ⟨p, hp', name, -⟩ := exists_of_forall₂ h he
    exact (hp.contains_iff _).2 (name ▸ List.mem_map_of_mem hp')

/-- The keys that no parameter has are the same by name and by text. -/
theorem unknownKeys_eq (sound : d.Sound) {params : Params} {ps : List (String × ParamKind)}
    (h : SoundParams d params ps) (ms : List (String × Json)) :
    unknownKeys d params ms = Plain.unknownKeys ps ms := by
  unfold unknownKeys Plain.unknownKeys
  refine List.filter_congr fun key _ => ?_
  cases hf : d.names.find? key with
  | some n =>
    have text := (sound.names key n).1 hf
    have mem := sound.mem_keys_iff h.2 text
    have contains : params.contains n = decide (key ∈ Assoc.keys ps) := by
      rw [Bool.eq_iff_iff, decide_eq_true_iff]
      exact (h.1.consistent.contains_iff n).trans mem
    exact congrArg (!·) contains
  | none =>
    simp [sound.not_mem_keys h.2 hf]

theorem mirrors_readArgs (sound : d.Sound) {params : Params} {ps : List (String × ParamKind)}
    (h : SoundParams d params ps) (node : Json) (what : String) (strict : Bool) :
    Mirrors Interns d (readArgs params node what strict) (Plain.readArgs ps node what strict)
      fun d' r r' => SoundArgs d' r.1 r'.1 ∧ params.Fits r.1 ∧ r.2 = r'.2 := by
  refine (Mirrors.reading sound _).bind fun {ms ms' d₁} _ sound₁ g₁ hm => ?_
  subst hm
  have start : SoundArgs d₁ ∅ [] := ⟨⟨.empty, fun e he => by cases he⟩, rfl⟩
  have h₁ := h.keep g₁.keeps
  refine (mirrors_readBindings ms what sound₁ start .nil h₁.1.consistent.nodup h₁.2).bind
    fun {args bs d₂} _ sound₂ g₂ hb => .look (get_apply d₂) ?_
  have fits := hb.2.fits h₁.1.consistent hb.1.1.consistent
  rw [unknownKeys_eq sound₂ (h₁.keep g₂.keeps)]
  cases strict with
  | false => exact .pure sound₂ ⟨hb.1, fits, rfl⟩ (.refl d₂)
  | true =>
    cases Plain.unknownKeys ps ms with
    | nil => exact .pure sound₂ ⟨hb.1, fits, rfl⟩ (.refl d₂)
    | cons key _ => exact .fail sound₂ _

end Document

end Netlist
