-- Arguments go three ways: they are read from a document, saved to one, and checked against
-- the parameters of a target. What is read passes the check, and what passes the check is
-- saved as members that are read as the same arguments.
import Netlist.Proofs.TypeNodes

namespace Netlist

open Edit

variable {d : Design}

/-! ## Arguments concern names and types alone -/

namespace Edit

variable {ε α : Type}

theorem Local.live {read : Design → Option α}
    (same : ∀ d e : Design, read (d.withTables e) = read e) : Local (live read : Edit ε α) :=
  fun d e => by
    rw [live_apply, live_apply, same]
    cases read e <;> rfl

end Edit

namespace Document

theorem local_readArg (kind : ParamKind) (key what : String) (node : Json) :
    Local (readArg kind key what node) := by
  cases kind with
  | int => exact .pure _
  | string => exact .pure _
  | type => exact ((TypeSteps.readType Local node).within _).bind fun _ => .pure _

theorem local_readBindings (ms : List (String × Json)) (what : String) (args : Args)
    (params : List (Name × ParamKind)) : Local (readBindings ms what args params) := by
  induction params generalizing args with
  | nil => exact .pure _
  | cons p rest ih =>
    refine (Local.live fun _ _ => rfl).bind fun key => ?_
    split
    · exact .fail _
    · refine (local_readArg p.2 key what _).bind fun a => ?_
      split
      · exact ih _
      · exact .fail _

theorem local_readArgs (params : Params) (node : Json) (what : String) (strict : Bool) :
    Local (readArgs params node what strict) := by
  refine (Local.ofExcept _).bind fun ms => (local_readBindings ms what ∅ _).bind fun args d e => ?_
  rw [bind_of_ok (get_apply _), bind_of_ok (get_apply _),
    show unknownKeys (d.withTables e) params ms = unknownKeys e params ms from rfl]
  cases strict with
  | false => rfl
  | true => cases unknownKeys e params ms <;> rfl

/-- Arguments are read in three steps, each of which may fail: the members, the bindings, and the
members that no parameter asks for. -/
theorem readArgs_apply (params : Params) (node : Json) (what : String) (strict : Bool)
    (d : Design) : readArgs params node what strict d =
      match argMembers node what with
      | .error e => .error (.error e) d
      | .ok ms =>
        match readBindings ms what ∅ params.toList d with
        | .error e d' => .error e d'
        | .ok args d' =>
          match strict, unknownKeys d' params ms with
          | true, key :: _ => .error (.error (.arg s!"unexpected argument '{key}' for {what}")) d'
          | _, unknown => .ok (args, unknown.map (unknownKeyWarning what)) d' := by
  unfold readArgs
  cases argMembers node what with
  | error e => rfl
  | ok ms =>
    refine (bind_of_ok rfl).trans ?_
    dsimp only
    cases bound : readBindings ms what ∅ params.toList d with
    | error e d' => exact bind_of_error bound
    | ok args d' =>
      refine (bind_of_ok bound).trans ((bind_of_ok (get_apply d')).trans ?_)
      dsimp only
      cases strict with
      | false => rfl
      | true => cases unknownKeys d' params ms <;> rfl

/-- Arguments that are read are bindings of the parameters. -/
theorem readArgs_eq_ok {params : Params} {node : Json} {what : String} {strict : Bool}
    {args : Args} {warnings : List Diagnostic} {d' : Design}
    (h : readArgs params node what strict d = .ok (args, warnings) d') :
    ∃ ms, readBindings ms what ∅ params.toList d = .ok args d' := by
  rw [readArgs_apply] at h
  cases members : argMembers node what with
  | error e => rw [members] at h; cases h
  | ok ms =>
    simp only [members] at h
    cases bound : readBindings ms what ∅ params.toList d with
    | error e d₁ => simp only [bound] at h; cases h
    | ok args₁ d₁ =>
      refine ⟨ms, bound.trans ?_⟩
      simp only [bound] at h
      split at h <;> cases h
      rfl

theorem kind_of_readArg {kind : ParamKind} {key what : String} {node : Json} {a : Arg} {d' : Design}
    (h : readArg kind key what node d = .ok (some a) d') : a.kind = kind := by
  cases kind with
  | int =>
    have read : node.asInt64?.map Arg.int = some a := (EStateM.Result.ok.inj h).1
    obtain ⟨i, -, rfl⟩ := Option.map_eq_some_iff.1 read
    rfl
  | string =>
    have read : node.asString?.map Arg.string = some a := (EStateM.Result.ok.inj h).1
    obtain ⟨s, -, rfl⟩ := Option.map_eq_some_iff.1 read
    rfl
  | type =>
    obtain ⟨id, d₁, -, ⟨⟩⟩ := seq_eq_ok_iff.1 h
    rfl

/-- What is read binds the parameters in their order. -/
theorem exists_bindings {ms : List (String × Json)} {what : String}
    {params : List (Name × ParamKind)} : ∀ {d d' : Design} {args args' : Args},
    readBindings ms what args params d = .ok args' d' →
    ∃ es, Bind es params ∧ args' = es.foldl (fun m e => (m.insert e.1 e.2).2) args := by
  induction params with
  | nil =>
    intro d d' args args' h
    cases h
    exact ⟨[], .nil, rfl⟩
  | cons p rest ih =>
    intro d d' args args' h
    obtain ⟨key, d₁, -, h⟩ := seq_eq_ok_iff.1 h
    cases hk : Assoc.get? key ms with
    | none => rw [hk] at h; cases h
    | some node =>
      rw [hk] at h
      obtain ⟨o, d₂, ho, h⟩ := seq_eq_ok_iff.1 h
      cases o with
      | none => cases h
      | some a =>
        obtain ⟨es, binds, same⟩ := ih h
        exact ⟨(p.1, a) :: es, .cons ⟨rfl, kind_of_readArg ho⟩ binds, same⟩

/-- Bindings of different parameters, put in one after another, stay in their order. -/
theorem Bind.toList_ofList {es : List (Name × Arg)} {params : Params} (h : Bind es params.toList)
    (hp : params.Consistent) : (NameMap.ofList es).toList = es := by
  refine NameMap.toList_ofList_of_nodup ?_
  rw [h.keys_eq]
  exact hp.nodup

/-- Arguments that are read have the names of the parameters in their order, and fit them. -/
theorem fits_of_readArgs {params : Params} (hp : params.Consistent) {node : Json} {what : String}
    {strict : Bool} {args : Args} {warnings : List Diagnostic} {d' : Design}
    (h : readArgs params node what strict d = .ok (args, warnings) d') :
    args.names = params.names ∧ params.Fits args := by
  obtain ⟨ms, bound⟩ := readArgs_eq_ok h
  obtain ⟨es, binds, rfl⟩ := exists_bindings bound
  have bound : Bind (NameMap.ofList es).toList params.toList := by
    rw [binds.toList_ofList hp]
    exact binds
  exact ⟨bound.keys_eq, bound.fits hp (NameMap.consistent_ofList es)⟩

/-! ## Arguments that are saved and read again -/

theorem readArg_of_argTree (sound : d.Sound) {a : Arg} {b : ArgTree} (ha : a.Sound d)
    (tree : d.argTree? a = some b) (key what : String) :
    readArg a.kind key what b.toJson d = .ok (some a) d := by
  cases a with
  | int i =>
    cases tree
    have number : (Json.int i).asInt64? = some i := Json.asInt64?_eq_some_iff.2 ⟨rfl, ha⟩
    exact congrArg (fun o => EStateM.Result.ok (o.map Arg.int) d) number
  | string s =>
    cases tree
    rfl
  | type id =>
    obtain ⟨t, ht, rfl⟩ := Option.map_eq_some_iff.1 tree
    have read := (sound.typeTree_eq_some_iff.1 ht).readType sound
    exact bind_of_ok (within_of_ok read)

/-- A binding and the member that it is saved as. -/
def SavedIn (d : Design) (ms : List (String × Json)) (e : Name × Arg) : Prop :=
  ∃ key b, d.text? e.1 = some key ∧ e.2.Sound d ∧ d.argTree? e.2 = some b ∧
    Assoc.get? key ms = some b.toJson

theorem readBindings_of_saved (sound : d.Sound) {ms : List (String × Json)} (what : String)
    {es : List (Name × Arg)} {params : List (Name × ParamKind)} (binds : Bind es params)
    (saved : ∀ e ∈ es, SavedIn d ms e) (args : Args) :
    readBindings ms what args params d =
      .ok (es.foldl (fun m e => (m.insert e.1 e.2).2) args) d := by
  induction binds generalizing args with
  | nil => rfl
  | @cons e p _ _ h _ ih =>
    obtain ⟨⟨key, b, text, ha, tree, member⟩, rest⟩ := List.forall_mem_cons.1 saved
    obtain ⟨n, kind⟩ := p
    obtain ⟨rfl, rfl⟩ := h
    rw [readBindings, bind_of_ok (live_of_some text)]
    simp only [member]
    rw [bind_of_ok (readArg_of_argTree sound ha tree key what)]
    exact ih rest _

/-- The keys of saved arguments are their names, so each is the name of a parameter. -/
theorem unknownKeys_of_saved (sound : d.Sound) {params : Params} {args : Args}
    {bs : List (String × ArgTree)} (saved : d.outlineArgs? args = some bs)
    (declared : ∀ n ∈ args.names, params.contains n = true) {ms : List (String × Json)}
    (keys : Assoc.keys ms = Assoc.keys bs) : unknownKeys d params ms = [] := by
  refine List.filter_eq_nil_iff.2 fun key hkey => ?_
  have mem : key ∈ Assoc.keys bs := keys ▸ hkey
  obtain ⟨r, hr, rfl⟩ := List.mem_map.1 mem
  obtain ⟨e, he, text, -⟩ := exists_of_forall₂ (Design.outlineEntries_eq_some_iff.1 saved).flip hr
  have found : d.names.find? r.1 = some e.1 := (sound.names _ _).2 text
  simp [found, declared e.1 (List.mem_map_of_mem he)]

/-- Each argument is saved in the member of its name. -/
theorem savedIn_of_outline (sound : d.Sound) {args : Args} (ha : Args.Sound d args)
    {bs : List (String × ArgTree)} (saved : d.outlineArgs? args = some bs) {e : Name × Arg}
    (he : args.get? e.1 = some e.2) : SavedIn d (bs.map fun b => (b.1, b.2.toJson)) e := by
  have mem : e ∈ args.toList := (ha.consistent.get?_eq_some_iff _ _).1 he
  obtain ⟨key, text⟩ := Option.isSome_iff_exists.1 (ha.named e mem)
  have related := sound.get?_outlineEntries saved text
  rw [← ha.consistent.get?_eq, he] at related
  cases found : Assoc.get? key bs with
  | none => rw [found] at related; cases related
  | some b =>
    rw [found] at related
    cases related with
    | some tree =>
      refine ⟨key, b, text, ha.values e mem, tree, ?_⟩
      rw [Assoc.get?_map, found]
      rfl

/-- Arguments that fit are bindings of the parameters, in whatever order they stand. -/
theorem exists_bind_of_fits {params : Params} (hp : params.Consistent) {args : Args}
    (ha : args.Consistent) (fits : params.Fits args) : ∃ es, Bind es params.toList ∧
      (∀ e ∈ es, args.get? e.1 = some e.2) ∧ ∀ n, (NameMap.ofList es).get? n = args.get? n := by
  obtain ⟨met, declared⟩ := (Params.fits_iff params args).1 fits
  obtain ⟨es, hes⟩ := exists_forall₂ (R := fun (p : Name × ParamKind) (e : Name × Arg) =>
    e.1 = p.1 ∧ e.2.kind = p.2 ∧ args.get? e.1 = some e.2) (l := params.toList) fun p hp => by
      obtain ⟨a, found, kind⟩ := met p hp
      exact ⟨(p.1, a), rfl, kind, found⟩
  have binds : Bind es params.toList := hes.flip.imp fun _ _ h => ⟨h.1, h.2.1⟩
  have found : ∀ e ∈ es, args.get? e.1 = some e.2 := fun e he => by
    obtain ⟨p, -, -, -, found⟩ := exists_of_forall₂ hes.flip he
    exact found
  have consistent := NameMap.consistent_ofList es
  have list := binds.toList_ofList hp
  refine ⟨es, binds, found, fun n => ?_⟩
  cases h : (NameMap.ofList es).get? n with
  | some a =>
    have mem := (consistent.get?_eq_some_iff n a).1 h
    rw [list] at mem
    exact (found _ mem).symm
  | none =>
    -- no parameter has the name, so no argument that fits has it
    have fresh : n ∉ params.names := by
      rw [consistent.get?_eq, Assoc.get?_eq_none_iff, list, binds.keys_eq] at h
      exact h
    rw [ha.get?_eq, eq_comm, Assoc.get?_eq_none_iff]
    exact fun mem => fresh ((hp.contains_iff n).1 (declared n mem))

/-- Arguments that fit are saved as members that are read as the same values, in the order of
the parameters. Nothing else comes of it. -/
theorem readArgs_of_saved (sound : d.Sound) {params : Params} (hp : params.Consistent) {args : Args}
    (ha : Args.Sound d args) (fits : params.Fits args) {bs : List (String × ArgTree)}
    (saved : d.outlineArgs? args = some bs) (what : String) (strict : Bool) :
    ∃ again : Args, again.Consistent ∧ again.names = params.names ∧
      (∀ n, again.get? n = args.get? n) ∧
      readArgs params (Outline.argsToJson bs) what strict d = .ok (again, []) d := by
  obtain ⟨es, binds, found, same⟩ := exists_bind_of_fits hp ha.consistent fits
  have names : (NameMap.ofList es).names = params.names :=
    (congrArg Assoc.keys (binds.toList_ofList hp)).trans binds.keys_eq
  refine ⟨.ofList es, NameMap.consistent_ofList es, names, same, ?_⟩
  have members : argMembers (Outline.argsToJson bs) what =
      .ok (bs.map fun b => (b.1, b.2.toJson)) := rfl
  have bound := readBindings_of_saved sound what binds
    (fun e he => savedIn_of_outline sound ha saved (found e he)) ∅
  have known := unknownKeys_of_saved sound saved ((Params.fits_iff params args).1 fits).2
    (Assoc.keys_map ArgTree.toJson bs)
  simp only [readArgs_apply, members, bound, known]
  cases strict <;> rfl

/-! ## Warnings while arguments are read -/

/-- A step that reads into a design and reports to a log. -/
abbrev Reporting := EStateM (Failure LoadError) (Design × Diagnostic.Log)

/-- Reports the keys one after another. If it is strict, it fails at the first one instead. -/
def reportUnknown (what : String) (strict : Bool) : List String → Reporting Unit
  | [] => pure ()
  | key :: rest =>
    if strict then throw (.error (.arg s!"unexpected argument '{key}' for {what}"))
    else do
      modify fun (d, log) => (d, log.emit (unknownKeyWarning what key))
      reportUnknown what strict rest

/-- Reads arguments, and reports each warning as soon as it comes up. -/
def reportArgs (params : Params) (node : Json) (what : String) (strict : Bool) :
    Reporting Args := do
  let ms ← beside (ofExcept (argMembers node what))
  let args ← beside (readBindings ms what ∅ params.toList)
  let (d, _) ← get
  reportUnknown what strict (unknownKeys d params ms)
  return args

theorem reportUnknown_lax (what : String) (keys : List String) (log : Diagnostic.Log) :
    reportUnknown what false keys (d, log) =
      .ok () (d, log.emitAll (keys.map (unknownKeyWarning what))) := by
  induction keys generalizing log with
  | nil => rfl
  | cons key rest ih => exact ih (log.emit (unknownKeyWarning what key))

/-- The warnings that come with the arguments are those that are reported meanwhile, and a
reading that fails reports none. -/
theorem reportArgs_apply (params : Params) (node : Json) (what : String) (strict : Bool)
    (log : Diagnostic.Log) : reportArgs params node what strict (d, log) =
      match readArgs params node what strict d with
      | .ok (args, warnings) d' => .ok args (d', log.emitAll warnings)
      | .error e d' => .error e (d', log) := by
  rw [readArgs_apply]
  unfold reportArgs
  cases argMembers node what with
  | error e => rfl
  | ok ms =>
    refine (bind_of_ok rfl).trans ?_
    dsimp only
    cases bound : readBindings ms what ∅ params.toList d with
    | error e d' => exact bind_of_error (beside_of_error bound log)
    | ok args d' =>
      refine (bind_of_ok (beside_of_ok bound log)).trans ((bind_of_ok rfl).trans ?_)
      dsimp only
      cases strict with
      | false => exact bind_of_ok (reportUnknown_lax what _ log)
      | true => cases unknownKeys d' params ms <;> rfl

/-! ## Arguments of instances -/

end Document

/-- Adds an instance of a module without a look at its arguments. -/
def Definition.addUnchecked (definition : Definition) (name : String) (id : ModuleId)
    (config : Args) : Edit GraphError (Definition × Instance) := do
  let _ ← Edit.live fun d => d.modules.get? id
  let _ ← Edit.live fun d => d.qualifiedName? (.module id)
  definition.insertInstance ⟨← Edit.intern name, .module id, config, none, ∅⟩

/-- The look at arguments that fit makes no difference. -/
theorem Definition.addInstance_of_fits (x : Definition) (name : String) {id : ModuleId}
    {m : Module} (hm : d.modules.get? id = some m) {config : Args} (fits : m.params.Fits config) :
    x.addInstance name id config d = x.addUnchecked name id config d := by
  unfold addInstance addUnchecked
  have live : (live fun d => d.modules.get? id : Edit GraphError Module) d = .ok m d :=
    live_of_some hm
  rw [bind_of_ok live, bind_of_ok live]
  refine seq_congr fun label _ h => ?_
  obtain ⟨-, rfl⟩ := live_eq_ok_iff.1 h
  rw [bind_of_ok]
  rw [check_apply, Params.check, fits]

namespace Document

/-- Reads an instance, and adds it in a given way. -/
def readInstanceBy
    (add : Definition → String → ModuleId → Args → Edit GraphError (Definition × Instance))
    (strict : Bool) (owner : String) (definition : Definition) (name : String) (node : Json) :
    Load (Definition × List Diagnostic) := do
  let what := s!"instance {name} in {owner}"
  let ms ← members node what
  let (scope, ref) ← symbolPair (← required ms "instref" what) s!"instref of {what}"
  let target ← (Edit.resolve scope ref).within .ofGraph
  let params ← Edit.live fun d => d.configParams? target
  let (config, warnings) ←
    readArgs params ((Assoc.get? "config" ms).getD .null) what strict
  let id ← instanceModule target (Assoc.get? "genargs" ms).isSome what (scope ++ "." ++ ref)
  let (definition, i) ← (add definition name id config).within .ofGraph
  let metadata ← readMetadata? ms "metadata" what
  return (definition.annotate i.name metadata, warnings)

theorem readInstanceBy_addInstance : readInstanceBy Definition.addInstance = readInstance := rfl

theorem instanceModule_eq_ok {target : Target} {genargs : Bool} {what label : String}
    {id : ModuleId} (h : instanceModule target genargs what label = .ok id) :
    target = .module id := by
  unfold instanceModule at h
  split at h <;> cases h
  rfl

theorem resolve_eq_ok {scope name : String} {t : Target} {d' : Design}
    (h : resolve scope name d = .ok t d') : d = d' := by
  obtain ⟨found, d₁, looked, h⟩ := seq_eq_ok_iff.1 h
  obtain ⟨-, rfl⟩ := live_eq_ok_iff.1 looked
  cases found <;> cases h
  rfl

/-- What is read of arguments leaves the modules as they are. -/
theorem modules_of_readArgs {params : Params} {node : Json} {what : String} {strict : Bool}
    {r : Args × List Diagnostic} {d' : Design} (h : readArgs params node what strict d = .ok r d') :
    d'.modules = d.modules := by
  rw [(local_readArgs params node what strict).apply_eq] at h
  cases read : readArgs params node what strict d.tables with
  | error => rw [read] at h; cases h
  | ok r' e =>
    rw [read] at h
    cases h
    rfl

/-- No instance that is read is refused for its arguments. -/
theorem readInstanceBy_addUnchecked
    (hp : ∀ {id m}, d.modules.get? id = some m → m.params.Consistent) (strict : Bool)
    (owner : String) (definition : Definition) (name : String) (node : Json) :
    readInstance strict owner definition name node d =
      readInstanceBy Definition.addUnchecked strict owner definition name node d := by
  rw [← readInstanceBy_addInstance]
  unfold readInstanceBy
  refine seq_congr fun ms _ h => ?_
  obtain ⟨-, rfl⟩ := liftM_eq_ok_iff.1 h
  refine seq_congr fun instref _ h => ?_
  obtain ⟨-, rfl⟩ := liftM_eq_ok_iff.1 h
  refine seq_congr fun (scope, ref) _ h => ?_
  obtain ⟨-, rfl⟩ := liftM_eq_ok_iff.1 h
  refine seq_congr fun target _ h => ?_
  obtain rfl := resolve_eq_ok (within_eq_ok_iff.1 h)
  refine seq_congr fun params _ h => ?_
  obtain ⟨declared, rfl⟩ := live_eq_ok_iff.1 h
  refine seq_congr fun (config, warnings) d' read => ?_
  have same := modules_of_readArgs read
  refine seq_congr fun id _ h => ?_
  obtain ⟨chosen, rfl⟩ := liftM_eq_ok_iff.1 h
  obtain rfl := instanceModule_eq_ok chosen
  obtain ⟨m, hm, rfl⟩ := Option.map_eq_some_iff.1 declared
  have fits := (fits_of_readArgs (hp hm) read).2
  have found : d'.modules.get? id = some m := by rw [same, hm]
  refine seq_congr_left ?_ _
  rw [within_apply, within_apply, definition.addInstance_of_fits name found fits]

/-! ## The three ways agree -/

end Document

namespace Design

open Document

/-- Arguments that fit are saved, and what they are saved as is read as the same values. -/
theorem TypesSound.readArgs_of_fits (h : d.TypesSound) {params : Params} (hp : params.Consistent)
    {args : Args} (ha : Args.Sound d args) (fits : params.Fits args) :
    ∃ saved, d.argsNode? args = some saved ∧ ∀ what strict, ∃ again : Args, again.Consistent ∧
      again.names = params.names ∧ (∀ n, again.get? n = args.get? n) ∧
      readArgs params saved what strict d = .ok (again, []) d := by
  have alone : Args.Sound d.tables args := ⟨⟨ha.consistent, ha.named⟩, ha.values⟩
  obtain ⟨bs, saved⟩ := h.tables.exists_outlineArgs alone
  have there : d.outlineArgs? args = some bs :=
    (outlineArgs?_withTables empty d args).symm.trans saved
  refine ⟨Outline.argsToJson bs, congrArg (Option.map Outline.argsToJson) there,
    fun what strict => ?_⟩
  obtain ⟨again, consistent, names, same, read⟩ :=
    readArgs_of_saved h.tables hp alone fits saved what strict
  refine ⟨again, consistent, names, same, ?_⟩
  rw [(local_readArgs params _ what strict).apply_eq, read]
  rfl

/-- What is read are sound arguments of the design that is left. -/
theorem TypesSound.sound_of_readArgs (h : d.TypesSound) {params : Params}
    (hp : NameMap.Sound d params) {node : Json} {what : String} {strict : Bool} {args : Args}
    {warnings : List Diagnostic} {d' : Design}
    (read : readArgs params node what strict d = .ok (args, warnings) d') :
    d'.TypesSound ∧ Args.Sound d' args := by
  have alone : NameMap.Sound d.tables params := ⟨hp.consistent, hp.named⟩
  obtain ⟨ps, outline⟩ := exists_outlineParams alone
  have mirrored := mirrors_readArgs h.tables ⟨alone, outline⟩ node what strict
  rw [(local_readArgs params node what strict).apply_eq] at read
  cases ran : readArgs params node what strict d.tables with
  | error e d₁ => rw [ran] at read; cases read
  | ok r e =>
    rw [ran] at read
    cases read
    obtain ⟨_, -, sound, -, ⟨ha, -⟩, -, -⟩ := Mirrors.of_ok mirrored ran
    exact ⟨sound.typesSound.of_tables rfl rfl, ⟨⟨ha.consistent, ha.named⟩, ha.values⟩⟩

/-- Arguments that are read, saved and checked agree. Those that are read bind the parameters in
their order, pass the check, and are saved as members that are read as the same arguments.
Those that pass the check are saved as members that are read as the same values. Nothing is
reported by a reading that fails. So an instance that is read is never refused for its
arguments.

The maps are consistent, as is every map that comes of inserting. Only a module that was written
in place could hold another one. -/
structure ArgumentsAgree (d : Design) : Prop where
  read : ∀ params : Params, NameMap.Sound d params → ∀ node what strict args warnings d',
    readArgs params node what strict d = .ok (args, warnings) d' →
      args.names = params.names ∧ (∀ target, params.check args target d'.names = .ok ()) ∧
      ∃ saved, d'.argsNode? args = some saved ∧
        ∀ what strict, readArgs params saved what strict d' = .ok (args, []) d'
  checked : ∀ params : Params, NameMap.Sound d params → ∀ args : Args, args.Consistent →
    (∀ e ∈ args.toList, e.2.Sound d) → ∀ target, params.check args target d.names = .ok () →
      ∃ saved, d.argsNode? args = some saved ∧ ∀ what strict, ∃ again,
        readArgs params saved what strict d = .ok (again, []) d ∧
        again.names = params.names ∧ ∀ n, again.get? n = args.get? n
  reported : ∀ params node what strict log, reportArgs params node what strict (d, log) =
    match readArgs params node what strict d with
    | .ok (args, warnings) d' => .ok args (d', log.emitAll warnings)
    | .error e d' => .error e (d', log)
  accepted : (∀ id m, d.modules.get? id = some m → m.params.Consistent) →
    ∀ strict owner definition name node, readInstance strict owner definition name node d =
      readInstanceBy Definition.addUnchecked strict owner definition name node d

theorem TypesSound.argumentsAgree (h : d.TypesSound) : d.ArgumentsAgree where
  read params hp node what strict args warnings d' read := by
    obtain ⟨names, fits⟩ := fits_of_readArgs hp.consistent read
    obtain ⟨sound, ha⟩ := h.sound_of_readArgs hp read
    obtain ⟨saved, outlined, again⟩ := sound.readArgs_of_fits hp.consistent ha fits
    refine ⟨names, fun _ => Params.check_eq_ok_iff.2 fits, saved, outlined, fun what strict => ?_⟩
    obtain ⟨args', consistent, names', same, read'⟩ := again what strict
    rw [read', consistent.ext_get? ha.consistent (names'.trans names.symm) same]
  checked params hp args consistent values target ok := by
    have fits := Params.check_eq_ok_iff.1 ok
    have named : ∀ e ∈ args.toList, (d.text? e.1).isSome := fun e he => by
      have declared := ((Params.fits_iff params args).1 fits).2 e.1 (List.mem_map_of_mem he)
      obtain ⟨p, hp', same⟩ := List.mem_map.1 ((hp.consistent.contains_iff e.1).1 declared)
      exact same ▸ hp.named p hp'
    obtain ⟨saved, outlined, again⟩ :=
      h.readArgs_of_fits hp.consistent ⟨⟨consistent, named⟩, values⟩ fits
    refine ⟨saved, outlined, fun what strict => ?_⟩
    obtain ⟨args', -, names, same, read⟩ := again what strict
    exact ⟨args', read, names, same⟩
  reported _ _ _ _ _ := reportArgs_apply ..
  accepted hp := readInstanceBy_addUnchecked (hp _ _)

end Design

/-! ## Designs at work -/

/-- The designs that a load passes through while instances are read into it. -/
inductive Document.Passes (d : Design) : Design → Prop
  | start : Passes d d
  | declared {c : Design} (h : Passes d c) (namespaces : List (String × Json)) :
    Passes d ((declareNamespaces namespaces).left c)
  | instances {c : Design} (h : Passes d c) (strict : Bool) (owner : String) (x : Definition)
      (name : String) (node : Json) : Passes d ((readInstance strict owner x name node).left c)
  | connections {c : Design} (h : Passes d c) (owner : String) (x : Definition) (node : Json) :
    Passes d ((readConnection owner x node).left c)

theorem Document.Passes.typesSound {c : Design} (h : Passes d c) (hd : d.TypesSound) :
    c.TypesSound := by
  induction h with
  | start => exact hd
  | declared _ namespaces ih =>
    exact leads_declareNamespaces (R := Design.KeepsTypes) namespaces _ ih
  | instances _ strict owner x name node ih =>
    exact leads_readInstance (R := Design.KeepsTypes) strict owner x name node _ ih
  | connections _ owner x node ih =>
    exact leads_readConnection (R := Design.KeepsTypes) owner x node _ ih

namespace Session

/-- In every session that makes arrays and records of types that are there, and at every point
of a load into it, the three ways agree. -/
theorem argumentsAgree_of_reachable {s : Session} (reached : s.Reachable TypesInRange) {c : Design}
    (passed : Document.Passes s.design c) : c.ArgumentsAgree :=
  (passed.typesSound reached.typesSound).argumentsAgree

/-- A module with two parameters, in a session that is given handles of nothing as well. -/
def callsWithParams : List Call := [
  .intern "width", .intern "ty", .array ⟨1⟩ 8, .openNamespace "lib",
  .declareModule ⟨0⟩ "cell" ⟨99⟩ [(⟨1⟩, .int), (⟨2⟩, .type)], .declareModule ⟨7⟩ "none" ⟨0⟩ []]

theorem argumentsAgree_with_parameters :
    let c := (Document.declareNamespaces [("more", .null)]).left (start.run callsWithParams).design
    let node := Json.object
      [("ty", .array [.string "Array", .nat 8, .string "BitIn"]), ("width", .nat 4)]
    (match Document.readArgs (.ofList [(⟨1⟩, .int), (⟨2⟩, .type)]) node "cell" true c with
      | .ok (args, warnings) _ => (args.toList, warnings)
      | .error _ _ => ([], [])) = ([(⟨1⟩, .int 4), (⟨2⟩, .type ⟨3⟩)], []) ∧
    c.ArgumentsAgree := by
  intro c node
  have reached : Reachable TypesInRange (start.run callsWithParams) :=
    .run .start (by decide +kernel)
  exact ⟨by decide +kernel, argumentsAgree_of_reachable reached (.declared .start _)⟩

end Session

end Netlist
