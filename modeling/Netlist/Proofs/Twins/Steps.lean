-- Steps side by side. A step that is run on twins, with things that are taken for each other,
-- succeeds in both or fails in both with one error, and leaves twins behind. Names with one
-- text keep it, so what was read before stays good for the steps after it.
import Netlist.Proofs.Drafts
import Netlist.Proofs.Twins.Basic

namespace Netlist

open Design

/-! ## The relation -/

/-- Answers that are both errors, and the same one, or both results, and related. -/
inductive SameResult {ε α : Type} (R : α → α → Prop) : Except ε α → Except ε α → Prop
  | ok {a b : α} (same : R a b) : SameResult R (.ok a) (.ok b)
  | error (e : ε) : SameResult R (.error e) (.error e)

variable {ε ε' α β : Type}

/-- Two steps on two designs that end alike and leave twins. If they succeed, `R` relates their
answers by the renaming of what they leave. -/
inductive Parallel (c d : Design) (x y : Edit ε α) (R : Renaming → α → α → Prop) : Prop
  | ok {a b : α} {c' d' : Design} (left : x c = .ok a c') (right : y d = .ok b d')
    (twins : c'.Twins d') (more : c.spelled d ≤ c'.spelled d') (same : R (c'.spelled d') a b)
  | error {e : Failure ε} {c' d' : Design} (left : x c = .error e c') (right : y d = .error e d')
    (twins : c'.Twins d') (more : c.spelled d ≤ c'.spelled d')

/-- Answers that are the same. -/
abbrev Renaming.Equal (_ : Renaming) (a b : α) : Prop := a = b

namespace Parallel

open Edit

variable {c d : Design} {x y : Edit ε α} {R : Renaming → α → α → Prop}

theorem pure (h : c.Twins d) {a b : α} (same : R (c.spelled d) a b) :
    Parallel c d (pure a : Edit ε α) (pure b) R :=
  .ok rfl rfl h (Renaming.le_refl _) same

theorem fail (h : c.Twins d) (e : ε) :
    Parallel c d (fail e) (fail e) R :=
  .error rfl rfl h (Renaming.le_refl _)

/-- Steps after others, if both are alike. -/
theorem bind {f g : α → Edit ε β} {S : Renaming → β → β → Prop} (first : Parallel c d x y R)
    (next : ∀ {a b c' d'}, c'.Twins d' → c.spelled d ≤ c'.spelled d' → R (c'.spelled d') a b →
      Parallel c' d' (f a) (g b) S) :
    Parallel c d (x >>= f) (y >>= g) S := by
  cases first with
  | error left right twins more => exact .error (bind_of_error left) (bind_of_error right) twins more
  | ok left right twins more same =>
    cases next twins more same with
    | ok left' right' twins' more' same' =>
      exact .ok ((bind_of_ok left).trans left') ((bind_of_ok right).trans right') twins'
        (Renaming.le_trans more more') same'
    | error left' right' twins' more' =>
      exact .error ((bind_of_ok left).trans left') ((bind_of_ok right).trans right') twins'
        (Renaming.le_trans more more')

theorem within (h : Parallel c d x y R) (f : ε → ε') :
    Parallel c d (x.within f) (y.within f) R := by
  cases h with
  | ok left right twins more same =>
    exact .ok (within_of_ok left) (within_of_ok right) twins more same
  | error left right twins more =>
    exact .error (by rw [within_apply, left]) (by rw [within_apply, right]) twins more

/-- Steps after others that answer the same. -/
theorem bind_eq {f g : α → Edit ε β} {S : Renaming → β → β → Prop}
    (first : Parallel c d x y Renaming.Equal)
    (next : ∀ {a c' d'}, c'.Twins d' → c.spelled d ≤ c'.spelled d' →
      Parallel c' d' (f a) (g a) S) :
    Parallel c d (x >>= f) (y >>= g) S :=
  first.bind fun h more same => by
    cases same
    exact next h more

section

variable {γ : Type} {f : α → Edit ε β} {S : Renaming → β → β → Prop}

/-- Steps that only look at the designs, before steps that are alike. -/
theorem look {x : Edit ε α} {y : Edit ε γ} {g : γ → Edit ε β} {a : α} {b : γ}
    (left : x c = .ok a c) (right : y d = .ok b d) (next : Parallel c d (f a) (g b) S) :
    Parallel c d (x >>= f) (y >>= g) S := by
  cases next with
  | ok left' right' twins more same =>
    exact .ok ((bind_of_ok left).trans left') ((bind_of_ok right).trans right') twins more same
  | error left' right' twins more =>
    exact .error ((bind_of_ok left).trans left') ((bind_of_ok right).trans right') twins more

/-- A look at what both have or both lack. -/
theorem live_bind {read : Design → Option α} {read' : Design → Option γ} {g : γ → Edit ε β}
    {R : α → γ → Prop} (h : c.Twins d) (same : Option.Rel R (read c) (read' d))
    (next : ∀ {a b}, R a b → Parallel c d (f a) (g b) S) :
    Parallel c d (live read >>= f) (live read' >>= g) S := by
  rcases rel_cases same with ⟨none, none'⟩ | ⟨a, b, some, some', same⟩
  · exact .error (bind_of_error (by rw [live_apply, none])) (bind_of_error (by rw [live_apply, none']))
      h (Renaming.le_refl _)
  · exact look (live_of_some some) (live_of_some some') (next same)

variable {g : α → Edit ε β}

theorem live_bind_eq {read : Design → Option α} (h : c.Twins d) (same : read c = read d)
    (next : ∀ {a}, Parallel c d (f a) (g a) S) :
    Parallel c d (live read >>= f) (live read >>= g) S := by
  refine live_bind (R := Eq) h ?_ fun same => same ▸ next
  rw [same]
  cases read d with
  | none => exact .none
  | some a => exact .some rfl

/-- A reading that needs no design. -/
theorem reading_bind (h : c.Twins d) (r : Except ε α)
    (next : ∀ {a}, r = .ok a → Parallel c d (f a) (g a) S) :
    Parallel c d ((liftM r : Edit ε α) >>= f) ((liftM r : Edit ε α) >>= g) S := by
  cases r with
  | ok a => exact look rfl rfl (next rfl)
  | error e => exact .error rfl rfl h (Renaming.le_refl _)

/-- A check that both pass or both fail. -/
theorem check_bind {test test' : Design → Except (Failure ε) α} (h : c.Twins d)
    (same : test c = test' d) (next : ∀ {a}, Parallel c d (f a) (g a) S) :
    Parallel c d (check test >>= f) (check test' >>= g) S := by
  cases ran : test' d with
  | ok a => exact look (by rw [check_apply, same, ran]) (by rw [check_apply, ran]) next
  | error e =>
    exact .error (bind_of_error (by rw [check_apply, same, ran]))
      (bind_of_error (by rw [check_apply, ran])) h (Renaming.le_refl _)

end

theorem check {f g : Design → Except (Failure ε) α} (h : c.Twins d)
    (same : SameResult (R (c.spelled d)) (f c) (g d)) :
    Parallel c d (check f) (check g) R := by
  generalize hx : f c = x at same
  generalize hy : g d = y at same
  cases same with
  | ok same =>
    exact .ok (by rw [check_apply, hx]) (by rw [check_apply, hy]) h (Renaming.le_refl _) same
  | error e => exact .error (by rw [check_apply, hx]) (by rw [check_apply, hy]) h (Renaming.le_refl _)

theorem failWith {f g : Design → Option ε} (h : c.Twins d) (same : f c = g d) :
    Parallel c d (failWith f : Edit ε α) (failWith g) R :=
  .error (failWith_apply f c) (by rw [failWith_apply, same]) h (Renaming.le_refl _)

/-! ## Names and types -/

theorem intern (h : c.Twins d) (s : String) :
    Parallel c d (intern s : Edit ε Name) (intern s) fun r => r.takes :=
  .ok (intern_apply s c) (intern_apply s d) (h.withName s) (Twins.le_withName c d s)
    (h.takes_intern s)

/-- Words are interned as names that are taken for each other one by one. -/
theorem internAll (words : List String) : ∀ {c d : Design}, c.Twins d →
    Parallel c d (internAll words : Edit ε (List Name)) (Edit.internAll words)
      fun r => List.Forall₂ r.takes := by
  induction words with
  | nil => exact fun h => .pure h .nil
  | cons s rest ih =>
    intro c d h
    exact (intern h s).bind fun h' _ first => (ih h').bind fun h'' more others =>
      .pure h'' (.cons (more first) others)

theorem array (h : c.Twins d) (element : TypeId) (length : Nat) :
    Parallel c d (array element length : Edit ε TypeId) (array element length) Renaming.Equal := by
  have same : (c.spelled d).SameType (.array element length) (.array element length) :=
    .array rfl length
  refine .ok (array_apply ..) (array_apply ..) (h.withType same) (Renaming.le_refl _) ?_
  exact h.intern_type same

/-- A field that comes twice in one record comes twice in the other. -/
theorem record (h : c.Twins d) (fields : List (String × TypeId)) :
    Parallel c d (record fields) (record fields) Renaming.Equal := by
  refine (internAll _ h).bind fun {names names' c' d'} h' _ same => ?_
  have entries : (c'.spelled d').SameEntries (c'.spelled d').takes (names.zip (fields.map (·.2)))
      (names'.zip (fields.map (·.2))) := .zip same fun _ _ => rfl
  have keys : List.Forall₂ (c'.spelled d').takes ((names.zip (fields.map (·.2))).map (·.1))
      ((names'.zip (fields.map (·.2))).map (·.1)) :=
    List.forall₂_map_left_iff.2 (List.forall₂_map_right_iff.2 (entries.imp fun _ _ here => here.1))
  rcases firstRepeat_of_forall₂ (Renaming.name_eq_iff h'.once) keys with
    ⟨none, none'⟩ | ⟨n, k, some, some', twice⟩
  · refine .ok ?_ ?_ (h'.withType (.record entries)) (Renaming.le_refl _)
      (h'.intern_type (.record entries))
    · rw [bind_of_ok (get_apply c'), TypeTable.record, none]
      rfl
    · rw [bind_of_ok (get_apply d'), TypeTable.record, none']
      rfl
  · refine .error (e := .ofOption ((c'.text? n).map .duplicateField)) ?_ ?_ h' (Renaming.le_refl _)
    · rw [bind_of_ok (get_apply c'), TypeTable.record, some]
      rfl
    · rw [bind_of_ok (get_apply d'), TypeTable.record, some', Twins.text twice]
      rfl

/-! ## Declarations -/

theorem openNamespace (h : c.Twins d) (name : String) :
    Parallel c d (openNamespace name : Edit ε NamespaceId) (openNamespace name)
      Renaming.Equal := by
  have h' := h.withName name
  have same := h'.scope_eq (h.takes_intern name)
  have more := Twins.le_withName c d name
  cases found : (d.withName name).scopes[(d.names.intern name).1]? with
  | some id =>
    exact .ok (by rw [openNamespace_apply, same, found]) (by rw [openNamespace_apply, found]) h'
      more rfl
  | none =>
    refine .ok (a := c.namespaces.nextId) (b := d.namespaces.nextId) ?_ ?_
      (h'.addNamespace (h.takes_intern name) (same.trans found)) more
      (congrArg Handle.mk (Table.size_eq_of_rel h.namespaces))
    · rw [openNamespace_apply, same, found]
    · rw [openNamespace_apply, found]

/-- A name is free in both or in neither. -/
theorem requireFree (h : c.Twins d) (scope : NamespaceId) {n k : Name}
    (same : (c.spelled d).takes n k) :
    Parallel c d (requireFree scope n) (requireFree scope k) Renaming.Equal := by
  refine live_bind h (h.namespaces scope) fun {ns ns'} agree => ?_
  rw [h.hasSymbol agree same]
  split
  · exact .failWith h (by rw [Twins.text agree.name, Twins.text same])
  · exact .pure h rfl

theorem declareModule (h : c.Twins d) (scope : NamespaceId) (name : String) (type : TypeId)
    {params params' : Params} (same : (c.spelled d).TwinParams params params') :
    Parallel c d (declareModule scope name type params) (declareModule scope name type params')
      Renaming.Equal :=
  (intern h name).bind fun h₁ more names => (requireFree h₁ scope names).bind_eq fun h₂ more' =>
    .ok rfl rfl
      (h₂.addModule scope (more' names) type ((same.mono more).mono more') ∅)
      (Renaming.le_refl _) (congrArg Handle.mk (Table.size_eq_of_rel h₂.modules))

theorem declareGenerator (h : c.Twins d) (scope : NamespaceId) (name : String)
    {genparams genparams' params params' : Params}
    (genparams_same : (c.spelled d).TwinParams genparams genparams')
    (params_same : (c.spelled d).TwinParams params params') :
    Parallel c d (declareGenerator scope name genparams params)
      (declareGenerator scope name genparams' params') Renaming.Equal :=
  (intern h name).bind fun h₁ more names => (requireFree h₁ scope names).bind_eq fun h₂ more' =>
    .ok rfl rfl
      (h₂.addGenerator scope (more' names) ((genparams_same.mono more).mono more')
        ((params_same.mono more).mono more') ∅)
      (Renaming.le_refl _) (congrArg Handle.mk (Table.size_eq_of_rel h₂.generators))

theorem setModuleMetadata (h : c.Twins d) (id : ModuleId) (metadata : Metadata) :
    Parallel c d (setModuleMetadata id metadata : Edit ε Unit) (setModuleMetadata id metadata)
      Renaming.Equal :=
  live_bind h (h.modules id) fun _ =>
    .ok rfl rfl (h.annotateModule id metadata) (Renaming.le_refl _) rfl

theorem setGeneratorMetadata (h : c.Twins d) (id : GeneratorId) (metadata : Metadata) :
    Parallel c d (setGeneratorMetadata id metadata : Edit ε Unit)
      (setGeneratorMetadata id metadata) Renaming.Equal :=
  live_bind h (h.generators id) fun _ =>
    .ok rfl rfl (h.annotateGenerator id metadata) (Renaming.le_refl _) rfl

/-! ## Symbols -/

theorem resolve (h : c.Twins d) (scope name : String) :
    Parallel c d (resolve scope name) (resolve scope name) Renaming.Equal := by
  refine live_bind_eq h (h.lookup scope name) fun {t} => ?_
  cases t with
  | none => exact .fail h _
  | some t => exact .pure h rfl

theorem resolveModule (h : c.Twins d) (scope name : String) :
    Parallel c d (resolveModule scope name) (resolveModule scope name) Renaming.Equal := by
  refine (resolve h scope name).bind_eq fun {t c' d'} h' _ => ?_
  cases t with
  | module id => exact .pure h' rfl
  | generator id => exact .failWith h' (by rw [h'.qualifiedName])

end Parallel

/-! ## Definitions -/

/-- The definitions are the same, and their instances can be looked up. -/
structure Renaming.TwinDefinition (r : Renaming) (x y : Definition) : Prop extends
    r.SameDefinition x y where
  instances_map : r.SameMap r.SameInstance x.instances y.instances

theorem Renaming.TwinDefinition.mono {r q : Renaming} (h : r ≤ q) {x y : Definition}
    (same : r.TwinDefinition x y) : q.TwinDefinition x y :=
  { same.toSameDefinition.mono h with
    instances_map := same.instances_map.mono h fun same => same.mono h }

theorem Renaming.TwinDefinition.annotate {r : Renaming}
    (once : Relator.BiUnique (r.takes (e := .name))) {x y : Definition}
    (same : r.TwinDefinition x y) {n k : Name} (names : r.takes n k) (metadata : Metadata) :
    r.TwinDefinition (x.annotate n metadata) (y.annotate k metadata) := by
  have map := same.instances_map.modify once names (f := fun i => { i with metadata })
    (g := fun i => { i with metadata }) fun agree => { agree with metadata := rfl }
  exact { same with instances := map.entries, instances_map := map }

theorem Renaming.TwinDefinition.annotateConnection {r : Renaming} {x y : Definition}
    (same : r.TwinDefinition x y) (i : Nat) (metadata : Metadata) :
    r.TwinDefinition (x.annotateConnection i metadata) (y.annotateConnection i metadata) :=
  { same with
    connections := by
      rw [Definition.annotateConnection, Definition.annotateConnection, Array.toList_modify,
        Array.toList_modify]
      exact forall₂_modify same.connections i fun agree => { agree with metadata := rfl } }

namespace Design.Twins

variable {c d : Design} (h : c.Twins d)
include h

omit h in
theorem empty_definition (owner : ModuleId) :
    (c.spelled d).TwinDefinition (.empty owner) (.empty owner) where
  owner := rfl
  instances := .nil
  connections := .nil
  implementations := rfl
  metadata := rfl
  instances_map := .empty

theorem checkEnd {x y : Definition} (same : (c.spelled d).TwinDefinition x y) {p q : WirePath}
    (paths : (c.spelled d).SamePath p q) : x.checkEnd c p = y.checkEnd d q := by
  cases paths with
  | cons root _ =>
    have self := Renaming.name_eq_iff h.once root h.self
    rw [Definition.checkEnd, Definition.checkEnd, text root,
      same.instances_map.contains h.once root, show x.owner = y.owner from same.owner,
      h.qualifiedName]
    simp only [self]

theorem path_eq_iff {p q p' q' : WirePath} (same : (c.spelled d).SamePath p q)
    (same' : (c.spelled d).SamePath p' q') : p = p' ↔ q = q' := by
  have words := eq_iff_of_forall₂ (Renaming.name_eq_iff h.once) same same'
  rw [List.cons.injEq, List.cons.injEq] at words
  cases p
  cases q
  cases p'
  cases q'
  rw [WirePath.mk.injEq, WirePath.mk.injEq, words]

theorem links {x y : Connection} (same : (c.spelled d).SameConnection x y) {a b a' b' : WirePath}
    (first : (c.spelled d).SamePath a a') (second : (c.spelled d).SamePath b b') :
    x.links a b = y.links a' b' := by
  rw [Bool.eq_iff_iff]
  simp only [Connection.links, Bool.or_eq_true, Bool.and_eq_true, beq_iff_eq,
    h.path_eq_iff same.first first, h.path_eq_iff same.first second,
    h.path_eq_iff same.second first, h.path_eq_iff same.second second]

/-- A link is put in both at one position. -/
theorem linked {xs ys : Array Connection}
    (same : List.Forall₂ (c.spelled d).SameConnection xs.toList ys.toList) {a b a' b' : WirePath}
    (first : (c.spelled d).SamePath a a') (second : (c.spelled d).SamePath b b')
    (metadata : Metadata) :
    List.Forall₂ (c.spelled d).SameConnection (Definition.linked xs a b metadata).1.toList
        (Definition.linked ys a' b' metadata).1.toList ∧
      (Definition.linked xs a b metadata).2 = (Definition.linked ys a' b' metadata).2 := by
  constructor
  · rw [Definition.toList_linked, Definition.toList_linked]
    exact forall₂_updateFirst same (fun agree => h.links agree first second)
      (fun agree => { agree with metadata := by rw [agree.metadata] }) ⟨first, second, rfl⟩
  · have found := findIdx?_eq_of_forall₂ (same.imp fun _ _ agree => h.links agree first second)
    have size : xs.size = ys.size := same.length_eq
    obtain ⟨xs⟩ := xs
    obtain ⟨ys⟩ := ys
    rw [Definition.linked, Definition.linked, List.findIdx?_toArray, List.findIdx?_toArray, found]
    cases ys.findIdx? (·.links a' b') with
    | none => exact size
    | some i => rfl

theorem connect {x y : Definition} (same : (c.spelled d).TwinDefinition x y)
    {a b a' b' : WirePath} (first : (c.spelled d).SamePath a a')
    (second : (c.spelled d).SamePath b b') (metadata : Metadata) :
    SameResult (fun r r' => (c.spelled d).TwinDefinition r.1 r'.1 ∧
        (c.spelled d).SameConnection r.2 r'.2)
      (x.connect c a b metadata) (y.connect d a' b' metadata) := by
  obtain ⟨connections, position⟩ := h.linked same.connections first second metadata
  rw [Definition.connect, Definition.connect, h.checkEnd same first, h.checkEnd same second]
  cases y.checkEnd d a' with
  | error e => exact .error e
  | ok _ =>
    cases y.checkEnd d b' with
    | error e => exact .error e
    | ok _ =>
      generalize Definition.linked x.connections a b metadata = l at *
      generalize Definition.linked y.connections a' b' metadata = k at *
      obtain ⟨xs, i⟩ := l
      obtain ⟨ys, j⟩ := k
      cases position
      refine .ok ⟨{ same with connections }, getD_of_rel ?_ ⟨first, second, rfl⟩⟩
      rw [← Array.getElem?_toList, ← Array.getElem?_toList]
      exact rel_getElem? connections i

/-- Arguments are accepted by both or refused with one error. -/
theorem check {params params' : Params} (params_same : (c.spelled d).TwinParams params params')
    {args args' : Args} (args_same : (c.spelled d).TwinArgs args args')
    (target : String) :
    params.check args target c.names = params'.check args' target d.names := by
  rw [Params.check, Params.check]
  rcases rel_cases (Renaming.sameMismatch h.once params_same args_same) with
    ⟨fits, fits'⟩ | ⟨m, m', wrong, wrong', same⟩
  · rw [fits, fits']
  · have text : ∀ {n k : Name}, (c.spelled d).takes n k → c.names.text? n = d.names.text? k := text
    rw [wrong, wrong']
    cases same with
    | missing same => simp only [Params.Mismatch.toError?, text same]
    | wrongKind same expected found => simp only [Params.Mismatch.toError?, text same]
    | unexpected same => simp only [Params.Mismatch.toError?, text same]

end Design.Twins

namespace Parallel

open Edit

variable {c d : Design}

/-- A definition, and the instance that came to it. -/
abbrev Added (r : Renaming) (a b : Definition × Instance) : Prop :=
  r.TwinDefinition a.1 b.1 ∧ r.SameInstance a.2 b.2

theorem insertInstance (h : c.Twins d) {x y : Definition}
    (same : (c.spelled d).TwinDefinition x y) {i j : Instance}
    (inst : (c.spelled d).SameInstance i j) :
    Parallel c d (x.insertInstance i) (y.insertInstance j) Added := by
  have self := Renaming.name_eq_iff h.once inst.name h.self
  unfold Definition.insertInstance
  by_cases reserved : i.name = selfName
  · rw [if_pos reserved, if_pos (self.1 reserved)]
    exact .fail h _
  · rw [if_neg reserved, if_neg fun he => reserved (self.2 he)]
    rcases rel_cases (same.instances_map.tryInsert h.once inst.name inst) with
      ⟨taken, taken'⟩ | ⟨m, m', added, added', map⟩
    · rw [taken, taken']
      refine .failWith h ?_
      rw [show x.owner = y.owner from same.owner, h.qualifiedName, Twins.text inst.name]
    · rw [added, added']
      exact .pure h ⟨{ same with instances := map.entries, instances_map := map }, inst⟩

theorem addInstance (h : c.Twins d) {x y : Definition} (same : (c.spelled d).TwinDefinition x y)
    (name : String) (id : ModuleId) {config config' : Args}
    (args : (c.spelled d).TwinArgs config config') :
    Parallel c d (x.addInstance name id config) (y.addInstance name id config') Added := by
  refine live_bind h (h.modules id) fun {m m'} agree =>
    live_bind_eq h (h.qualifiedName _) fun {label} =>
    check_bind h (h.check agree.params_map args label) fun {_} =>
    (intern h name).bind fun {n k c' d'} h' more names => ?_
  exact insertInstance h' (same.mono more)
    ⟨names, Twins.sameTarget _, (args.mono more).entries, .none, rfl⟩

theorem addGeneratorInstance (h : c.Twins d) {x y : Definition}
    (same : (c.spelled d).TwinDefinition x y) (name : String) (id : GeneratorId)
    {genargs genargs' config config' : Args}
    (gen : (c.spelled d).TwinArgs genargs genargs')
    (args : (c.spelled d).TwinArgs config config') :
    Parallel c d (x.addGeneratorInstance name id genargs config)
      (y.addGeneratorInstance name id genargs' config') Added := by
  refine live_bind_eq h (h.qualifiedName _) fun {label} =>
    live_bind h (h.generators id) fun {m m'} agree =>
    check_bind h (h.check agree.genparams_map gen label) fun {_} =>
    check_bind h (h.check agree.params_map args label) fun {_} =>
    (intern h name).bind fun {n k c' d'} h' more names => ?_
  exact insertInstance h' (same.mono more)
    ⟨names, Twins.sameTarget _, (args.mono more).entries, .some (gen.mono more).entries, rfl⟩

/-- A definition, and the connection that came to it or was there. -/
abbrev Connected (r : Renaming) (a b : Definition × Connection) : Prop :=
  r.TwinDefinition a.1 b.1 ∧ r.SameConnection a.2 b.2

theorem connect (h : c.Twins d) {x y : Definition} (same : (c.spelled d).TwinDefinition x y)
    {a b a' b' : WirePath} (first : (c.spelled d).SamePath a a')
    (second : (c.spelled d).SamePath b b') (metadata : Metadata) :
    Parallel c d (Edit.check fun d => x.connect d a b metadata)
      (Edit.check fun d => y.connect d a' b' metadata) Connected :=
  check h (h.connect same first second metadata)

theorem attach (h : c.Twins d) {x y : Definition} (same : (c.spelled d).SameDefinition x y) :
    Parallel c d (attach x) (attach y) Renaming.Equal := by
  unfold Edit.attach
  rw [show x.owner = y.owner from same.owner]
  refine live_bind h (h.modules y.owner) fun {m m'} agree => ?_
  rw [isSome_eq_of_rel agree.definition]
  split
  · exact .failWith h (by rw [h.qualifiedName])
  · exact .ok rfl rfl (h.define y.owner same) (Renaming.le_refl _) rfl

end Parallel

end Netlist
