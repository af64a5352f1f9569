-- Loads mirror plain readings. A step on a sound design fails with the error of the plain
-- reading, or it succeeds like the plain reading, and what it gives has the outline that
-- the plain reading says. Here is the relation, and what names and texts have in common.
import Netlist.Proofs.Outlines

namespace Netlist

/-! ## Steps that only intern -/

namespace Design

/-- Only names and types came. -/
structure Interns (c d : Design) : Prop where
  grows : c.Grows d
  namespaces : d.namespaces = c.namespaces
  scopes : d.scopes = c.scopes
  modules : d.modules = c.modules
  generators : d.generators = c.generators

variable {b c d : Design}

theorem Interns.refl (d : Design) : d.Interns d := ⟨.refl d, rfl, rfl, rfl, rfl⟩

theorem Interns.trans (h : b.Interns c) (k : c.Interns d) : b.Interns d :=
  ⟨h.grows.trans k.grows, k.namespaces.trans h.namespaces, k.scopes.trans h.scopes,
    k.modules.trans h.modules, k.generators.trans h.generators⟩

theorem Interns.keeps (h : c.Interns d) : c.Keeps d := h.grows.keeps

theorem interns_withName (d : Design) (s : String) : d.Interns (d.withName s) :=
  ⟨d.grows_withName s, rfl, rfl, rfl, rfl⟩

theorem interns_withType (d : Design) (w : WireType) : d.Interns (d.withType w) :=
  ⟨d.grows_withType w, rfl, rfl, rfl, rfl⟩

instance : Trans Interns Interns Interns := ⟨Interns.trans⟩

instance : Trans Interns Grows Grows := ⟨fun h k => h.grows.trans k⟩

instance : Trans Grows Grows Grows := ⟨Grows.trans⟩

end Design

/-! ## The relation -/

variable {ε ε' α β α' β' : Type} {d d' : Design}

/-- A step fails like a plain reading or succeeds like it. Either way it leaves a sound
design behind. If it succeeds, `G` says how the design came from the old one, and `R` relates
the two answers. -/
def Mirrors (G : Design → Design → Prop) (d : Design) (step : Edit ε α) (plain : Except ε β)
    (R : Design → α → β → Prop) : Prop :=
  match plain with
  | .ok b => ∃ a d', step d = .ok a d' ∧ d'.Sound ∧ G d d' ∧ R d' a b
  | .error e => ∃ d', step d = .error (.error e) d' ∧ d'.Sound

namespace Mirrors

open Edit Design

variable {G H : Design → Design → Prop} {step : Edit ε α} {plain : Except ε β}
  {R S : Design → α → β → Prop}

theorem ok {a : α} {b : β} (h : step d = .ok a d') (sound : d'.Sound) (g : G d d')
    (r : R d' a b) : Mirrors G d step (.ok b) R :=
  ⟨a, d', h, sound, g, r⟩

theorem error {e : ε} (h : step d = .error (.error e) d') (sound : d'.Sound) :
    Mirrors G d step (.error e : Except ε β) R :=
  ⟨d', h, sound⟩

theorem pure (sound : d.Sound) {a : α} {b : β} (r : R d a b) (g : G d d) :
    Mirrors G d (pure a : Edit ε α) (pure b) R :=
  .ok rfl sound g r

theorem fail (sound : d.Sound) (e : ε) :
    Mirrors G d (fail e : Edit ε α) (throw e : Except ε β) R :=
  .error rfl sound

/-- A step after another, if both mirror their plain readings. -/
theorem bind [Trans G H H] {R' : Design → α' → β' → Prop} {f : α → Edit ε α'}
    {g : β → Except ε β'} (first : Mirrors G d step plain R)
    (next : ∀ {a b d'}, plain = .ok b → d'.Sound → G d d' → R d' a b →
      Mirrors H d' (f a) (g b) R') :
    Mirrors H d (step >>= f) (plain >>= g) R' := by
  cases plain with
  | error e =>
    obtain ⟨d', h, sound⟩ := first
    exact ⟨d', bind_of_error h, sound⟩
  | ok b =>
    obtain ⟨a, d', h, sound, hg, r⟩ := first
    have second := next rfl sound hg r
    change match g b with
      | .ok b' => ∃ a' d'', (step >>= f) d = .ok a' d'' ∧ d''.Sound ∧ H d d'' ∧ R' d'' a' b'
      | .error e => ∃ d'', (step >>= f) d = .error (.error e) d'' ∧ d''.Sound
    rw [bind_of_ok h]
    unfold Mirrors at second
    split <;> rename_i hb <;> rw [hb] at second
    · obtain ⟨a', d'', h', sound', hh, r'⟩ := second
      exact ⟨a', d'', h', sound', Trans.trans hg hh, r'⟩
    · exact second

/-- A step that succeeds, before steps that mirror a plain reading. -/
theorem after [Trans G H H] {S : Design → α' → β' → Prop} {f : α → Edit ε α'} {a : α}
    {plain : Except ε β'} (h : step d = .ok a d') (g : G d d')
    (next : Mirrors H d' (f a) plain S) : Mirrors H d (step >>= f) plain S := by
  unfold Mirrors at next ⊢
  rw [bind_of_ok h]
  split at next
  · obtain ⟨a', d'', h', sound', hh, r'⟩ := next
    exact ⟨a', d'', h', sound', Trans.trans g hh, r'⟩
  · exact next

/-- A step that only looks at the design, before steps that mirror a plain reading. -/
theorem look {S : Design → α' → β' → Prop} {f : α → Edit ε α'} {a : α} {plain : Except ε β'}
    (h : step d = .ok a d) (next : Mirrors H d (f a) plain S) :
    Mirrors H d (step >>= f) plain S := by
  unfold Mirrors at next ⊢
  rw [bind_of_ok h]
  exact next

theorem mono (h : Mirrors G d step plain R) (hg : ∀ {d'}, G d d' → H d d')
    (hr : ∀ {a b d'}, plain = .ok b → G d d' → R d' a b → S d' a b) :
    Mirrors H d step plain S := by
  cases plain with
  | error e => exact h
  | ok b =>
    obtain ⟨a, d', h, sound, g, r⟩ := h
    exact ⟨a, d', h, sound, hg g, hr rfl g r⟩

/-- A plain reading that goes on with its answer. -/
theorem map {S : Design → α → β' → Prop} {f : β → β'} (h : Mirrors G d step plain R)
    (hs : ∀ {a b d'}, plain = .ok b → d'.Sound → G d d' → R d' a b → S d' a (f b)) :
    Mirrors G d step (do return f (← plain)) S := by
  cases plain with
  | error e => exact h
  | ok b =>
    obtain ⟨a, d', h, sound, g, r⟩ := h
    exact ⟨a, d', h, sound, g, hs rfl sound g r⟩

theorem within (h : Mirrors G d step plain R) (f : ε → ε') :
    Mirrors G d (step.within f) (plain.mapError f) R := by
  cases plain with
  | error e =>
    obtain ⟨d', h, sound⟩ := h
    exact ⟨d', by rw [within_apply, h]; rfl, sound⟩
  | ok b =>
    obtain ⟨a, d', h, sound, g, r⟩ := h
    exact ⟨a, d', within_of_ok h, sound, g, r⟩

/-- A reading that needs no design is its own plain reading. -/
theorem reading (sound : d.Sound) (r : Except ε α) :
    Mirrors Interns d (liftM r : Edit ε α) r fun _ a b => a = b := by
  cases r with
  | error e => exact .error rfl sound
  | ok a => exact .ok rfl sound (.refl d) rfl

/-- What a step that succeeded has from the plain reading that it mirrors. -/
theorem of_ok {d' : Design} {a : α} (h : Mirrors G d step plain R) (ran : step d = .ok a d') :
    ∃ b, plain = .ok b ∧ d'.Sound ∧ G d d' ∧ R d' a b := by
  cases plain with
  | error e =>
    obtain ⟨_, failed, -⟩ := h
    cases ran.symm.trans failed
  | ok b =>
    obtain ⟨_, _, ok, rest⟩ := h
    cases ran.symm.trans ok
    exact ⟨b, rfl, rest⟩

/-- Whether the step succeeds or fails, the design stays sound. -/
theorem sound_left (h : Mirrors G d step plain R) : (step.left d).Sound := by
  cases plain with
  | error e =>
    obtain ⟨d', h, sound⟩ := h
    rw [left_of_error h]
    exact sound
  | ok b =>
    obtain ⟨a, d', h, sound, -⟩ := h
    rw [left_of_ok h]
    exact sound

theorem intern (sound : d.Sound) (s : String) :
    Mirrors Interns d (Edit.intern s : Edit ε Name) (.ok s) fun d' n s => d'.text? n = some s :=
  .ok (intern_apply s d) (sound.withName s) (interns_withName d s) (sound.text_withName s)

end Mirrors

/-! ## Names -/

theorem Design.Sound.text_injective (h : d.Sound) {n k : Name} {s : String}
    (hn : d.text? n = some s) (hk : d.text? k = some s) : n = k :=
  h.names.get?_injective hn hk

/-- Names are equal exactly when their texts are. -/
theorem Design.Sound.text_eq_iff (h : d.Sound) {n k : Name} {s t : String}
    (hn : d.text? n = some s) (hk : d.text? k = some t) : n = k ↔ s = t := by
  constructor
  · rintro rfl
    exact Option.some.inj (hn.symm.trans hk)
  · rintro rfl
    exact h.text_injective hn hk

section

variable {γ δ : Type} [DecidableEq γ] [DecidableEq δ] {R : γ → δ → Prop}

omit [DecidableEq γ] [DecidableEq δ] in
theorem mem_iff_of_forall₂ (unique : ∀ {a b a' b'}, R a b → R a' b' → (a = a' ↔ b = b'))
    {l : List γ} {k : List δ} (h : List.Forall₂ R l k) {a : γ} {b : δ} (hab : R a b) :
    a ∈ l ↔ b ∈ k := by
  induction h with
  | nil => simp
  | cons hr _ ih => rw [List.mem_cons, List.mem_cons, ih, unique hab hr]

omit [DecidableEq γ] [DecidableEq δ] in
theorem eq_iff_of_forall₂ (unique : ∀ {a b a' b'}, R a b → R a' b' → (a = a' ↔ b = b'))
    {l l' : List γ} {k k' : List δ} (h : List.Forall₂ R l k) (h' : List.Forall₂ R l' k') :
    l = l' ↔ k = k' := by
  induction h generalizing l' k' with
  | nil => cases h' <;> simp
  | cons hr _ ih =>
    cases h' with
    | nil => simp
    | cons hr' rest => rw [List.cons.injEq, List.cons.injEq, unique hr hr', ih rest]

omit [DecidableEq γ] [DecidableEq δ] in
/-- Lists that correspond one to one still do when the first of a kind is changed in both. -/
theorem forall₂_updateFirst {sought : γ → Bool} {sought' : δ → Bool} {f : γ → γ} {g : δ → δ}
    {a : γ} {b : δ} {l : List γ} {k : List δ} (h : List.Forall₂ R l k)
    (same : ∀ {a b}, R a b → sought a = sought' b) (changed : ∀ {a b}, R a b → R (f a) (g b))
    (last : R a b) :
    List.Forall₂ R (updateFirst sought f a l) (updateFirst sought' g b k) := by
  induction h with
  | nil => exact .cons last .nil
  | @cons c e _ _ hr rest ih =>
    rw [updateFirst, updateFirst, same hr]
    cases sought' e with
    | true => exact .cons (changed hr) rest
    | false => exact .cons hr ih

/-- Lists of things that correspond one to one repeat at the same places. -/
theorem firstRepeat_of_forall₂ (unique : ∀ {a b a' b'}, R a b → R a' b' → (a = a' ↔ b = b'))
    {l : List γ} {k : List δ} (h : List.Forall₂ R l k) :
    TypeTable.firstRepeat l = none ∧ TypeTable.firstRepeat k = none ∨
      ∃ a b, TypeTable.firstRepeat l = some a ∧ TypeTable.firstRepeat k = some b ∧ R a b := by
  suffices ∀ {seen seen'}, List.Forall₂ R seen seen' →
      TypeTable.firstRepeat.go seen l = none ∧ TypeTable.firstRepeat.go seen' k = none ∨
        ∃ a b, TypeTable.firstRepeat.go seen l = some a ∧
          TypeTable.firstRepeat.go seen' k = some b ∧ R a b from this .nil
  induction h with
  | nil => exact fun _ => Or.inl ⟨rfl, rfl⟩
  | @cons a b _ _ hr _ ih =>
    intro seen seen' hs
    rw [TypeTable.firstRepeat.go, TypeTable.firstRepeat.go]
    have mem := mem_iff_of_forall₂ unique hs hr
    by_cases ha : a ∈ seen
    · rw [if_pos ha, if_pos (mem.1 ha)]
      exact Or.inr ⟨a, b, rfl, rfl, hr⟩
    · rw [if_neg ha, if_neg fun hb => ha (mem.2 hb)]
      exact ih (.cons hr hs)

theorem nodup_iff_of_forall₂ (unique : ∀ {a b a' b'}, R a b → R a' b' → (a = a' ↔ b = b'))
    {l : List γ} {k : List δ} (h : List.Forall₂ R l k) : l.Nodup ↔ k.Nodup := by
  rw [← TypeTable.firstRepeat_eq_none_iff, ← TypeTable.firstRepeat_eq_none_iff]
  rcases firstRepeat_of_forall₂ unique h with ⟨none, none'⟩ | ⟨n, s, some, some', -⟩
  · simp [none, none']
  · simp [some, some']

end

/-! ## Entries by name and by text -/

namespace Design

variable {f : α → Option β} {es : List (Name × α)} {l : List (String × β)}

/-- A name is among the entries if its text is among the outlined ones. -/
theorem Sound.mem_keys_iff (sound : d.Sound) (h : d.outlineEntries? f es = some l) {n : Name}
    {s : String} (text : d.text? n = some s) : n ∈ Assoc.keys es ↔ s ∈ Assoc.keys l := by
  have keys : List.Forall₂ (fun n s => d.text? n = some s) (Assoc.keys es) (Assoc.keys l) :=
    List.forall₂_map_left_iff.2 (List.forall₂_map_right_iff.2
      ((outlineEntries_eq_some_iff.1 h).imp fun _ _ h => h.1))
  exact mem_iff_of_forall₂ (fun hn hk => sound.text_eq_iff hn hk) keys text

/-- A text that has no name is none of the outlined ones. -/
theorem Sound.not_mem_keys (sound : d.Sound) (h : d.outlineEntries? f es = some l) {s : String}
    (unnamed : d.names.find? s = none) : s ∉ Assoc.keys l := by
  intro hs
  obtain ⟨r, hr, rfl⟩ := List.mem_map.1 hs
  obtain ⟨e, -, text, -⟩ := exists_of_forall₂ (outlineEntries_eq_some_iff.1 h).flip hr
  have := (sound.names _ _).2 text
  rw [unnamed] at this
  cases this

theorem Sound.nodup_keys_iff (sound : d.Sound) (h : d.outlineEntries? f es = some l) :
    (Assoc.keys es).Nodup ↔ (Assoc.keys l).Nodup := by
  have keys : List.Forall₂ (fun n s => d.text? n = some s) (Assoc.keys es) (Assoc.keys l) :=
    List.forall₂_map_left_iff.2 (List.forall₂_map_right_iff.2
      ((outlineEntries_eq_some_iff.1 h).imp fun _ _ h => h.1))
  exact nodup_iff_of_forall₂ (fun hn hk => sound.text_eq_iff hn hk) keys

/-- What is found by a name has the outline that is found by its text. -/
theorem Sound.get?_outlineEntries (sound : d.Sound) (h : d.outlineEntries? f es = some l)
    {n : Name} {s : String} (text : d.text? n = some s) :
    Option.Rel (fun a b => f a = some b) (Assoc.get? n es) (Assoc.get? s l) := by
  rw [outlineEntries_eq_some_iff] at h
  induction h with
  | nil => exact .none
  | @cons e r _ _ hr _ ih =>
    rw [Assoc.get?, Assoc.get?]
    by_cases he : e.1 = n
    · rw [if_pos he, if_pos ((sound.text_eq_iff hr.1 text).1 he)]
      exact .some hr.2
    · rw [if_neg he, if_neg fun hs => he ((sound.text_eq_iff hr.1 text).2 hs)]
      exact ih

theorem Sound.outlineEntries_set (sound : d.Sound) (h : d.outlineEntries? f es = some l)
    {n : Name} {s : String} (text : d.text? n = some s) {a : α} {b : β} (hab : f a = some b) :
    d.outlineEntries? f (Assoc.set n a es) = some (Assoc.set s b l) := by
  rw [outlineEntries_eq_some_iff] at h ⊢
  induction h with
  | nil => exact .cons ⟨text, hab⟩ .nil
  | @cons e r _ _ hr _ ih =>
    rw [Assoc.set, Assoc.set]
    by_cases he : e.1 = n
    · rw [if_pos he, if_pos ((sound.text_eq_iff hr.1 text).1 he)]
      exact .cons ⟨hr.1, hab⟩ ‹_›
    · rw [if_neg he, if_neg fun hs => he ((sound.text_eq_iff hr.1 text).2 hs)]
      exact .cons hr ih

theorem outlineEntries_append {es' : List (Name × α)} {l' : List (String × β)}
    (h : d.outlineEntries? f es = some l) (h' : d.outlineEntries? f es' = some l') :
    d.outlineEntries? f (es ++ es') = some (l ++ l') := by
  rw [outlineEntries_eq_some_iff] at h h' ⊢
  exact List.rel_append h h'

theorem outlineEntries_singleton {n : Name} {s : String} (text : d.text? n = some s) {a : α}
    {b : β} (hab : f a = some b) : d.outlineEntries? f [(n, a)] = some [(s, b)] :=
  outlineEntries_eq_some_iff.2 (.cons ⟨text, hab⟩ .nil)

end Design

theorem NameMap.Sound.empty {γ : Type} : NameMap.Sound d (∅ : NameMap γ) :=
  ⟨NameMap.consistent_empty, fun e he => by cases he⟩

theorem NameMap.Sound.insert {γ : Type} {m : NameMap γ} (h : NameMap.Sound d m) {n : Name}
    (text : (d.text? n).isSome) (a : γ) : NameMap.Sound d (m.insert n a).2 := by
  refine ⟨h.consistent.insert n a, fun e he => ?_⟩
  rw [h.consistent.toList_insert] at he
  rcases Assoc.mem_set he with rfl | he
  · exact text
  · exact h.named e he

end Netlist
