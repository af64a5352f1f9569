-- Association lists: entries by key, in the order in which the keys came. Setting a key
-- that is there keeps its position, and a new key comes last.
import Std.Data.ExtTreeMap

namespace Netlist.Assoc

variable {κ α β : Type} [DecidableEq κ]

/-- The value of a key. -/
def get? (key : κ) : List (κ × α) → Option α
  | [] => none
  | (k, a) :: rest => if k = key then some a else get? key rest

/-- Gives a key a value. A key that is there keeps its position, a new one comes last. -/
def set (key : κ) (a : α) : List (κ × α) → List (κ × α)
  | [] => [(key, a)]
  | (k, b) :: rest => if k = key then (k, a) :: rest else (k, b) :: set key a rest

/-- Sets one key after another. -/
def setAll (entries more : List (κ × α)) : List (κ × α) :=
  more.foldl (fun acc e => set e.1 e.2 acc) entries

/-- Changes the values of a key where they stand. -/
def modify (key : κ) (f : α → α) (entries : List (κ × α)) : List (κ × α) :=
  entries.map fun e => if e.1 = key then (e.1, f e.2) else e

/-- The keys of entries. -/
abbrev keys (entries : List (κ × α)) : List κ := entries.map (·.1)

/-! ## Reading -/

@[simp] theorem get?_nil (key : κ) : get? key ([] : List (κ × α)) = none := rfl

theorem mem_of_get? {key : κ} {es : List (κ × α)} {a : α} (h : get? key es = some a) :
    (key, a) ∈ es := by
  induction es with
  | nil => cases h
  | cons e rest ih =>
    obtain ⟨k, b⟩ := e
    rw [get?] at h
    split at h
    · rename_i hk
      cases h
      exact hk ▸ List.mem_cons_self
    · exact List.mem_cons_of_mem _ (ih h)

/-- Where each key stands once, an entry is found by its key. -/
theorem get?_eq_some_iff {key : κ} {es : List (κ × α)} (h : (keys es).Nodup) {a : α} :
    get? key es = some a ↔ (key, a) ∈ es := by
  refine ⟨mem_of_get?, fun hm => ?_⟩
  induction es with
  | nil => cases hm
  | cons e rest ih =>
    obtain ⟨k, b⟩ := e
    rw [keys, List.map_cons, List.nodup_cons] at h
    rw [get?]
    rcases List.mem_cons.1 hm with he | hm
    · cases he
      exact if_pos rfl
    · have hk : k ≠ key := fun hk => h.1 (hk ▸ List.mem_map_of_mem (f := (·.1)) hm)
      rw [if_neg hk, ih h.2 hm]

theorem get?_eq_none_iff {key : κ} {es : List (κ × α)} : get? key es = none ↔ key ∉ keys es := by
  induction es with
  | nil => simp
  | cons e rest ih =>
    obtain ⟨k, b⟩ := e
    rw [get?]
    split
    · rename_i hk
      simp [hk]
    · rename_i hk
      simp [ih, Ne.symm hk]

theorem isSome_get?_iff {key : κ} {es : List (κ × α)} : (get? key es).isSome ↔ key ∈ keys es := by
  rw [Option.isSome_iff_ne_none, ne_eq, get?_eq_none_iff, Decidable.not_not]

/-- Of two lists of entries, the first one that has the key gives the value. -/
theorem get?_append (key : κ) (es more : List (κ × α)) :
    get? key (es ++ more) = (get? key es).or (get? key more) := by
  induction es with
  | nil => rfl
  | cons e rest ih =>
    obtain ⟨k, a⟩ := e
    rw [List.cons_append, get?, get?, ih]
    split <;> rfl

/-- Values that are mapped, each with its key at hand, are found under the same keys. -/
theorem get?_map_with_key (f : κ → α → β) (key : κ) (es : List (κ × α)) :
    get? key (es.map fun e => (e.1, f e.1 e.2)) = (get? key es).map (f key) := by
  induction es with
  | nil => rfl
  | cons e rest ih =>
    obtain ⟨k, a⟩ := e
    rw [List.map_cons, get?, get?, ih]
    split
    · rename_i same
      rw [same, Option.map_some]
    · rfl

theorem get?_map (f : α → β) (key : κ) (es : List (κ × α)) :
    get? key (es.map fun e => (e.1, f e.2)) = (get? key es).map f :=
  get?_map_with_key (fun _ => f) key es

omit [DecidableEq κ] in
theorem keys_map (f : α → β) (es : List (κ × α)) :
    keys (es.map fun e => (e.1, f e.2)) = keys es := by
  rw [keys, List.map_map]
  rfl

/-! ## Setting -/

/-- A key that is set has its new value, and every other key the value from before. -/
theorem get?_set (key : κ) (a : α) (es : List (κ × α)) (k : κ) :
    get? k (set key a es) = if key = k then some a else get? k es := by
  induction es with
  | nil => rfl
  | cons e rest ih =>
    obtain ⟨l, b⟩ := e
    rw [set]
    split
    · rename_i h
      subst h
      simp only [get?]
      split <;> rfl
    · rename_i h
      simp only [get?, ih]
      split
      · rename_i hl
        rw [if_neg fun he => h (hl.trans he.symm)]
      · rfl

/-- The keys stay where they are, and a new one comes last. -/
theorem keys_set (key : κ) (a : α) (es : List (κ × α)) :
    keys (set key a es) = if key ∈ keys es then keys es else keys es ++ [key] := by
  induction es with
  | nil => rfl
  | cons e rest ih =>
    obtain ⟨l, b⟩ := e
    rw [set]
    split
    · rename_i h
      simp [h]
    · rename_i h
      simp only [List.map_cons, ih, List.mem_cons, Ne.symm h, false_or]
      split <;> rfl

theorem nodup_keys_set (key : κ) (a : α) {es : List (κ × α)} (h : (keys es).Nodup) :
    (keys (set key a es)).Nodup := by
  rw [keys_set]
  split
  · exact h
  · rename_i hk
    exact List.nodup_append.2 ⟨h, by simp, fun b hb c hc => by
      rintro rfl
      exact hk (List.mem_singleton.1 hc ▸ hb)⟩

/-- A new key comes last. -/
theorem set_of_not_mem {key : κ} (a : α) {es : List (κ × α)} (h : key ∉ keys es) :
    set key a es = es ++ [(key, a)] := by
  induction es with
  | nil => rfl
  | cons e rest ih =>
    obtain ⟨k, b⟩ := e
    rw [keys, List.map_cons, List.mem_cons, not_or] at h
    rw [set, if_neg (Ne.symm h.1), ih h.2, List.cons_append]

/-- Entries with different keys, set one after another, come one after another. -/
theorem setAll_of_nodup {es more : List (κ × α)} (h : (keys (es ++ more)).Nodup) :
    setAll es more = es ++ more := by
  induction more generalizing es with
  | nil => simp [setAll]
  | cons e rest ih =>
    have fresh : e.1 ∉ keys es := by
      rw [keys, List.map_append, List.map_cons] at h
      intro he
      exact (List.nodup_append.1 h).2.2 _ he _ List.mem_cons_self rfl
    rw [setAll, List.foldl_cons, ← setAll, set_of_not_mem e.2 fresh, ih]
    · simp
    · simpa using h

/-- Entries with the keys of other ones, each with its value there, are these other ones. -/
theorem eq_of_get? {es l : List (κ × α)} (same : keys es = keys l) (nodup : (keys l).Nodup)
    (h : ∀ e ∈ es, get? e.1 l = some e.2) : es = l := by
  induction es generalizing l with
  | nil => exact (List.map_eq_nil_iff.1 same.symm).symm
  | cons e rest ih =>
    cases l with
    | nil => cases same
    | cons f more =>
      obtain ⟨k, a⟩ := e
      obtain ⟨k', b⟩ := f
      obtain ⟨rfl, others⟩ := List.cons.inj same
      obtain ⟨fresh, later⟩ := List.nodup_cons.1 nodup
      have first := h (k, a) List.mem_cons_self
      rw [get?, if_pos rfl] at first
      cases first
      rw [ih others later fun e he => ?_]
      have other : k ≠ e.1 := by
        rintro rfl
        exact fresh (others ▸ List.mem_map.2 ⟨e, he, rfl⟩)
      rw [← h e (List.mem_cons_of_mem _ he), get?, if_neg other]

/-- Of two values set one after another, the last one stays. -/
theorem set_set (key : κ) (a b : α) (es : List (κ × α)) :
    set key b (set key a es) = set key b es := by
  induction es with
  | nil => simp [set]
  | cons e rest ih =>
    obtain ⟨k, c⟩ := e
    rw [set]
    split
    · rename_i hk
      rw [set, set, if_pos hk, if_pos hk]
    · rename_i hk
      rw [set, set, if_neg hk, if_neg hk, ih]

/-- To set a key to the value that it has changes nothing. -/
theorem set_of_get? {key : κ} {a : α} {es : List (κ × α)} (h : get? key es = some a) :
    set key a es = es := by
  induction es with
  | nil => cases h
  | cons e rest ih =>
    obtain ⟨k, c⟩ := e
    rw [get?] at h
    rw [set]
    split at h
    · rename_i hk
      cases h
      rw [if_pos hk]
    · rename_i hk
      rw [if_neg hk, ih h]

theorem mem_set {key : κ} {a : α} {es : List (κ × α)} {e : κ × α} (h : e ∈ set key a es) :
    e = (key, a) ∨ e ∈ es := by
  induction es with
  | nil => exact Or.inl (List.mem_singleton.1 h)
  | cons f rest ih =>
    obtain ⟨k, b⟩ := f
    rw [set] at h
    split at h
    · rename_i hk
      rcases List.mem_cons.1 h with rfl | h
      · exact Or.inl (hk ▸ rfl)
      · exact Or.inr (List.mem_cons_of_mem _ h)
    · rcases List.mem_cons.1 h with rfl | h
      · exact Or.inr List.mem_cons_self
      · rcases ih h with rfl | h
        · exact Or.inl rfl
        · exact Or.inr (List.mem_cons_of_mem _ h)

theorem mem_setAll {es more : List (κ × α)} {e : κ × α} (h : e ∈ setAll es more) :
    e ∈ es ∨ e ∈ more := by
  induction more generalizing es with
  | nil => exact Or.inl h
  | cons f rest ih =>
    rcases ih h with h | h
    · rcases mem_set h with rfl | h
      · exact Or.inr List.mem_cons_self
      · exact Or.inl h
    · exact Or.inr (List.mem_cons_of_mem _ h)

/-! ## Changing in place -/

@[simp] theorem keys_modify (key : κ) (f : α → α) (es : List (κ × α)) :
    keys (modify key f es) = keys es := by
  rw [keys, modify, List.map_map]
  refine List.map_congr_left fun e _ => ?_
  dsimp only [Function.comp]
  split <;> rfl

theorem get?_modify (key : κ) (f : α → α) (es : List (κ × α)) (k : κ) :
    get? k (modify key f es) = if key = k then (get? k es).map f else get? k es := by
  induction es with
  | nil => simp [modify]
  | cons e rest ih =>
    obtain ⟨l, b⟩ := e
    rw [modify] at ih ⊢
    rw [List.map_cons]
    by_cases hl : l = key
    · subst hl
      rw [if_pos rfl, get?, get?, ih]
      split <;> rfl
    · rw [if_neg hl, get?, get?, ih]
      split
      · rename_i hk
        rw [if_neg fun h => hl (hk.trans h.symm)]
      · rfl

theorem modify_cons (key : κ) (f : α → α) (e : κ × α) (es : List (κ × α)) :
    modify key f (e :: es) = (if e.1 = key then (e.1, f e.2) else e) :: modify key f es := rfl

theorem modify_append (key : κ) (f : α → α) (es more : List (κ × α)) :
    modify key f (es ++ more) = modify key f es ++ modify key f more := List.map_append

theorem modify_id (key : κ) (es : List (κ × α)) : modify key (fun a => a) es = es := by
  simp [modify]

theorem modify_modify (key : κ) (f g : α → α) (es : List (κ × α)) :
    modify key g (modify key f es) = modify key (fun a => g (f a)) es := by
  induction es with
  | nil => rfl
  | cons e rest ih =>
    rw [modify_cons, modify_cons, modify_cons, ih]
    by_cases hk : e.1 = key
    · simp only [if_pos hk]
    · simp only [if_neg hk]

/-- A key that is not there has no value to be changed. -/
theorem modify_of_not_mem {key : κ} (f : α → α) {es : List (κ × α)} (h : key ∉ keys es) :
    modify key f es = es := by
  refine (List.map_congr_left fun e he => ?_).trans (List.map_id _)
  have hk : e.1 ≠ key := fun hk => h (hk ▸ List.mem_map_of_mem (f := (·.1)) he)
  exact if_neg hk

/-- Where each key stands once, to set one that is there is to change its value. -/
theorem set_eq_modify {key : κ} (a : α) {es : List (κ × α)} (nodup : (keys es).Nodup)
    (h : key ∈ keys es) : set key a es = modify key (fun _ => a) es := by
  induction es with
  | nil => cases h
  | cons e rest ih =>
    obtain ⟨k, b⟩ := e
    rw [keys, List.map_cons, List.nodup_cons] at nodup
    have step : modify key (fun _ => a) ((k, b) :: rest) =
        (if k = key then (k, a) else (k, b)) :: modify key (fun _ => a) rest := rfl
    rw [set, step]
    split
    · rename_i hk
      subst hk
      rw [modify_of_not_mem _ nodup.1]
    · rename_i hk
      rw [ih nodup.2 ((List.mem_cons.1 h).resolve_left (Ne.symm hk))]

/-- A value that was just set is changed. -/
theorem modify_set {key : κ} (f : α → α) (a : α) {es : List (κ × α)} (nodup : (keys es).Nodup) :
    modify key f (set key a es) = set key (f a) es := by
  have there : key ∈ keys (set key a es) := isSome_get?_iff.1 (by rw [get?_set, if_pos rfl]; rfl)
  have nodup' := nodup_keys_set key a nodup
  rw [← set_set key a (f a) es, set_eq_modify _ nodup' there]
  refine List.map_congr_left fun e he => ?_
  split
  · rename_i hk
    obtain ⟨k, b⟩ := e
    obtain rfl : k = key := hk
    have same := (get?_eq_some_iff nodup').2 he
    rw [get?_set, if_pos rfl] at same
    cases same
    rfl
  · rfl

theorem modify_set_of_ne {key k : κ} (f : α → α) (a : α) (es : List (κ × α)) (h : key ≠ k) :
    modify key f (set k a es) = set k a (modify key f es) := by
  induction es with
  | nil =>
    rw [set, modify_cons, if_neg (Ne.symm h)]
    rfl
  | cons e rest ih =>
    obtain ⟨l, b⟩ := e
    rw [set, modify_cons]
    by_cases hl : l = k
    · subst hl
      rw [if_pos rfl, modify_cons, if_neg (Ne.symm h), if_neg (Ne.symm h), set, if_pos rfl]
    · rw [if_neg hl, modify_cons, ih]
      dsimp only
      split <;> rw [set, if_neg hl]

end Netlist.Assoc
