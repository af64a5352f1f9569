-- Files that are written over. The way to a file does not lead through the file, so a text
-- that takes the place of another one moves nothing: every path leads where it led, and only
-- what is read at this one place is new.
import Netlist.Files

namespace Netlist.FileTree

variable {t u : FileTree} {place : List String} {path text : String}

/-! ## What is read -/

theorem textAt_eq_ok (h : t.textAt place = .ok text) :
    ∃ content, t.node? place = some (.file content) := by
  rw [textAt] at h
  cases hn : t.node? place with
  | none => rw [hn] at h; cases h
  | some n =>
    rw [hn] at h
    cases n with
    | folder => cases h
    | file content => exact ⟨content, rfl⟩

theorem fromUTF8?_toUTF8 (s : String) : String.fromUTF8? s.toUTF8 = some s := by
  have h : s.toUTF8.IsValidUTF8 := s.isValidUTF8
  rw [String.fromUTF8?, dif_pos h]
  rfl

theorem read_of_file (located : t.locate path = .ok place)
    (there : t.node? place = some (.file text.toUTF8)) : t.read path = .ok text := by
  rw [read, located]
  change t.textAt place = .ok text
  rw [textAt, there]
  simp only [fromUTF8?_toUTF8]

/-- A path that can be read leads to a file. -/
theorem read_eq_ok (h : t.read path = .ok text) : ∃ place content,
    t.locate path = .ok place ∧ t.node? place = some (.file content) := by
  rw [read] at h
  cases hl : t.locate path with
  | error e => rw [hl] at h; cases h
  | ok place =>
    rw [hl] at h
    obtain ⟨content, there⟩ := textAt_eq_ok h
    exact ⟨place, content, rfl, there⟩

/-- A path that ends in a slash leads to folders only. -/
theorem node?_of_walk_slash {start steps : List String}
    (h : t.walk start (steps ++ [""]) = .ok place) : t.node? place = some .folder := by
  induction steps generalizing start with
  | nil =>
    cases hs : t.node? start with
    | none => simp [walk, hs] at h
    | some n =>
      cases n with
      | file _ => simp [walk, hs] at h
      | folder =>
        simp [walk, hs] at h
        rw [← h, hs]
  | cons step rest ih =>
    rw [List.cons_append, walk] at h
    split at h
    · cases h
    · cases h
    · split at h
      · exact ih h
      · split at h
        · exact ih h
        · split at h
          · cases h
          · exact ih h

theorem exists_slash_of_stepsToFolder {steps way : List String}
    (h : stepsToFolder? steps = some way) : ∃ before, steps = before ++ [""] := by
  rw [stepsToFolder?] at h
  split at h
  · rename_i back reversed
    exact ⟨back.reverse, by rw [← List.reverse_reverse steps, reversed, List.reverse_cons]⟩
  · cases h

/-- What can be read can be written over. -/
theorem write_of_read (h : t.read path = .ok text) (new : String) : ∃ place content,
    t.locate path = .ok place ∧ t.node? place = some (.file content) ∧
      t.write path new = .ok (t.put place (.file new.toUTF8)) := by
  obtain ⟨place, content, hl, there⟩ := read_eq_ok h
  refine ⟨place, content, hl, there, ?_⟩
  rw [locate] at hl
  rw [write]
  cases hr : t.route path with
  | error e => rw [hr] at hl; cases hl
  | ok r =>
    obtain ⟨start, steps⟩ := r
    rw [hr] at hl
    change t.walk start steps = .ok place at hl
    have noSlash : stepsToFolder? steps = none := by
      cases hs : stepsToFolder? steps with
      | none => rfl
      | some way =>
        obtain ⟨before, rfl⟩ := exists_slash_of_stepsToFolder hs
        cases there.symm.trans (node?_of_walk_slash hl)
    simp only [Except.bind, noSlash, hl, putText, there]

/-! ## Writing over -/

section

variable {old : ByteArray} (there : t.node? place = some (.file old)) (new : ByteArray)

include there

theorem node?_rewritten (q : List String) : (t.put place (.file new)).node? q =
    if q = place then some (.file new) else t.node? q :=
  node?_put t (by rw [there]; exact fun h => by cases h) _ q

theorem walk_rewritten (start steps : List String) :
    (t.put place (.file new)).walk start steps = t.walk start steps := by
  induction steps generalizing start with
  | nil => rfl
  | cons step rest ih =>
    rw [walk, walk, node?_rewritten there]
    by_cases here : start = place
    · rw [if_pos here, here, there]
    · rw [if_neg here, ih, ih, ih]

/-- Every path leads where it led. -/
theorem locate_rewritten (path : String) :
    (t.put place (.file new)).locate path = t.locate path := by
  have route : (t.put place (.file new)).route path = t.route path := rfl
  rw [locate, locate, route]
  cases t.route path with
  | error e => rfl
  | ok r => exact walk_rewritten there new r.1 r.2

theorem has_rewritten (path : String) : (t.put place (.file new)).has path = t.has path := by
  rw [has, has, locate_rewritten there]
  cases t.locate path with
  | error e => rfl
  | ok q =>
    change (node? _ q).isSome = (t.node? q).isSome
    rw [node?_rewritten there]
    by_cases here : q = place
    · rw [if_pos here, here, there]
      rfl
    · rw [if_neg here]

/-- Elsewhere the same is read. -/
theorem read_rewritten (elsewhere : t.locate path ≠ .ok place) :
    (t.put place (.file new)).read path = t.read path := by
  rw [read, read, locate_rewritten there]
  cases hl : t.locate path with
  | error e => rfl
  | ok q =>
    have other : q ≠ place := fun same => elsewhere (same ▸ hl)
    change textAt _ q = t.textAt q
    rw [textAt, textAt, node?_rewritten there, if_neg other]

/-- Here the new text is read. -/
theorem read_rewritten_self (located : t.locate path = .ok place) (text : String) :
    (t.put place (.file text.toUTF8)).read path = .ok text :=
  read_of_file ((locate_rewritten there _ path).trans located)
    (by rw [node?_rewritten there, if_pos rfl])

end

/-- The last of two texts at one place stays. -/
theorem put_put (t : FileTree) (place : List String) (n k : FileNode) :
    (t.put place n).put place k = t.put place k := by
  unfold put
  rw [List.filter_cons_of_neg (by simp), List.filter_filter]
  simp

end Netlist.FileTree
