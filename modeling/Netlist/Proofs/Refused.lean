-- Texts that give no settings. A line of TOML never begins with a brace, so the text of an
-- object is not TOML, and no file holds both a design and its settings.
import Netlist.Json.Token
import Netlist.Settings

namespace Netlist

namespace Toml

/-! ## Lines -/

/-- No key begins with a brace or a return. -/
theorem assignment?_eq_none {c : Char} (hc : c = '{' ∨ c = '\r') (fuel depth : Nat)
    (rest : List Char) : assignment? fuel depth (c :: rest) = none := by
  have part : keyPart? (c :: rest) = none := by
    rcases hc with rfl | rfl <;> rfl
  have blank : skipBlanks (c :: rest) = c :: rest := by
    rcases hc with rfl | rfl <;> rfl
  have key : key? (c :: rest) = none := by
    rw [key?, keyLimit, keyOf?, blank, part]
    rfl
  cases fuel with
  | zero => rw [assignment?]
  | succ fuel =>
    rw [assignment?, key]
    rfl

theorem line?_blank {c : Char} (hc : isBlank c = true) (cs : List Char) :
    line? (c :: cs) = line? cs := by
  have skipped : skipBlanks (c :: cs) = skipBlanks cs := List.dropWhile_cons_of_pos hc
  unfold line?
  rw [skipped]

/-- A line that opens no table either says nothing or has to assign. -/
theorem line?_plain {c : Char} (hc : c = '\n' ∨ c = '\r' ∨ c = '{') (cs : List Char) :
    (∀ after, newline? (c :: cs) = some after → line? (c :: cs) = some (none, after)) ∧
    (newline? (c :: cs) = none → (∀ fuel depth, assignment? fuel depth (c :: cs) = none) →
      line? (c :: cs) = none) := by
  have blank : skipBlanks (c :: cs) = c :: cs := by
    rcases hc with rfl | rfl | rfl <;> rfl
  have ends : endLine? (c :: cs) = newline? (c :: cs) := by
    rw [endLine?, blank]
    rcases hc with rfl | rfl | rfl <;> rfl
  have opens : c ≠ '[' := by
    rcases hc with rfl | rfl | rfl <;> decide
  unfold line?
  rw [blank]
  split
  · rename_i same
    exact absurd (List.cons.inj same).1 opens
  · rename_i same
    exact absurd (List.cons.inj same).1 opens
  · rw [ends]
    refine ⟨fun after ended => ?_, fun stays stuck => ?_⟩
    · rw [ended]
    · rw [stays, stuck]
      rfl

theorem line?_newline {c : Char} (hc : c = '\n' ∨ c = '\r') {cs after : List Char}
    (ended : newline? (c :: cs) = some after) : line? (c :: cs) = some (none, after) :=
  (line?_plain (hc.imp_right Or.inl) cs).1 after ended

theorem line?_eq_none {c : Char} (hc : c = '{' ∨ c = '\r') {cs : List Char}
    (stays : newline? (c :: cs) = none) : line? (c :: cs) = none :=
  (line?_plain (Or.inr hc.symm) cs).2 stays fun fuel depth => assignment?_eq_none hc fuel depth cs

/-- A line before an object is blank, and the line of the object is none. -/
theorem line?_before_object {blanks : List Char}
    (h : ∀ c ∈ blanks, Json.Token.isBlank c = true) (rest : List Char) :
    line? (blanks ++ '{' :: rest) = none ∨
      ∃ left, line? (blanks ++ '{' :: rest) = some (none, left ++ '{' :: rest) ∧
        ∀ c ∈ left, Json.Token.isBlank c = true := by
  induction blanks with
  | nil => exact Or.inl (line?_eq_none (Or.inl rfl) rfl)
  | cons c more ih =>
    obtain ⟨hc, hmore⟩ := List.forall_mem_cons.1 h
    by_cases blank : isBlank c = true
    · rw [List.cons_append, line?_blank blank]
      exact ih hmore
    by_cases feed : c = '\n'
    · subst feed
      exact Or.inr ⟨more, line?_newline (Or.inl rfl) rfl, hmore⟩
    have returns : c = '\r' := by
      simp only [Json.Token.isBlank, isBlank, Bool.or_eq_true, beq_iff_eq, not_or] at hc blank
      rcases hc with ((rfl | rfl) | rfl) | rfl
      · exact absurd rfl blank.1
      · exact absurd rfl feed
      · exact absurd rfl blank.2
      · rfl
    subst returns
    cases more with
    | nil => exact Or.inl (line?_eq_none (Or.inr rfl) rfl)
    | cons k more =>
      obtain ⟨-, after⟩ := List.forall_mem_cons.1 hmore
      by_cases feed : k = '\n'
      · subst feed
        exact Or.inr ⟨more, line?_newline (Or.inr rfl) rfl, after⟩
      · refine Or.inl (line?_eq_none (Or.inr rfl) ?_)
        unfold newline?
        split
        · simp_all
        · simp_all
        · rfl

/-- The text of an object is no TOML. -/
theorem lines?_object (fuel : Nat) {blanks : List Char}
    (h : ∀ c ∈ blanks, Json.Token.isBlank c = true) (rest : List Char) :
    lines? fuel (blanks ++ '{' :: rest) = none := by
  induction fuel generalizing blanks with
  | zero => cases blanks <;> rfl
  | succ fuel ih =>
    have line : lines? (fuel + 1) (blanks ++ '{' :: rest) =
        (line? (blanks ++ '{' :: rest)).bind fun p =>
          (lines? fuel p.2).bind fun ss => some (p.1.toList ++ ss) := by
      cases blanks <;> rfl
    rw [line]
    rcases line?_before_object h rest with stuck | ⟨left, blank, hleft⟩
    · rw [stuck]
      rfl
    · rw [blank]
      exact congrArg (Option.bind · _) (ih hleft)

end Toml

/-- A text that is read as an object gives no settings. -/
theorem Settings.ofText_object {blanks rest : List Char} {text : String}
    (begins : text.toList = blanks ++ '{' :: rest)
    (h : ∀ c ∈ blanks, Json.Token.isBlank c = true) (s : Settings) : ofText text ≠ .ok s := by
  have unread : Toml.parse text = .error .malformed := by
    unfold Toml.parse
    rw [begins]
    dsimp only
    split
    · rename_i read
      split at read
      · rename_i marked
        cases blanks with
        | nil => cases marked
        | cons c more =>
          obtain ⟨rfl, -⟩ := List.cons.inj marked
          exact absurd (h _ List.mem_cons_self) (by decide)
      · rw [Toml.lines?_object _ h] at read
        cases read
    · rfl
  rw [ofText, unread]
  exact fun h => by cases h

end Netlist
