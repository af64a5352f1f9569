-- An integer that fits 64 bits is read back from the text that it is written as.
import Netlist.Json.Numeral
import Netlist.Json.Token
import Netlist.Proofs.Json.WellFormed

namespace Netlist.JsonNumber

/-! ## Digits -/

theorem digitOf?_of_isDigit {c : Char} (h : c.isDigit = true) :
    digitOf? c = some (c.toNat - '0'.toNat) := by
  rw [Char.isDigit, Bool.and_eq_true, decide_eq_true_iff, decide_eq_true_iff] at h
  exact if_pos h

theorem digitSpan_of_isDigit {cs : List Char} (h : ∀ c ∈ cs, c.isDigit = true) :
    digitSpan cs = (cs.map fun c => c.toNat - '0'.toNat, []) := by
  induction cs with
  | nil => rfl
  | cons c rest ih =>
    rw [digitSpan, digitOf?_of_isDigit (h c List.mem_cons_self),
      ih fun c hc => h c (List.mem_cons_of_mem _ hc)]
    rfl

/-- More digits never make a number smaller. -/
theorem le_foldl_digits (ds : List Nat) (n : Nat) : n ≤ ds.foldl (fun n d => 10 * n + d) n := by
  induction ds generalizing n with
  | nil => exact Nat.le_refl n
  | cons d rest ih => exact Nat.le_trans (by omega) (ih (10 * n + d))

/-- No digit is left out of a number that fits. -/
theorem wholeSignificand_of_le {ds : List Nat} {n : Nat}
    (h : ds.foldl (fun n d => 10 * n + d) n ≤ significandLimit) :
    wholeSignificand n ds = (ds.foldl (fun n d => 10 * n + d) n, 0) := by
  induction ds generalizing n with
  | nil => rfl
  | cons d rest ih =>
    rw [List.foldl_cons] at h ⊢
    rw [wholeSignificand, if_pos (Nat.le_trans (le_foldl_digits rest _) h), ih h]

theorem isDigit_of_mem_digits {n : Nat} {c : Char} (h : c ∈ Nat.toDigits 10 n) :
    c.isDigit = true :=
  Nat.isDigit_of_mem_toDigits (by decide) (by decide) h

/-- The digits of a number. -/
def digits (n : Nat) : List Nat := (Nat.toDigits 10 n).map fun c => c.toNat - '0'.toNat

/-- No other number than zero begins with a zero. -/
theorem digits_eq_cons {n : Nat} (h : 0 < n) : ∃ d ds, digits n = (d + 1) :: ds := by
  induction n using Nat.strongRecOn with
  | ind n ih =>
    rw [digits, Nat.toDigits_eq_if (by decide)]
    split
    · rename_i small
      have value : ∀ n < 10, n.digitChar.toNat - '0'.toNat = n := by decide
      exact ⟨n - 1, [], by rw [List.map_singleton, value n small, Nat.sub_add_cancel h]⟩
    · obtain ⟨d, ds, first⟩ := ih (n / 10) (by omega) (by omega)
      exact ⟨d, _, by rw [List.map_append, ← digits, first, List.cons_append]⟩

theorem digitSpan_digits (n : Nat) : digitSpan (Nat.toDigits 10 n) = (digits n, []) :=
  digitSpan_of_isDigit fun _ => isDigit_of_mem_digits

theorem wholeSignificand_digits {n : Nat} (h : n ≤ significandLimit) :
    wholeSignificand 0 (digits n) = (n, 0) := by
  have value : (digits n).foldl (fun n d => 10 * n + d) 0 = n := by
    rw [digits, List.foldl_map]
    exact Nat.ofDigitChars_ten_toDigits
  rw [wholeSignificand_of_le (by rw [value]; exact h), value]

/-! ## Numerals -/

theorem numeral_digits (n : Nat) :
    Numeral.ofText? (Nat.toDigits 10 n) = some ⟨false, digits n, none, none⟩ := by
  have span := digitSpan_digits n
  unfold Numeral.ofText?
  split
  rename_i parts
  split at parts
  · rename_i rest minus
    have digit := isDigit_of_mem_digits (minus ▸ List.mem_cons_self : '-' ∈ Nat.toDigits 10 n)
    exact absurd digit (by decide)
  · cases parts
    rcases Nat.eq_zero_or_pos n with rfl | pos
    · rfl
    · obtain ⟨d, ds, first⟩ := digits_eq_cons pos
      rw [span, first]
      rfl

theorem numeral_minus_digits (n : Nat) :
    Numeral.ofText? ('-' :: Nat.toDigits 10 n) = some ⟨true, digits n, none, none⟩ := by
  rw [Numeral.ofText?, digitSpan_digits]
  rcases Nat.eq_zero_or_pos n with rfl | pos
  · rfl
  · obtain ⟨d, ds, first⟩ := digits_eq_cons pos
    rw [first]
    rfl

/-- The text of an integer is its digits, with a sign before them if it is negative. -/
theorem render_int (i : Int) : (render (.int i)).toList =
    if 0 ≤ i then Nat.toDigits 10 i.toNat else '-' :: Nat.toDigits 10 (-i).toNat := by
  rw [render, Int.toString_eq_repr, Int.repr_eq_if]
  split
  · exact Nat.toList_repr
  · rw [String.toList_append, Nat.toList_repr]
    rfl

/-- An integer of 64 bits is read back. -/
theorem ofText?_render_int {i : Int} (h : (int i).WellFormed) :
    ofText? (render (.int i)).toList = some (.int i) := by
  have bounds : -(2 ^ 63) ≤ i ∧ i < 2 ^ 64 := h
  have limit : significandLimit = 2 ^ 64 - 1 := rfl
  rw [render_int]
  split
  · rename_i nonneg
    rw [ofText?, numeral_digits, Option.bind_some, ofNumeral?,
      wholeSignificand_digits (by omega)]
    exact congrArg (fun i => some (int i)) (Int.toNat_of_nonneg nonneg)
  · rename_i negative
    have half : UInt64.size / 2 = 2 ^ 63 := rfl
    rw [ofText?, numeral_minus_digits, Option.bind_some, ofNumeral?,
      wholeSignificand_digits (by omega)]
    dsimp only
    rw [if_neg (by decide), if_pos ⟨rfl, by omega, by omega⟩, Int.toNat_of_nonneg (by omega),
      Int.neg_neg]

/-! ## Characters -/

theorem isNumeralStart_of_isDigit {c : Char} (h : c.isDigit = true) :
    Json.Token.isNumeralStart c = true := by
  rw [Char.isDigit, Bool.and_eq_true, decide_eq_true_iff, decide_eq_true_iff] at h
  rw [Json.Token.isNumeralStart, Bool.or_eq_true, decide_eq_true_iff]
  exact Or.inr h

/-- The text of an integer begins as a number, and has no other characters than numbers. -/
theorem render_int_eq_cons (i : Int) : ∃ c rest, (render (.int i)).toList = c :: rest ∧
    ∀ c' ∈ c :: rest, Json.Token.isNumeralStart c' = true := by
  have digit (n : Nat) : ∀ c ∈ Nat.toDigits 10 n, Json.Token.isNumeralStart c = true :=
    fun c hc => isNumeralStart_of_isDigit (isDigit_of_mem_digits hc)
  rw [render_int]
  split
  · generalize digits : Nat.toDigits 10 i.toNat = cs
    cases cs with
    | nil => exact absurd digits Nat.toDigits_ne_nil
    | cons c rest => exact ⟨c, rest, rfl, digits ▸ digit i.toNat⟩
  · refine ⟨'-', _, rfl, fun c hc => ?_⟩
    rcases List.mem_cons.1 hc with rfl | hc
    · rfl
    · exact digit _ c hc

end Netlist.JsonNumber
