-- Numbers in JSON text: how they are read, and how they are written.
--
-- An integer of 64 bits is exact. Any other number is a double: the leading digits
-- that fit 64 bits are its significand, and the rest is a power of ten.
import Netlist.Json.Basic
import Netlist.Number.Shortest

namespace Netlist

namespace JsonNumber

/-- The greatest significand. -/
def significandLimit : Nat := UInt64.size - 1

/-- The parts of a number in text: its sign, the digits before and after the point, and
the power of ten. Without a point or an exponent the part is missing. -/
structure Numeral where
  negative : Bool
  whole : List Nat
  fraction : Option (List Nat)
  exponent : Option Int
  deriving Repr

def digitOf? (c : Char) : Option Nat :=
  if '0' ≤ c ∧ c ≤ '9' then some (c.toNat - '0'.toNat) else none

/-- The leading digits of a text, and what follows them. -/
def digitSpan : List Char → List Nat × List Char
  | [] => ([], [])
  | c :: rest =>
    match digitOf? c with
    | some d => let (ds, tail) := digitSpan rest; (d :: ds, tail)
    | none => ([], c :: rest)

/-- The number that digits spell. -/
def ofDigits (ds : List Nat) : Nat := ds.foldl (fun n d => 10 * n + d) 0

/-- The part after `e`, up to the end of the text. -/
def exponentOf? (cs : List Char) : Option Int :=
  let (negative, cs) := match cs with
    | '+' :: rest => (false, rest)
    | '-' :: rest => (true, rest)
    | _ => (false, cs)
  match digitSpan cs with
  | (d :: ds, []) => some (if negative then -ofDigits (d :: ds) else ofDigits (d :: ds))
  | _ => none

/-- The part after the digits before the point. -/
def tailOf? (negative : Bool) (whole : List Nat) : List Char → Option Numeral
  | [] => some ⟨negative, whole, none, none⟩
  | '.' :: rest =>
    match digitSpan rest with
    | ([], _) => none
    | (ds, []) => some ⟨negative, whole, some ds, none⟩
    | (ds, c :: rest) =>
      if c = 'e' ∨ c = 'E' then
        (exponentOf? rest).map fun e => ⟨negative, whole, some ds, some e⟩
      else none
  | c :: rest =>
    if c = 'e' ∨ c = 'E' then (exponentOf? rest).map fun e => ⟨negative, whole, none, some e⟩
    else none

/-- Takes a whole text apart as a number. A leading zero stands alone before the point. -/
def Numeral.ofText? (cs : List Char) : Option Numeral :=
  let (negative, cs) := match cs with
    | '-' :: rest => (true, rest)
    | _ => (false, cs)
  match digitSpan cs with
  | ([], _) => none
  | (0 :: _ :: _, _) => none
  | (ds, rest) => tailOf? negative ds rest

/-- The significand of the digits before the point, and the number of digits left out.
Once a digit does not fit, no later one is taken. -/
def wholeSignificand (n : Nat) : List Nat → Nat × Nat
  | [] => (n, 0)
  | d :: ds =>
    if 10 * n + d ≤ significandLimit then wholeSignificand (10 * n + d) ds
    else (n, ds.length + 1)

/-- The significand continued by the digits after the point, and the number taken. -/
def fractionSignificand (n : Nat) : List Nat → Nat × Nat
  | [] => (n, 0)
  | d :: ds =>
    if 10 * n + d ≤ significandLimit then
      let (m, taken) := fractionSignificand (10 * n + d) ds
      (m, taken + 1)
    else (n, 0)

/-- A double with a sign. The significand is rounded first, and then scaled. -/
def floatOf? (negative : Bool) (significand : Nat) (exponent : Int) : Option JsonNumber := do
  let x ← Binary64.ofRatio? false significand 1
  let y ← x.scale? exponent
  return .float { y with negative }

/-- The number that a numeral stands for, or nothing if it is too large for a double. -/
def ofNumeral? (n : Numeral) : Option JsonNumber :=
  let (w, left) := wholeSignificand 0 n.whole
  match n.fraction, n.exponent with
  | none, none =>
    if left = 0 ∧ !n.negative then some (.int w)
    else if left = 0 ∧ w ≠ 0 ∧ w ≤ UInt64.size / 2 then some (.int (-w))
    else floatOf? n.negative w left
  | fraction, exponent =>
    let (m, taken) := fractionSignificand w (fraction.getD [])
    floatOf? n.negative m ((left : Int) - taken + exponent.getD 0)

/-- Reads a number that fills the whole text. -/
def ofText? (cs : List Char) : Option JsonNumber := (Numeral.ofText? cs).bind ofNumeral?

/-- Doubles from `1e-5` up to, but not including, `1e16` are written without an exponent. -/
def layout : DecimalLayout := ⟨-5, 15⟩

def render : JsonNumber → String
  | int i => toString i
  | float x => (if x.negative then "-" else "") ++ layout.render x.shortest

end JsonNumber

end Netlist
