-- Double-precision numbers without infinities and NaNs, as exact pairs of integers.
-- All arithmetic is done on exact ratios and rounded once, a half to the even side.

namespace Netlist

/-- Two to the power of `k`. -/
def twoTo (k : Nat) : Nat := Nat.pow 2 k

/-- Ten to the power of `k`. -/
def tenTo (k : Nat) : Nat := Nat.pow 10 k

/-- The number `± mantissa · 2 ^ exponent`. Every double has one form: the mantissa has
53 bits, or fewer if the exponent is the least one. -/
structure Binary64 where
  negative : Bool
  mantissa : Nat
  exponent : Int
  deriving DecidableEq, Repr, Inhabited

namespace Binary64

def leastExponent : Int := -1074

def greatestExponent : Int := 971

def zero (negative : Bool) : Binary64 := ⟨negative, 0, leastExponent⟩

def isZero (x : Binary64) : Bool := x.mantissa == 0

/-- The magnitude as a numerator and a denominator. -/
def ratio (x : Binary64) : Nat × Nat :=
  if 0 ≤ x.exponent then (x.mantissa * twoTo x.exponent.toNat, 1)
  else (x.mantissa, twoTo (-x.exponent).toNat)

/-- The quotient rounded to the nearest integer, a half to the even one. -/
def roundDiv (num den : Nat) : Nat :=
  let q := num / den
  let r := num % den
  if 2 * r < den ∨ 2 * r = den ∧ q % 2 = 0 then q else q + 1

/-- The exponent of the greatest power of two that is at most `num / den`. Both must be
positive. -/
def binaryMagnitude (num den : Nat) : Int :=
  let k : Int := (num.log2 : Int) - (den.log2 : Int)
  let fits := if 0 ≤ k then den * twoTo k.toNat ≤ num else den ≤ num * twoTo (-k).toNat
  if fits then k else k - 1

/-- The double nearest to `± num / den`, or nothing if it is too large. -/
def ofRatio? (negative : Bool) (num den : Nat) : Option Binary64 :=
  if num = 0 then some (zero negative)
  else
    let e := max (binaryMagnitude num den - 52) leastExponent
    let m :=
      if 0 ≤ e then roundDiv num (den * twoTo e.toNat) else roundDiv (num * twoTo (-e).toNat) den
    let (m, e) := if m = twoTo 53 then (twoTo 52, e + 1) else (m, e)
    if e ≤ greatestExponent then some ⟨negative, m, e⟩ else none

/-- The product, rounded once. -/
def mul? (x y : Binary64) : Option Binary64 :=
  ofRatio? (x.negative != y.negative) (x.ratio.1 * y.ratio.1) (x.ratio.2 * y.ratio.2)

/-- The quotient, rounded once. The divisor must not be zero. -/
def div? (x y : Binary64) : Option Binary64 :=
  ofRatio? (x.negative != y.negative) (x.ratio.1 * y.ratio.2) (x.ratio.2 * y.ratio.1)

/-- The double nearest to `10 ^ k`. -/
def powerOfTen? (k : Nat) : Option Binary64 := ofRatio? false (tenTo k) 1

/-- The greatest power of ten that is still finite. -/
def greatestPower : Nat := 308

/-- `x · 10 ^ k`, rounded once for each power of ten that is used: one multiplication
upwards, and downwards divisions by at most `10 ^ 308` each. Nothing if too large. -/
def scale? (x : Binary64) (k : Int) : Option Binary64 :=
  if x.isZero then some x
  else if k.natAbs ≤ greatestPower then
    (powerOfTen? k.natAbs).bind fun p => if 0 ≤ k then x.mul? p else x.div? p
  else if 0 ≤ k then none
  else
    ((powerOfTen? greatestPower).bind x.div?).bind fun y => y.scale? (k + greatestPower)
termination_by k.natAbs
decreasing_by simp only [greatestPower] at *; omega

/-- Whether `n · 10 ^ k` is not too large for a double. A positive number times `10 ^ 309`
always is, and one that is less than one never. -/
def inRange (n : Nat) (k : Int) : Bool :=
  if n = 0 then true
  else if 0 ≤ k then
    decide (k ≤ greatestPower) && (ofRatio? false (n * tenTo k.toNat) 1).isSome
  else decide (n.log2 < 3 * k.natAbs) || (ofRatio? false n (tenTo k.natAbs)).isSome

/-- Whether two doubles are the same number: zero has two forms. -/
def same (x y : Binary64) : Bool := x == y || x.isZero && y.isZero

end Binary64

end Netlist
