-- The fewest decimal digits that read back as a given double. A double stands for
-- every real that rounds to it; of the decimals in that interval with the coarsest
-- last place, the one nearest to the double is taken.
import Netlist.Number.Binary64

namespace Netlist

/-- The number `digits · 10 ^ exponent`. -/
structure Decimal where
  digits : Nat
  exponent : Int
  deriving DecidableEq, Repr, Inhabited

namespace Binary64

/-- The reals that round to a double, as numerators over one denominator. -/
structure Basin where
  low : Nat
  value : Nat
  high : Nat
  denominator : Nat
  /-- A tie goes to the even mantissa, so the ends belong to an even one. -/
  closed : Bool

/-- The basin of a positive double, in quarters of its last place. Below a power of two
the neighbour is only half as far away. -/
def basin (x : Binary64) : Basin :=
  let up := (x.exponent - 2).toNat
  let down := (2 - x.exponent).toNat
  let below := if x.mantissa = twoTo 52 ∧ leastExponent < x.exponent then 1 else 2
  { low := (4 * x.mantissa - below) * twoTo up
    value := 4 * x.mantissa * twoTo up
    high := (4 * x.mantissa + 2) * twoTo up
    denominator := twoTo down
    closed := x.mantissa % 2 == 0 }

/-- The multiple of `10 ^ g` that lies in the basin and is nearest to the value, a tie
going to the even multiple. -/
def Basin.nearest? (b : Basin) (g : Int) : Option Nat :=
  let fine := tenTo (-g).toNat
  let unit := b.denominator * tenTo g.toNat
  let inside (d : Nat) : Bool :=
    if b.closed then b.low * fine ≤ d * unit ∧ d * unit ≤ b.high * fine
    else b.low * fine < d * unit ∧ d * unit < b.high * fine
  let v := b.value * fine
  let d := v / unit
  let r := v % unit
  let first := if 2 * r < unit ∨ 2 * r = unit ∧ d % 2 = 0 then d else d + 1
  let second := if first = d then d + 1 else d
  if inside first then some first else if inside second then some second else none

/-- Looks for a decimal in the basin on finer and finer grids. -/
def Basin.search (b : Basin) : Nat → Int → Decimal
  | 0, g => ⟨b.value / b.denominator, g⟩
  | fuel + 1, g =>
    match b.nearest? g with
    | some d => ⟨d, g⟩
    | none => b.search fuel (g - 1)

/-- The shortest decimal of a double, without its sign. The search begins above the
value, and seventeen digits always suffice. -/
def shortest (x : Binary64) : Decimal :=
  if x.isZero then ⟨0, 0⟩
  else
    let magnitude := (x.mantissa.log2 : Int) + x.exponent
    x.basin.search 24 (magnitude * 30103 / 100000 + 2)

end Binary64

/-! ## Decimal text -/

/-- Where a format stops writing numbers positionally: the least and the greatest
decimal exponent that it writes without an exponent mark. -/
structure DecimalLayout where
  least : Int
  greatest : Int

/-- The text of a decimal without its sign. The positional form always has a point; the
other has one only between digits, and always signs its exponent. -/
def DecimalLayout.render (layout : DecimalLayout) (d : Decimal) : String :=
  let digits := toString d.digits
  let count : Int := digits.length
  let exponent := d.exponent + count - 1
  let zeros (n : Int) := String.ofList (List.replicate n.toNat '0')
  if d.digits = 0 then "0.0"
  else if exponent < layout.least ∨ layout.greatest < exponent then
    let tail := (digits.drop 1).toString
    let mark := if tail.isEmpty then "" else "."
    let sign := if exponent < 0 then "-" else "+"
    (digits.take 1).toString ++ mark ++ tail ++ "e" ++ sign ++ toString exponent.natAbs
  else if exponent < 0 then "0." ++ zeros (-exponent - 1) ++ digits
  else if 0 ≤ d.exponent then digits ++ zeros d.exponent ++ ".0"
  else
    let whole := (exponent + 1).toNat
    (digits.take whole).toString ++ "." ++ (digits.drop whole).toString

end Netlist
