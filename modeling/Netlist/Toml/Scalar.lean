-- Single words of TOML: numbers, dates and times. A word is taken whole and must have
-- one of these forms.
import Netlist.Toml.Basic

namespace Netlist.Toml

def isDigit (c : Char) : Bool := decide ('0' ≤ c ∧ c ≤ '9')

/-- The value of a digit in a base up to sixteen. -/
def digitValue? (base : Nat) (c : Char) : Option Nat :=
  let v? :=
    if '0' ≤ c ∧ c ≤ '9' then some (c.toNat - '0'.toNat)
    else if 'a' ≤ c ∧ c ≤ 'f' then some (c.toNat - 'a'.toNat + 10)
    else if 'A' ≤ c ∧ c ≤ 'F' then some (c.toNat - 'A'.toNat + 10)
    else none
  v?.filter (· < base)

/-- Reads digits to the end of the word. A single underscore may stand between two. -/
def digits? (base : Nat) (n : Nat) : List Char → Option Nat
  | [] => none
  | [c] => (digitValue? base c).map (base * n + ·)
  | c :: '_' :: rest => (digitValue? base c).bind fun v => digits? base (base * n + v) rest
  | c :: rest => (digitValue? base c).bind fun v => digits? base (base * n + v) rest

/-- The sign of a word, and what follows it. -/
def sign : List Char → Option Bool × List Char
  | '+' :: rest => (some false, rest)
  | '-' :: rest => (some true, rest)
  | cs => (none, cs)

/-- The digits of a decimal integer. No zero stands in front. -/
def decimal? (cs : List Char) : Option Nat :=
  match cs with
  | '0' :: _ :: _ => none
  | cs => digits? 10 0 cs

/-- An integer of 64 bits. Only a decimal one may have a sign. -/
def int? (cs : List Char) : Option Int :=
  let (negative, magnitude) := sign cs
  let n? : Option Int := match negative, magnitude with
    | none, '0' :: 'x' :: rest => (digits? 16 0 rest).map Int.ofNat
    | none, '0' :: 'o' :: rest => (digits? 8 0 rest).map Int.ofNat
    | none, '0' :: 'b' :: rest => (digits? 2 0 rest).map Int.ofNat
    | some true, ds => (decimal? ds).map fun n => -(n : Int)
    | _, ds => (decimal? ds).map Int.ofNat
  n?.filter Json.fitsInt64

/-- The exponent of a float, which follows its mark. -/
def exponent? (cs : List Char) : Option Int :=
  match sign cs with
  | (some true, ds) => (digits? 10 0 ds).map fun n => -(n : Int)
  | (_, ds) => (digits? 10 0 ds).map Int.ofNat

/-- The part of a float from its point or its exponent on. Its digits continue the number
`n` of those before it, and the power of ten that scales them all is given with them. -/
def floatTail? (n : Nat) (cs : List Char) : Option (Nat × Int) :=
  let isMark (c : Char) : Bool := c == 'e' || c == 'E'
  match cs with
  | '.' :: rest => do
    let (ds, tail) := rest.span (!isMark ·)
    let n ← digits? 10 n ds
    let places := (ds.filter isDigit).length
    match tail with
    | [] => return (n, -(places : Int))
    | _ :: e => return (n, (← exponent? e) - (places : Int))
  | c :: e => if isMark c then (exponent? e).map (n, ·) else none
  | [] => none

/-- Whether a word is a float. One that is too large for a double is none, unless it has a
minus: then it stands for minus infinity. -/
def isFloat (cs : List Char) : Bool :=
  let (negative, magnitude) := sign cs
  if magnitude == ['i', 'n', 'f'] || magnitude == ['n', 'a', 'n'] then true
  else
    let (whole, tail) := magnitude.span fun c => isDigit c || c == '_'
    match (decimal? whole).bind (floatTail? · tail) with
    | some (n, k) => negative == some true || Binary64.inRange n k
    | none => false

/-! ## Dates and times -/

/-- A number of exactly so many digits. -/
def fixed? (count : Nat) (cs : List Char) : Option Nat :=
  if cs.length = count ∧ cs.all isDigit then
    some (cs.foldl (fun n c => 10 * n + (c.toNat - '0'.toNat)) 0)
  else none

def daysIn (year month : Nat) : Nat :=
  if month = 2 then
    if year % 4 = 0 ∧ (year % 100 ≠ 0 ∨ year % 400 = 0) then 29 else 28
  else if month = 4 ∨ month = 6 ∨ month = 9 ∨ month = 11 then 30
  else 31

/-- A date `YYYY-MM-DD` that is in the calendar. -/
def isDate (cs : List Char) : Bool :=
  match fixed? 4 (cs.take 4), cs.drop 4 with
  | some year, ['-', m₁, m₂, '-', d₁, d₂] =>
    match fixed? 2 [m₁, m₂], fixed? 2 [d₁, d₂] with
    | some month, some day =>
      decide (1 ≤ month ∧ month ≤ 12 ∧ 1 ≤ day ∧ day ≤ daysIn year month)
    | _, _ => false
  | _, _ => false

/-- A time `HH:MM:SS`, with or without a fraction of a second. -/
def isTime (cs : List Char) : Bool :=
  match cs with
  | h₁ :: h₂ :: ':' :: m₁ :: m₂ :: ':' :: s₁ :: s₂ :: rest =>
    let below (limit : Nat) (ds : List Char) := (fixed? 2 ds).any (· < limit)
    below 24 [h₁, h₂] && below 60 [m₁, m₂] && below 61 [s₁, s₂] &&
      match rest with
      | [] => true
      | '.' :: ds => !ds.isEmpty && ds.all isDigit
      | _ => false
  | _ => false

/-- A time with an offset from universal time, or without one. -/
def isZonedTime (cs : List Char) : Bool :=
  if cs.getLast? == some 'Z' || cs.getLast? == some 'z' then isTime cs.dropLast
  else
    let (time, zone) := cs.span fun c => c != '+' && c != '-'
    match zone with
    | [] => isTime time
    | [_, h₁, h₂, ':', m₁, m₂] =>
      isTime time && (fixed? 2 [h₁, h₂]).any (· < 24) && (fixed? 2 [m₁, m₂]).any (· < 60)
    | _ => false

def isDatetime (cs : List Char) : Bool :=
  isDate cs || isTime cs ||
    match cs.drop 10 with
    | mark :: rest =>
      isDate (cs.take 10) && (mark == 'T' || mark == 't' || mark == ' ') && isZonedTime rest
    | [] => false

/-- The value of a word. -/
def word? (cs : List Char) : Option Value :=
  if cs == "true".toList then some (.bool true)
  else if cs == "false".toList then some (.bool false)
  else match int? cs with
    | some i => some (.int i)
    | none =>
      if isFloat cs then some (.float (String.ofList cs))
      else if isDatetime cs then some (.datetime (String.ofList cs))
      else none

end Netlist.Toml
