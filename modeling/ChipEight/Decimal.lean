/-
Decimal text of binary floating point numbers. A finite number is `m · 2^q`; the reals that round to it form an
interval around it, ends included if `m` is even. The text shows the point of the coarsest decimal grid `10^k` that
has one in this interval, the nearest if it has two, the upper one at equal distance. So no shorter decimal reads
back, and no other of that length is nearer.

The text is positional for every size, without a fraction for whole numbers, and keeps the sign of zero.
-/
namespace ChipEight.Decimal

/-- a number and the bounds of what rounds to it, as multiples of one unit, the `unit`-th part of one -/
structure Interval where
  low : Nat
  value : Nat
  high : Nat
  unit : Nat
  /-- whether the bounds themselves round to the number -/
  closed : Bool
deriving DecidableEq, Repr

/-- The interval of `m · 2^q`. The neighbours of a number are one unit of its last place away, the lower one of a power
of two only half a unit (`narrow`). -/
def Interval.ofBinary (m : Nat) (q : Int) (narrow : Bool) : Interval where
  low := (4 * m - if narrow then 1 else 2) * Nat.pow 2 q.toNat
  value := 4 * m * Nat.pow 2 q.toNat
  high := (4 * m + 2) * Nat.pow 2 q.toNat
  unit := 4 * Nat.pow 2 (-q).toNat
  closed := m % 2 == 0

namespace Interval

/-- whether `p · 10^k` rounds to the number -/
def contains (v : Interval) (p : Nat) (k : Int) : Bool :=
  let p := p * v.unit * Nat.pow 10 k.toNat
  let scale := Nat.pow 10 (-k).toNat
  if v.closed then v.low * scale ≤ p && p ≤ v.high * scale else v.low * scale < p && p < v.high * scale

/-- the number in steps of `10^k`, rounded down -/
def floor (v : Interval) (k : Int) : Nat := v.value * Nat.pow 10 (-k).toNat / (v.unit * Nat.pow 10 k.toNat)

/-- whether the number is nearer to `p · 10^k` than to the next point of the grid -/
def nearer (v : Interval) (p : Nat) (k : Int) : Bool :=
  2 * (v.value * Nat.pow 10 (-k).toNat) < (2 * p + 1) * (v.unit * Nat.pow 10 k.toNat)

/-- the point of the grid `10^k` that stands for the number, if one rounds to it -/
def gridPoint? (v : Interval) (k : Int) : Option Nat :=
  let p := v.floor k
  match v.contains p k, v.contains (p + 1) k with
  | true, true => some (if v.nearer p k then p else p + 1)
  | true, false => some p
  | false, true => some (p + 1)
  | false, false => none

/-- the first grid with such a point, from `10^k` on to finer ones, as its point and exponent -/
def shortest (v : Interval) : Nat → Int → Nat × Int
  | 0, k => (v.floor k, k)
  | fuel + 1, k =>
    match v.gridPoint? k with
    | some p => (p, k)
    | none => shortest v fuel (k - 1)

end Interval

/-! ## Text -/

/-- the numeral of `p · 10^k` without an exponent -/
def positional (p : Nat) (k : Int) : String :=
  let digits := Nat.toDigits 10 p
  if 0 ≤ k then
    String.ofList (digits ++ List.replicate k.toNat '0')
  else
    let places := (-k).toNat
    let padded := List.replicate (places + 1 - digits.length) '0' ++ digits
    String.ofList (padded.take (padded.length - places) ++ '.' :: padded.drop (padded.length - places))

/-- The coarsest grid any double needs: `10^309` is above all of them. -/
def coarsest : Int := 309

/-- The number of grids from there to `10^(-1074)`, on which every double is a point. -/
def grids : Nat := 309 + 1074

/-- the text of `m · 2^q`, `m` not zero -/
def magnitudeText (m : Nat) (q : Int) (narrow : Bool) : String :=
  let (p, k) := (Interval.ofBinary m q narrow).shortest grids coarsest
  positional p k

/-- the text of the double with these bits -/
def textOfBits (bits : UInt64) : String :=
  let negative := bits.toNat / Nat.pow 2 63 % 2 == 1
  let exponent := bits.toNat / Nat.pow 2 52 % Nat.pow 2 11
  let fraction := bits.toNat % Nat.pow 2 52
  let sign := if negative then "-" else ""
  if exponent == 2047 then
    if fraction == 0 then sign ++ "inf" else "NaN"
  else if exponent == 0 then
    if fraction == 0 then sign ++ "0" else sign ++ magnitudeText fraction (-1074) false
  else
    sign ++ magnitudeText (Nat.pow 2 52 + fraction) (Int.ofNat exponent - 1075) (fraction == 0 && exponent != 1)

def text (f : Float) : String := textOfBits f.toBits

end ChipEight.Decimal
