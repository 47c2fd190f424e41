import ScopedFn.Numeric.Binary64
import ScopedFn.Text.Padded

/-!
# Shortest decimal digits

The decimal text of a finite number shows the fewest digits that read back to it, and of those
the decimal nearest to it.

* `interval` is the set of reals that round to a number: its ends belong to it exactly when the
  significand is even;
* `shortest` looks for the first digit count at which one of the number's two neighbours on that
  decimal grid lies in the interval;
* a `Layout` says how digits and exponent are written, and `text` writes them.
-/

set_option autoImplicit false

namespace ScopedFn

namespace Binary64

/-- How many decimal digits a natural number has; zero has one. -/
def digitCount (n : Nat) : Nat := (Nat.toDigits 10 n).length

/-- The reals that round to a positive number, as `low / den` to `high / den` around
`middle / den`. The gap below a power of two is half as wide. -/
structure Interval where
  /-- Numerator of the lower end. -/
  low : Nat
  /-- Numerator of the number itself. -/
  middle : Nat
  /-- Numerator of the upper end. -/
  high : Nat
  /-- Common denominator. -/
  den : Nat
  /-- The ends round to the number too. -/
  closed : Bool

/-- The rounding interval of a finite magnitude. -/
def interval (x : Binary64) : Interval :=
  let m := x.significand
  let scale := x.exponent - 2
  let up := if 0 ≤ scale then Nat.pow 2 scale.toNat else 1
  let den := if 0 ≤ scale then 1 else Nat.pow 2 (-scale).toNat
  let below := if m = Nat.pow 2 52 ∧ 1 < x.exponentField then 1 else 2
  ⟨(4 * m - below) * up, 4 * m * up, (4 * m + 2) * up, den, m % 2 == 0⟩

/-- `num / den` lies in the interval. -/
def Interval.contains (i : Interval) (num den : Nat) : Bool :=
  let lower := i.low * den
  let point := num * i.den
  let upper := i.high * den
  if i.closed then lower ≤ point && point ≤ upper else lower < point && point < upper

/-- The exponent `e` with `10 ^ (e - 1) ≤ num / den < 10 ^ e`, for a positive quotient. -/
def decade (num den : Nat) : Int :=
  if den ≤ num then digitCount (num / den)
  else
    let places := digitCount (den / num)
    if den ≤ num * Nat.pow 10 (places - 1) then 2 - (places : Int) else 1 - (places : Int)

/-- Digits and the power of ten that the last digit counts. -/
structure Digits where
  /-- All digits as one number. -/
  digits : Nat
  /-- The value is `digits · 10 ^ power`. -/
  power : Int
  deriving DecidableEq, Repr

/-- The neighbour of the number on the grid of `count` digits that reads back, if one does; of
two the nearer, of two equally near the even one. -/
def onGrid? (i : Interval) (top : Int) (count : Nat) : Option Digits :=
  let power := top - count
  let gridNum := if 0 ≤ power then Nat.pow 10 power.toNat else 1
  let gridDen := if 0 ≤ power then 1 else Nat.pow 10 (-power).toNat
  let floor := (i.middle * gridDen) / (i.den * gridNum)
  let rest := (i.middle * gridDen) % (i.den * gridNum)
  let lower := i.contains (floor * gridNum) gridDen
  let upper := i.contains ((floor + 1) * gridNum) gridDen
  let preferUpper :=
    2 * rest > i.den * gridNum || (2 * rest == i.den * gridNum && floor % 2 == 1)
  if lower && (!upper || !preferUpper) then some ⟨floor, power⟩
  else if upper then some ⟨floor + 1, power⟩
  else none

/-- Moves factors of ten from the digits into the power. -/
def Digits.trim : Nat → Digits → Digits
  | 0, d => d
  | fuel + 1, d =>
    if d.digits ≠ 0 ∧ d.digits % 10 = 0 then Digits.trim fuel ⟨d.digits / 10, d.power + 1⟩ else d

/-- The fewest digits that read back to a positive finite number. Seventeen always do. -/
def shortest (x : Binary64) : Digits :=
  let i := x.interval
  let top := decade i.middle i.den
  let found := ((List.range 17).map (· + 1)).findSome? (onGrid? i top)
  Digits.trim 17 (found.getD ⟨0, 0⟩)

/-- How a number is written in decimal. -/
structure Layout where
  /-- Least decimal exponent of the leading digit that is written positionally. -/
  leastPositional : Int
  /-- First exponent of the leading digit that is written with an exponent again. -/
  firstScientific : Int
  /-- A lone leading digit before an exponent is followed by `.0`. -/
  pointInScientific : Bool
  /-- Least number of digits of the exponent. -/
  exponentWidth : Nat
  /-- Text of positive infinity. -/
  infinityText : String
  /-- Text of a not-a-number. -/
  nanText : String

/-- Writes digits by a layout. -/
def Layout.write (l : Layout) (d : Digits) : String :=
  let digits := Nat.toDigits 10 d.digits
  let lead := d.power + digits.length - 1
  if l.leastPositional ≤ lead ∧ lead < l.firstScientific then
    if 0 ≤ d.power then
      String.ofList (digits ++ List.replicate d.power.toNat '0') ++ ".0"
    else if 0 ≤ lead then
      String.ofList (digits.take (lead.toNat + 1)) ++ "." ++
        String.ofList (digits.drop (lead.toNat + 1))
    else
      "0." ++ String.ofList (List.replicate (-lead - 1).toNat '0' ++ digits)
  else
    let head := String.ofList (digits.take 1)
    let tail := String.ofList (digits.drop 1)
    let mantissa :=
      if tail.isEmpty then (if l.pointInScientific then head ++ ".0" else head)
      else head ++ "." ++ tail
    mantissa ++ "e" ++ (if lead < 0 then "-" else "+") ++ Text.padded l.exponentWidth lead.natAbs

/-- The text of a number in a layout. -/
def text (l : Layout) (x : Binary64) : String :=
  if x.isNaN then l.nanText
  else
    let sign := if x.negative then "-" else ""
    if x.isInfinite then sign ++ l.infinityText
    else if x.isZero then sign ++ "0.0"
    else sign ++ l.write x.shortest

end Binary64

end ScopedFn
