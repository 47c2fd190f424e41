/-!
# Binary64 numbers

A `Binary64` is a double-precision number given by its 64 bits. Everything about it is computed
in exact natural-number arithmetic:

* `significand` and `exponent` give the magnitude as `significand · 2 ^ exponent`;
* `ofRatio` rounds a quotient of natural numbers to the nearest number, a tie to the even one;
* `eqInt` compares with an integer without rounding the integer;
* `add` and `mulNat` are the rounded sum and the rounded product with a natural number.
-/

set_option autoImplicit false

namespace ScopedFn

/-- A double-precision number, by its bits. -/
structure Binary64 where
  /-- One sign bit, eleven exponent bits, fifty-two fraction bits. -/
  bits : UInt64
  deriving DecidableEq, Repr, Inhabited

namespace Binary64

/-- The sign bit. -/
def negative (x : Binary64) : Bool := x.bits >>> 63 == 1

/-- The eleven exponent bits. -/
def exponentField (x : Binary64) : Nat := ((x.bits >>> 52) &&& 0x7ff).toNat

/-- The fifty-two fraction bits. -/
def fraction (x : Binary64) : Nat := (x.bits &&& 0xfffffffffffff).toNat

/-- Not a number: all exponent bits set and some fraction bit. -/
def isNaN (x : Binary64) : Bool := x.exponentField == 2047 && x.fraction != 0

/-- An infinity: all exponent bits set and no fraction bit. -/
def isInfinite (x : Binary64) : Bool := x.exponentField == 2047 && x.fraction == 0

/-- A zero of either sign. -/
def isZero (x : Binary64) : Bool := x.exponentField == 0 && x.fraction == 0

/-- The integer significand: a normal number has a hidden leading bit. -/
def significand (x : Binary64) : Nat :=
  if x.exponentField = 0 then x.fraction else x.fraction + Nat.pow 2 52

/-- The power of two that the significand counts. -/
def exponent (x : Binary64) : Int := (max x.exponentField 1 : Nat) - 1075

/-- The magnitude as a quotient of natural numbers. -/
def magnitude (x : Binary64) : Nat × Nat :=
  if 0 ≤ x.exponent then (x.significand * Nat.pow 2 x.exponent.toNat, 1)
  else (x.significand, Nat.pow 2 (-x.exponent).toNat)

/-- Puts a sign in front of the bits of a magnitude. -/
def withSign (negative : Bool) (magnitudeBits : Nat) : Binary64 :=
  ⟨UInt64.ofNat (if negative then Nat.pow 2 63 + magnitudeBits else magnitudeBits)⟩

/-- Bits of positive infinity, the largest bits a magnitude has. -/
def infinityBits : Nat := 2047 * Nat.pow 2 52

/-- Infinity of the given sign. -/
def infinity (negative : Bool) : Binary64 := withSign negative infinityBits

/-- Zero of the given sign. -/
def zero (negative : Bool) : Binary64 := withSign negative 0

/-- The quiet not-a-number. -/
def nan : Binary64 := ⟨0x7ff8000000000000⟩

/-- The number with the other sign. -/
def neg (x : Binary64) : Binary64 := ⟨x.bits ^^^ 0x8000000000000000⟩

/-- A quotient rounded to the nearest natural number, a tie to the even one. -/
def roundDiv (num den : Nat) : Nat :=
  let q := num / den
  let twice := 2 * (num % den)
  if twice > den || (twice == den && q % 2 == 1) then q + 1 else q

/-- The number nearest to `± num / den`, a tie going to the even significand.

The significand is the rounded quotient at a scale that leaves 53 bits, or fewer at the smallest
scale. Its bits are added to those of the scale, so a significand that rounds up to 54 bits
carries into the exponent by itself. -/
def ofRatio (negative : Bool) (num den : Nat) : Binary64 :=
  if num = 0 then zero negative
  else
    let guess : Int := (num.log2 : Int) - (den.log2 : Int) - 52
    let small : Bool :=
      if 0 ≤ guess then num < den * Nat.pow 2 (guess.toNat + 52)
      else num * Nat.pow 2 (-guess).toNat < den * Nat.pow 2 52
    let scale : Int := max (if small then guess - 1 else guess) (-1074)
    let m :=
      if 0 ≤ scale then roundDiv num (den * Nat.pow 2 scale.toNat)
      else roundDiv (num * Nat.pow 2 (-scale).toNat) den
    withSign negative (min (m + (scale + 1074).toNat * Nat.pow 2 52) infinityBits)

/-- The signed integer significand over the common scale `2 ^ exponent`. -/
def signedSignificand (x : Binary64) : Int :=
  if x.negative then -(x.significand : Int) else x.significand

/-- The number equals the integer exactly. -/
def eqInt (x : Binary64) (n : Int) : Bool :=
  x.exponentField != 2047 &&
    (if 0 ≤ x.exponent then x.signedSignificand * Nat.pow 2 x.exponent.toNat == n
     else x.signedSignificand == n * Nat.pow 2 (-x.exponent).toNat)

/-- The two numbers are equal: zeros of both signs are, nothing equals a not-a-number. -/
def eq (x y : Binary64) : Bool :=
  !x.isNaN && !y.isNaN && (x.bits == y.bits || (x.isZero && y.isZero))

/-- The number is smaller than the integer. -/
def lessInt (x : Binary64) (n : Int) : Bool :=
  if x.exponentField = 2047 then x.isInfinite && x.negative
  else if 0 ≤ x.exponent then x.signedSignificand * Nat.pow 2 x.exponent.toNat < n
  else x.signedSignificand < n * Nat.pow 2 (-x.exponent).toNat

/-- The number is greater than the integer. -/
def greaterInt (x : Binary64) (n : Int) : Bool :=
  if x.exponentField = 2047 then x.isInfinite && !x.negative
  else if 0 ≤ x.exponent then n < x.signedSignificand * Nat.pow 2 x.exponent.toNat
  else n * Nat.pow 2 (-x.exponent).toNat < x.signedSignificand

/-- The first number is smaller than the second; nothing is smaller or greater than a
not-a-number. -/
def less (x y : Binary64) : Bool :=
  if x.isNaN || y.isNaN then false
  else if x.isInfinite then x.negative && !(y.isInfinite && y.negative)
  else if y.isInfinite then !y.negative
  else
    let scale := min x.exponent y.exponent
    x.signedSignificand * Nat.pow 2 (x.exponent - scale).toNat <
      y.signedSignificand * Nat.pow 2 (y.exponent - scale).toNat

/-- The rounded product with a natural number. -/
def mulNat (x : Binary64) (n : Nat) : Binary64 :=
  if x.isNaN then x
  else if x.isInfinite then (if n = 0 then nan else x)
  else
    let (num, den) := x.magnitude
    ofRatio x.negative (num * n) den

/-- The rounded sum. -/
def add (x y : Binary64) : Binary64 :=
  if x.isNaN || y.isNaN then nan
  else if x.isInfinite then (if y.isInfinite && x.negative != y.negative then nan else x)
  else if y.isInfinite then y
  else
    let scale := min x.exponent y.exponent
    let total :=
      x.signedSignificand * Nat.pow 2 (x.exponent - scale).toNat +
        y.signedSignificand * Nat.pow 2 (y.exponent - scale).toNat
    if total = 0 then zero (x.negative && y.negative)
    else if 0 ≤ scale then ofRatio (total < 0) (total.natAbs * Nat.pow 2 scale.toNat) 1
    else ofRatio (total < 0) total.natAbs (Nat.pow 2 (-scale).toNat)

end Binary64

end ScopedFn
