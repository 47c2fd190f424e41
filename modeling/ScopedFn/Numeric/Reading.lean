import ScopedFn.Numeric.Shortest
import ScopedFn.Text.Blank
import ScopedFn.Text.Digit

/-!
# Reading numbers

Integers and decimal numbers from text.

* `readInt?` reads an optional sign, an optional mark of the base (`0b`, `0o`, `0x`) and digits;
* `readBinary64?` reads an optional sign and a decimal number, or the name of an infinity or of
  a not-a-number.

Blank characters around the number are skipped, and decimal digits of any script count.
-/

set_option autoImplicit false

namespace ScopedFn

namespace Numeric

/-- Blank characters that may stand around a number: all but the information separators. -/
def isMargin (c : Char) : Bool := Text.isBlank c && !(0x1c ≤ c.toNat && c.toNat ≤ 0x1f)

/-- The text without the margins. -/
def trimMargins (cs : List Char) : List Char :=
  ((cs.dropWhile isMargin).reverse.dropWhile isMargin).reverse

/-- Takes an optional sign off; `true` is minus. -/
def takeSign : List Char → Bool × List Char
  | '-' :: cs => (true, cs)
  | '+' :: cs => (false, cs)
  | cs => (false, cs)

/-- The number with these digits in a base, most significant first. -/
def natOfDigits? (base : Nat) (cs : List Char) : Option Nat :=
  cs.foldlM (fun n c => (Text.digitValue? base c).map (n * base + ·)) 0

/-- The letters that mark a base after a leading zero. -/
def baseLetters (base : Nat) : List Char :=
  if base = 2 then ['b', 'B'] else if base = 8 then ['o', 'O']
  else if base = 16 then ['x', 'X'] else []

/-- Takes the mark of a base off, if there is one. -/
def takeBaseMark (base : Nat) : List Char → List Char
  | '0' :: c :: cs => if (baseLetters base).contains c then cs else '0' :: c :: cs
  | cs => cs

/-- The most digits a decimal integer is read or written with. -/
def decimalDigitLimit : Nat := 4300

/-- An integer in a base; decimal ones have a limited number of digits. -/
def readInt? (base : Nat) (cs : List Char) : Option Int :=
  let (negative, rest) := takeSign (trimMargins cs)
  let digits := takeBaseMark base rest
  if digits.isEmpty || (base == 10 && digits.length > decimalDigitLimit) then none
  else (natOfDigits? base digits).map fun n => if negative then -(n : Int) else (n : Int)

/-- The decimal digits that a text begins with, and the rest. -/
def spanDigits (cs : List Char) : List Char × List Char :=
  cs.span fun c => (Text.decimalValue? c).isSome

/-- The number nearest to `± digits · 10 ^ power`. -/
def ofDecimal (negative : Bool) (digits : Nat) (power : Int) : Binary64 :=
  let top := power + Binary64.digitCount digits
  if digits = 0 || top < -400 then Binary64.zero negative
  else if 400 < top then Binary64.infinity negative
  else if 0 ≤ power then Binary64.ofRatio negative (digits * Nat.pow 10 power.toNat) 1
  else Binary64.ofRatio negative digits (Nat.pow 10 (-power).toNat)

/-- The exponent part of a decimal number, zero if there is none. -/
def readExponent? : List Char → Option Int
  | [] => some 0
  | c :: cs =>
    if c == 'e' || c == 'E' then
      let (negative, digits) := takeSign cs
      if digits.isEmpty || digits.any (fun d => (Text.decimalValue? d).isNone) then none
      else (natOfDigits? 10 digits).map fun n => if negative then -(n : Int) else (n : Int)
    else none

/-- A decimal number without sign. -/
def readDecimal? (negative : Bool) (cs : List Char) : Option Binary64 :=
  let (whole, rest) := spanDigits cs
  let (fraction, rest) :=
    match rest with
    | '.' :: cs => spanDigits cs
    | cs => ([], cs)
  if whole.isEmpty && fraction.isEmpty then none
  else do
    let digits ← natOfDigits? 10 (whole ++ fraction)
    let power ← readExponent? rest
    return ofDecimal negative digits (power - fraction.length)

/-- A decimal number, an infinity or a not-a-number. -/
def readBinary64? (cs : List Char) : Option Binary64 :=
  let (negative, rest) := takeSign (trimMargins cs)
  let word := String.ofList (rest.map Char.toLower)
  if word == "inf" || word == "infinity" then some (Binary64.infinity negative)
  else if word == "nan" then some Binary64.nan
  else readDecimal? negative rest

end Numeric

end ScopedFn
