/-!
# Padded digits

Digits of natural numbers, filled up with zeros in front to a least width.
-/

set_option autoImplicit false

namespace ScopedFn.Text

/-- The digits of a number in a base up to sixteen, at least `width` of them. -/
def digitsPadded (base width n : Nat) : List Char :=
  let digits := Nat.toDigits base n
  List.replicate (width - digits.length) '0' ++ digits

/-- The decimal text of a number, at least `width` digits long. -/
def padded (width n : Nat) : String := String.ofList (digitsPadded 10 width n)

end ScopedFn.Text
