/-!
# Surrogates

The numbers from D800 to DFFF are no characters. Two of them in a row, a surrogate pair, stand for
one character; but an escape sequence can write one alone. A text of characters cannot hold it, so a
stand-in takes its place, one of the last private characters.

Where a text writes surrogates and those last characters, too, the two cannot be told apart;
`escapesSurrogate` and `mentionsStandIn` find out.
-/

set_option autoImplicit false

namespace ScopedFn.Text

/-- The number of the first surrogate. -/
def firstSurrogate : Nat := 0xd800

/-- The number of the first stand-in; there are no characters behind the last one. -/
def firstStandIn : Nat := 0x10f800

/-- The number is a surrogate. -/
def isSurrogate (n : Nat) : Bool := firstSurrogate ≤ n && n ≤ 0xdfff

/-- The character with a number, the stand-in of a surrogate. -/
def charOf (n : Nat) : Char :=
  Char.ofNat (if isSurrogate n then firstStandIn + (n - firstSurrogate) else n)

/-- The character stands for a surrogate, unless it is one of the last private characters itself. -/
def isStandIn (c : Char) : Bool := firstStandIn ≤ c.toNat

/-- The surrogate that a stand-in stands for. -/
def surrogateOf (c : Char) : Nat := firstSurrogate + (c.toNat - firstStandIn)

/-- The text begins with some characters, the letters in lower or upper case. -/
def beginsWith : List (List Char) → List Char → Bool
  | [], _ => true
  | _ :: _, [] => false
  | choice :: choices, c :: cs => choice.contains c && beginsWith choices cs

/-- What the escape sequences for surrogates begin with. -/
def surrogateEscapes : List (List (List Char)) :=
  let half := ["dD".toList, "89abcdefABCDEF".toList]
  [['\\'] :: ['u'] :: half, ['\\'] :: ['U'] :: ['0'] :: ['0'] :: ['0'] :: ['0'] :: half]

/-- What the escape sequences for stand-ins begin with, or for the first half of one. -/
def standInEscapes : List (List (List Char)) :=
  [[['\\'], ['u'], "dD".toList, "bB".toList, "fF".toList, "efEF".toList],
    [['\\'], ['U'], ['0'], ['0'], ['1'], ['0'], "fF".toList, "89abcdefABCDEF".toList]]

/-- One of the escape sequences begins somewhere in the text. -/
def holdsEscape (escapes : List (List (List Char))) : List Char → Bool
  | [] => false
  | c :: cs => escapes.any (fun escape => beginsWith escape (c :: cs)) || holdsEscape escapes cs

/-- Somewhere in the text stands an escape sequence for a surrogate, alone or as half of a pair. -/
def escapesSurrogate (cs : List Char) : Bool := holdsEscape surrogateEscapes cs

/-- The text holds one of the characters that are stand-ins, or an escape sequence for one. -/
def mentionsStandIn (cs : List Char) : Bool := cs.any isStandIn || holdsEscape standInEscapes cs

end ScopedFn.Text
