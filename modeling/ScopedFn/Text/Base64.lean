/-!
# Base64

Bytes as text of the alphabet `A–Z a–z 0–9 + /`, three bytes in four characters.

* `encode` breaks the text into lines of 76 characters, each ended by a line feed;
* `decode?` skips characters outside the alphabet, stops at a complete padding, and refuses a
  text whose last group is incomplete.
-/

set_option autoImplicit false

namespace ScopedFn.Text.Base64

/-- The character of a six-bit number. -/
def letter (n : Nat) : Char :=
  if n < 26 then Char.ofNat ('A'.toNat + n)
  else if n < 52 then Char.ofNat ('a'.toNat + (n - 26))
  else if n < 62 then Char.ofNat ('0'.toNat + (n - 52))
  else if n = 62 then '+'
  else '/'

/-- The six-bit number of a character. -/
def sextet? (c : Char) : Option Nat :=
  if 'A' ≤ c ∧ c ≤ 'Z' then some (c.toNat - 'A'.toNat)
  else if 'a' ≤ c ∧ c ≤ 'z' then some (c.toNat - 'a'.toNat + 26)
  else if '0' ≤ c ∧ c ≤ '9' then some (c.toNat - '0'.toNat + 52)
  else if c = '+' then some 62
  else if c = '/' then some 63
  else none

/-- The characters of a run of bytes, without line breaks. -/
def letters : List UInt8 → List Char
  | [] => []
  | [a] =>
    let n := a.toNat * 16
    [letter (n / 64), letter (n % 64), '=', '=']
  | [a, b] =>
    let n := (a.toNat * 256 + b.toNat) * 4
    [letter (n / 4096), letter (n / 64 % 64), letter (n % 64), '=']
  | a :: b :: c :: rest =>
    let n := (a.toNat * 256 + b.toNat) * 256 + c.toNat
    letter (n / 262144) :: letter (n / 4096 % 64) :: letter (n / 64 % 64) :: letter (n % 64) ::
      letters rest

/-- The bytes of one line: 57 bytes are 76 characters. -/
def lineBytes : Nat := 57

/-- Lines of 76 characters, each ended by a line feed; no bytes are no line. -/
def encode (bytes : List UInt8) : List Char :=
  if _h : bytes = [] then []
  else letters (bytes.take lineBytes) ++ '\n' :: encode (bytes.drop lineBytes)
termination_by bytes.length
decreasing_by
  have : bytes.length ≠ 0 := by simpa using _h
  simp [lineBytes]
  omega

/-- What has been read of the current group of four characters. -/
structure Group where
  /-- How many characters of the alphabet it has. -/
  count : Nat
  /-- The bits that belong to no byte yet. -/
  left : Nat
  /-- Padding characters in a row. -/
  pads : Nat

/-- Reads the rest of a text; `none` if its last group is incomplete. -/
def decodeFrom? (g : Group) : List Char → Option (List UInt8)
  | [] => if g.count = 0 then some [] else none
  | c :: cs =>
    if c = '=' then
      if 2 ≤ g.count then
        if 4 ≤ g.count + (g.pads + 1) then some []
        else decodeFrom? { g with pads := g.pads + 1 } cs
      else decodeFrom? g cs
    else
      match sextet? c with
      | none => decodeFrom? g cs
      | some n =>
        match g.count with
        | 0 => decodeFrom? ⟨1, n, 0⟩ cs
        | 1 => (decodeFrom? ⟨2, n % 16, 0⟩ cs).map (UInt8.ofNat (g.left * 4 + n / 16) :: ·)
        | 2 => (decodeFrom? ⟨3, n % 4, 0⟩ cs).map (UInt8.ofNat (g.left * 16 + n / 4) :: ·)
        | _ => (decodeFrom? ⟨0, 0, 0⟩ cs).map (UInt8.ofNat (g.left * 64 + n) :: ·)

/-- The bytes of a text. -/
def decode? (cs : List Char) : Option (List UInt8) := decodeFrom? ⟨0, 0, 0⟩ cs

end ScopedFn.Text.Base64
