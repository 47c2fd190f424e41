import ScopedFn.Calendar
import ScopedFn.Numeric.Reading

/-!
# Timestamps

The text form of days and times in documents: `2001-12-14`, or a day and a time separated by
`T`, `t` or blanks, with an optional fraction of the second and an optional zone.

* `Timestamp.read?` recognises the form, whether or not the day and time exist;
* `Timestamp.isCanonicalDay` says that month and day have two digits each, as a day on its own
  needs if it is to be recognised without a tag.
-/

set_option autoImplicit false

namespace ScopedFn.Yaml

/-- The time of a timestamp. -/
structure Clock where
  /-- Hours. -/
  hour : Nat
  /-- Minutes. -/
  minute : Nat
  /-- Seconds. -/
  second : Nat
  /-- Microseconds. -/
  micro : Nat
  /-- Offset from universal time in minutes. -/
  zone : Option Int

/-- The parts of a timestamp. -/
structure Timestamp where
  /-- Year. -/
  year : Nat
  /-- Month. -/
  month : Nat
  /-- Day of the month. -/
  day : Nat
  /-- Month and day have two digits each. -/
  isCanonicalDay : Bool
  /-- The time, if there is one. -/
  clock : Option Clock

namespace Timestamp

/-- An ASCII decimal digit. -/
def isDigit (c : Char) : Bool := '0' ≤ c && c ≤ '9'

/-- A blank between the parts of a timestamp. -/
def isGap (c : Char) : Bool := c == ' ' || c == '\t'

/-- The number that ASCII digits denote. -/
def valueOf (digits : List Char) : Nat :=
  digits.foldl (fun n c => n * 10 + (c.toNat - '0'.toNat)) 0

/-- Takes up to `most` digits, at least `least`. -/
def digits? (least most : Nat) (cs : List Char) : Option (List Char × List Char) :=
  let digits := (cs.takeWhile isDigit).take most
  if least ≤ digits.length then some (digits, cs.drop digits.length) else none

/-- Takes one given character. -/
def mark? (c : Char) : List Char → Option (List Char)
  | d :: cs => if d = c then some cs else none
  | [] => none

/-- The first six digits of a fraction, as microseconds. -/
def microOf (fraction : List Char) : Nat :=
  let six := fraction.take 6
  valueOf (six ++ List.replicate (6 - six.length) '0')

/-- A zone up to the end of the text: none, `Z`, or hours and minutes with a sign. -/
def zone? (cs : List Char) : Option (Option Int) :=
  match cs, cs.dropWhile isGap with
  | [], _ => some none
  | _, ['Z'] => some (some 0)
  | _, sign :: rest =>
    if sign == '+' || sign == '-' then do
      let (hours, rest) ← digits? 1 2 rest
      let minutes ←
        match rest with
        | [] => some []
        | _ => do
          let (minutes, rest) ← digits? 2 2 (← mark? ':' rest)
          if rest.isEmpty then some minutes else none
      let total : Int := valueOf hours * 60 + valueOf minutes
      return some (if sign == '-' then -total else total)
    else none
  | _, [] => none

/-- A time and its zone up to the end of the text. -/
def clock? (cs : List Char) : Option Clock := do
  let (hour, cs) ← digits? 1 2 cs
  let (minute, cs) ← digits? 2 2 (← mark? ':' cs)
  let (second, cs) ← digits? 2 2 (← mark? ':' cs)
  let (fraction, cs) :=
    match cs with
    | '.' :: rest => (rest.takeWhile isDigit, rest.dropWhile isDigit)
    | _ => ([], cs)
  let zone ← zone? cs
  return ⟨valueOf hour, valueOf minute, valueOf second, microOf fraction, zone⟩

/-- The time after a day: absent at the end of the text, otherwise behind a separator. -/
def clockAfterDay? : List Char → Option (Option Clock)
  | [] => some none
  | c :: cs =>
    if c == 'T' || c == 't' then (clock? cs).map some
    else if isGap c then (clock? (cs.dropWhile isGap)).map some
    else none

/-- Recognises a timestamp. -/
def read? (cs : List Char) : Option Timestamp := do
  let (year, cs) ← digits? 4 4 cs
  let (month, cs) ← digits? 1 2 (← mark? '-' cs)
  let (day, cs) ← digits? 1 2 (← mark? '-' cs)
  let clock ← clockAfterDay? cs
  return {
    year := valueOf year
    month := valueOf month
    day := valueOf day
    isCanonicalDay := month.length == 2 && day.length == 2
    clock := clock }

end Timestamp

end ScopedFn.Yaml
