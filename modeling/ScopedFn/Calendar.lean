import ScopedFn.Text.Padded

/-!
# Dates and times

Days of the Gregorian calendar in the years 1 to 9999, and times on them.

* `Date` and `DateTime` hold only days and times that exist; `ofParts?` checks the parts;
* `DateTime.sameInstant` compares times: two with an offset by the instant they denote, two
  without an offset by their parts, and never one with the other;
* `text` writes the year first, with hyphens and colons, and leaves out a fraction of zero.
-/

set_option autoImplicit false

namespace ScopedFn

/-- Every fourth year is a leap year, of the full centuries every fourth. -/
def isLeapYear (year : Nat) : Bool :=
  year % 4 == 0 && (year % 100 != 0 || year % 400 == 0)

/-- Days of a month. -/
def daysInMonth (year month : Nat) : Nat :=
  if month = 2 then (if isLeapYear year then 29 else 28)
  else if month = 4 ∨ month = 6 ∨ month = 9 ∨ month = 11 then 30
  else 31

/-- A day of the calendar. -/
structure Date where
  /-- Year, 1 to 9999. -/
  year : Nat
  /-- Month, 1 to 12. -/
  month : Nat
  /-- Day of the month, from 1. -/
  day : Nat
  /-- The day exists. -/
  exists_day : 1 ≤ year ∧ year ≤ 9999 ∧ 1 ≤ month ∧ month ≤ 12 ∧
    1 ≤ day ∧ day ≤ daysInMonth year month
  deriving DecidableEq, Repr

namespace Date

/-- The day with these parts, if it exists. -/
def ofParts? (year month day : Nat) : Option Date :=
  if h : 1 ≤ year ∧ year ≤ 9999 ∧ 1 ≤ month ∧ month ≤ 12 ∧
      1 ≤ day ∧ day ≤ daysInMonth year month then
    some ⟨year, month, day, h⟩
  else none

instance : Inhabited Date := ⟨⟨1, 1, 1, by decide⟩⟩

/-- `YYYY-MM-DD`. -/
def text (d : Date) : String :=
  Text.padded 4 d.year ++ "-" ++ Text.padded 2 d.month ++ "-" ++ Text.padded 2 d.day

/-- Days since the last day before year one. -/
def dayNumber (d : Date) : Nat :=
  let y := d.year - 1
  let monthDays := (List.range (d.month - 1)).map fun m => daysInMonth d.year (m + 1)
  y * 365 + y / 4 - y / 100 + y / 400 + monthDays.foldl (· + ·) 0 + d.day

end Date

/-- Seconds in a day. -/
def secondsPerDay : Nat := 86400

/-- A time on a day, possibly with its offset from universal time. -/
structure DateTime where
  /-- The day. -/
  date : Date
  /-- Hour, below 24. -/
  hour : Nat
  /-- Minute, below 60. -/
  minute : Nat
  /-- Second, below 60. -/
  second : Nat
  /-- Microsecond. -/
  micro : Nat
  /-- Seconds ahead of universal time, less than a day either way. -/
  offset : Option Int
  /-- The time exists. -/
  exists_time : hour < 24 ∧ minute < 60 ∧ second < 60 ∧ micro < 1000000 ∧
    ∀ o ∈ offset, o.natAbs < secondsPerDay
  deriving DecidableEq, Repr

namespace DateTime

/-- The time with these parts, if it exists. -/
def ofParts? (date : Date) (hour minute second micro : Nat) (offset : Option Int) :
    Option DateTime :=
  if h : hour < 24 ∧ minute < 60 ∧ second < 60 ∧ micro < 1000000 ∧
      ∀ o ∈ offset, o.natAbs < secondsPerDay then
    some ⟨date, hour, minute, second, micro, offset, h⟩
  else none

/-- Microseconds since the last day before year one, on the clock of the time itself. -/
def clock (t : DateTime) : Int :=
  let seconds := t.date.dayNumber * secondsPerDay + t.hour * 3600 + t.minute * 60 + t.second
  ((seconds * 1000000 + t.micro : Nat) : Int)

/-- The two times are the same: as instants if both have an offset, as clock times if neither
has. -/
def sameInstant (t u : DateTime) : Bool :=
  match t.offset, u.offset with
  | none, none => t.clock == u.clock
  | some o, some p => t.clock - o * 1000000 == u.clock - p * 1000000
  | _, _ => false

/-- An offset as `+HH:MM`, with seconds only if there are some. -/
def offsetText (o : Int) : String :=
  let n := o.natAbs
  (if o < 0 then "-" else "+") ++ Text.padded 2 (n / 3600) ++ ":" ++
    Text.padded 2 (n / 60 % 60) ++
    (if n % 60 = 0 then "" else ":" ++ Text.padded 2 (n % 60))

/-- Day and time with the given text between them. -/
def text (separator : String) (t : DateTime) : String :=
  t.date.text ++ separator ++ Text.padded 2 t.hour ++ ":" ++ Text.padded 2 t.minute ++
    ":" ++ Text.padded 2 t.second ++
    (if t.micro = 0 then "" else "." ++ Text.padded 6 t.micro) ++
    (match t.offset with
      | none => ""
      | some o => offsetText o)

end DateTime

end ScopedFn
