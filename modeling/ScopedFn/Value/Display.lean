import ScopedFn.Numeric.Reading
import ScopedFn.Text.Quoted
import ScopedFn.Value.Basic

/-!
# Display of values

The text of a value in messages and in fields that want text.

* `Value.quoted` shows a value as it stands inside another one: texts in quotation marks, lists
  in brackets, maps in braces;
* `Value.display` shows a value on its own: a text as itself, a date as its digits;
* `Value.shown` is the text that is given of a value. An integer of more than 4300 digits is given
  as no text, nor is what holds one, and what wants the text fails with a `TextFault`.
-/

set_option autoImplicit false

namespace ScopedFn

/-- Numbers are shown positionally from 0.0001 up to sixteen digits before the point, and with
an exponent of two digits at least beyond that. -/
def displayLayout : Binary64.Layout where
  leastPositional := -4
  firstScientific := 16
  pointInScientific := false
  exponentWidth := 2
  infinityText := "inf"
  nanText := "nan"

/-- Texts with a separator between them. -/
def commaSeparated (ts : List String) : String := ", ".intercalate ts

/-- An offset from universal time as a span of whole days and seconds. -/
def quotedOffset (o : Int) : String :=
  if o = 0 then "datetime.timezone.utc"
  else
    let days := o.fdiv secondsPerDay
    let seconds := o.fmod secondsPerDay
    let parts :=
      (if days = 0 then [] else ["days=" ++ toString days]) ++
        (if seconds = 0 then [] else ["seconds=" ++ toString seconds])
    "datetime.timezone(datetime.timedelta(" ++ commaSeparated parts ++ "))"

/-- A time by its parts; seconds and microseconds only as far as they are not zero. -/
def quotedDateTime (t : DateTime) : String :=
  let fraction := if t.micro = 0 then [] else [t.micro]
  let seconds := if t.second = 0 ∧ t.micro = 0 then [] else t.second :: fraction
  let parts := [t.date.year, t.date.month, t.date.day, t.hour, t.minute] ++ seconds
  let offset :=
    match t.offset with
    | none => []
    | some o => ["tzinfo=" ++ quotedOffset o]
  "datetime.datetime(" ++ commaSeparated (parts.map (fun (n : Nat) => toString n) ++ offset) ++ ")"

/-- A tuple by the texts of its items. -/
def quotedTuple : List String → String
  | [t] => "(" ++ t ++ ",)"
  | ts => "(" ++ commaSeparated ts ++ ")"

namespace Atom

mutual

/-- An atom as it stands inside a composite value. -/
def quoted : Atom → String
  | .null => "None"
  | .bool true => "True"
  | .bool false => "False"
  | .int n => toString n
  | .float x => x.text displayLayout
  | .nan _ => displayLayout.nanText
  | .text s => Text.quoted s
  | .torn s => Text.quotedTorn s
  | .bytes b => Text.quotedBytes b
  | .date _ d =>
    "datetime.date(" ++
      commaSeparated ([d.year, d.month, d.day].map fun (n : Nat) => toString n) ++ ")"
  | .dateTime _ t => quotedDateTime t
  | .foreign _ => "<object object>"
  | .enclosing _ isList => if isList then "[...]" else "\x7b...\x7d"
  | .tuple _ items => quotedTuple (quotedAll items)

/-- Several atoms as they stand inside a composite value. -/
def quotedAll : List Atom → List String
  | [] => []
  | a :: as => quoted a :: quotedAll as

end

/-- An atom on its own. -/
def display : Atom → String
  | .text s | .torn s => s
  | .date _ d => d.text
  | .dateTime _ t => t.text " "
  | a => a.quoted

end Atom

namespace Value

mutual

/-- A value as it stands inside a composite value. -/
def quoted : Value → String
  | .atom a => a.quoted
  | .list _ items => "[" ++ commaSeparated (quotedItems items) ++ "]"
  | .tuple _ items => quotedTuple (quotedItems items)
  | .map _ es => "\x7b" ++ commaSeparated (quotedEntries es) ++ "\x7d"
  | .set _ ms =>
    if ms.isEmpty then "set()" else "\x7b" ++ commaSeparated (Atom.quotedAll ms) ++ "\x7d"

/-- The items of a list. -/
def quotedItems : List Value → List String
  | [] => []
  | v :: vs => quoted v :: quotedItems vs

/-- The entries of a map. -/
def quotedEntries : List (Atom × Value) → List String
  | [] => []
  | (k, v) :: es => (k.quoted ++ ": " ++ quoted v) :: quotedEntries es

end

/-- A value on its own. -/
def display : Value → String
  | .atom a => a.display
  | v => v.quoted

/-- A value as a text field: what is not filled is the empty text. -/
def displayFilled (v : Value) : String := if v.isFilled then v.display else ""

end Value

/-! ### Texts that are given -/

/-- Why a value is given as no text. -/
inductive TextFault where
  /-- It holds an integer with too many digits. -/
  | numberTooLong
  deriving DecidableEq, Repr

/-- A fault of its own kind, or a value that is given as no text. -/
inductive OrNoText (ε : Type) where
  /-- The fault. -/
  | fault (e : ε)
  /-- A text is wanted of a value that is given as none. -/
  | noText (cause : TextFault)
  deriving DecidableEq, Repr

/-- The same with another fault of its own kind. -/
def OrNoText.map {ε ε' : Type} (f : ε → ε') : OrNoText ε → OrNoText ε'
  | .fault e => .fault (f e)
  | .noText cause => .noText cause

namespace Atom

mutual

/-- Why the atom is given as no text, if it is not. -/
def textFault? : Atom → Option TextFault
  | .int n => if n.natAbs < Nat.pow 10 Numeric.decimalDigitLimit then none else some .numberTooLong
  | .tuple _ items => textFaultIn? items
  | _ => none

/-- Why one of the atoms is given as no text. -/
def textFaultIn? : List Atom → Option TextFault
  | [] => none
  | a :: as => (textFault? a).or (textFaultIn? as)

end

/-- A text that is made of an atom, if the atom is given as text. -/
def orTextFault (a : Atom) (text : String) : Except TextFault String :=
  match a.textFault? with
  | some fault => .error fault
  | none => .ok text

/-- The text of an atom on its own. -/
def shown (a : Atom) : Except TextFault String := a.orTextFault a.display

/-- The text of an atom inside a composite value. -/
def shownInside (a : Atom) : Except TextFault String := a.orTextFault a.quoted

end Atom

namespace Value

mutual

/-- Why the value is given as no text, if it is not. -/
def textFault? : Value → Option TextFault
  | .atom a => a.textFault?
  | .list _ items | .tuple _ items => textFaultIn? items
  | .map _ es => textFaultInEntries? es
  | .set _ ms => Atom.textFaultIn? ms

/-- Why one of the items is given as no text. -/
def textFaultIn? : List Value → Option TextFault
  | [] => none
  | v :: vs => (textFault? v).or (textFaultIn? vs)

/-- Why one of the keys and values is given as no text. -/
def textFaultInEntries? : List (Atom × Value) → Option TextFault
  | [] => none
  | (k, v) :: es => (k.textFault?.or (textFault? v)).or (textFaultInEntries? es)

end

/-- A text that is made of a value, if the value is given as text. -/
def orTextFault (v : Value) (text : String) : Except TextFault String :=
  match v.textFault? with
  | some fault => .error fault
  | none => .ok text

/-- The text of a value on its own. -/
def shown (v : Value) : Except TextFault String := v.orTextFault v.display

/-- The text of a value inside a composite value. -/
def shownInside (v : Value) : Except TextFault String := v.orTextFault v.quoted

/-- The text of a field: what is not filled gives the empty text. -/
def shownFilled (v : Value) : Except TextFault String := if v.isFilled then v.shown else .ok ""

end Value

end ScopedFn
