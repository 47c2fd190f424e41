import ScopedFn.Numeric.Reading
import ScopedFn.Value.Display
import ScopedFn.Value.Torn

/-!
# Canonical JSON

One text for each value that JSON can express: keys in order, no blanks, all characters but
control characters, quotation marks and backslashes as themselves.

* Keys are texts, numbers, truth values or null, and are written as texts. They are ordered before
  that, texts by code points and numbers by value, so the keys of a map must be of one of these
  sorts;
* `canonical` gives the text.
-/

set_option autoImplicit false

namespace ScopedFn.Json

/-- Why a value has no canonical text. -/
inductive Fault where
  /-- The keys of a map cannot be ordered. -/
  | unorderedKeys
  /-- A key or value that JSON cannot express. -/
  | inexpressible
  /-- An integer has too many digits. -/
  | numberTooLong
  /-- A list or map contains itself. -/
  | circular
  /-- A text holds half of a surrogate pair, which has no bytes. -/
  | unpaired
  deriving DecidableEq, Repr

/-- Numbers are written like displayed ones, with other names for what is no number. -/
def numberLayout : Binary64.Layout :=
  { displayLayout with infinityText := "Infinity", nanText := "NaN" }

/-- A character between quotation marks. -/
def quoteChar (c : Char) : List Char :=
  if c == '"' || c == '\\' then ['\\', c]
  else if c == '\n' then ['\\', 'n']
  else if c == '\r' then ['\\', 'r']
  else if c == '\t' then ['\\', 't']
  else if c == '\x0c' then ['\\', 'f']
  else if c == '\x08' then ['\\', 'b']
  else if c.toNat < 0x20 then '\\' :: 'u' :: Text.digitsPadded 16 4 c.toNat
  else [c]

/-- A text in quotation marks. -/
def quote (cs : List Char) : List Char := '"' :: cs.flatMap quoteChar ++ ['"']

/-- The text of an integer. -/
def integer (n : Int) : Except Fault (List Char) :=
  let digits := (toString n).toList
  if digits.length ≤ Numeric.decimalDigitLimit + (if n < 0 then 1 else 0) then .ok digits
  else .error .numberTooLong

/-- The text of an atom other than a text; keys and values share it. -/
def plainAtom : Atom → Except Fault (List Char)
  | .null => .ok "null".toList
  | .bool b => .ok (if b then "true" else "false").toList
  | .int n => integer n
  | .float x => .ok (x.text numberLayout).toList
  | .nan _ => .ok numberLayout.nanText.toList
  | .text s => .ok s.toList
  | .torn _ => .error .unpaired
  | .enclosing _ _ => .error .circular
  | .bytes _ | .date _ _ | .dateTime _ _ | .foreign _ | .tuple _ _ => .error .inexpressible

/-- The text of an atom. -/
def atom : Atom → Except Fault (List Char)
  | .text s => .ok (quote s.toList)
  | a => plainAtom a

/-- A number of any sort. -/
def isNumber : Atom → Bool
  | .bool _ | .int _ | .float _ | .nan _ => true
  | _ => false

/-- A text. -/
def isText : Atom → Bool
  | .text _ | .torn _ => true
  | _ => false

/-- The code points of a text. -/
def codePoints? : Atom → Option (List Nat)
  | .text s => some (s.toList.map Char.toNat)
  | .torn s => some (s.toList.map fun c => if Text.isStandIn c then Text.surrogateOf c else c.toNat)
  | _ => none

/-- The first number is smaller than the second. -/
def numberLess (a b : Atom) : Bool :=
  match a, b with
  | .float x, .float y => x.less y
  | .float x, b => b.integer?.any x.lessInt
  | a, .float y => a.integer?.any y.greaterInt
  | a, b =>
    match a.integer?, b.integer? with
    | some m, some n => m < n
    | _, _ => false

/-- The first key comes before the second. -/
def keyLess : Atom → Atom → Bool
  | .text s, .text t => s < t
  | a, b =>
    match codePoints? a, codePoints? b with
    | some s, some t => s < t
    | _, _ => numberLess a b

/-- The keys can be ordered: one alone, or several of one sort. -/
def areOrdered (keys : List Atom) : Bool :=
  keys.length ≤ 1 || keys.all isText || keys.all isNumber

/-- The entries by their keys; equal places keep their order. Three or more numbers of which one is
not-a-number are not ordered by `keyLess`, and how they are sorted depends on the algorithm. -/
def sortByKey {α : Type} (es : List (Atom × α)) : List (Atom × α) :=
  es.mergeSort fun a b => !keyLess b.1 a.1

/-- Texts with commas between them. -/
def commas (ts : List (List Char)) : List Char := [','].intercalate ts

/-- The text of a map whose values are given as texts, if they have one. -/
def object (es : List (Atom × Except Fault (List Char))) : Except Fault (List Char) := do
  let parts ← (sortByKey es).mapM fun (k, v) => do return quote (← plainAtom k) ++ ':' :: (← v)
  return '\x7b' :: commas parts ++ ['\x7d']

mutual

/-- The characters of the canonical text. -/
def chars : Value → Except Fault (List Char)
  | .atom a => atom a
  | .list _ items | .tuple _ items => do return '[' :: commas (← charsOfItems items) ++ [']']
  | .map _ es => do
    if !areOrdered (es.map (·.1)) then throw .unorderedKeys
    object (charsOfEntries es)
  | .set _ _ => .error .inexpressible

/-- The texts of a list's items. -/
def charsOfItems : List Value → Except Fault (List (List Char))
  | [] => .ok []
  | v :: vs => do return (← chars v) :: (← charsOfItems vs)

/-- The texts of a map's values. -/
def charsOfEntries : List (Atom × Value) → List (Atom × Except Fault (List Char))
  | [] => []
  | (k, v) :: es => (k, chars v) :: charsOfEntries es

end

/-- The canonical text of a value. Half of a surrogate pair is a fault of a text that is otherwise
complete, so every other fault comes before it. -/
def canonical (v : Value) : Except Fault String :=
  match chars v with
  | .error .unpaired => do
    let _ ← chars v.mend
    throw .unpaired
  | text => text.map String.ofList

end ScopedFn.Json
