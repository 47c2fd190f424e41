import ScopedFn.Text.Base64
import ScopedFn.Text.Lowercase
import ScopedFn.Text.Split
import ScopedFn.Value.Display
import ScopedFn.Yaml.Tag

/-!
# Scalars

What the text of a scalar means under its tag. `Scalar.atom` gives the atom or the `Fault`: a text
may have the form of a number or a day and still denote none.
-/

set_option autoImplicit false

namespace ScopedFn.Yaml

/-- Why a text is no document, or a document no value. -/
inductive Fault where
  /-- The text breaks the rules of the language, or a node does not fit its tag. -/
  | malformed
  /-- A text in the form of a number denotes none. -/
  | notANumber
  /-- A tag promises a number and the text is empty. -/
  | emptyNumber
  /-- A day or time that does not exist. -/
  | noSuchTime
  /-- A tag promises a day or time and the text has another form. -/
  | notATime
  /-- A tag promises a day or time and the node is no scalar. -/
  | timeNotText
  /-- A tag promises a truth value and the word, in lower case, is none. -/
  | unknownTruthWord (word : String)
  /-- An escape sequence stands for no character. -/
  | noSuchCharacter
  /-- An escape sequence stands for a number too large for a character. -/
  | characterTooLarge
  /-- An object that no document can express is to be written. -/
  | inexpressible
  /-- An integer has too many digits to be written. -/
  | numberTooLong
  /-- Nothing is wrong, but what the text says is not followed: a collection that contains itself or
  half of a surrogate pair, where values do not hold them. -/
  | unfollowed
  deriving DecidableEq, Repr

namespace Scalar

/-- The text without underscores. -/
def withoutLows (cs : List Char) : List Char := cs.filter (· != '_')

/-- A number read from text, or the fault that it is none. -/
def orFault {α : Type} (number? : Option α) : Except Fault α :=
  match number? with
  | some n => .ok n
  | none => .error .notANumber

/-- An integer without its sign: in base 2, 16 or 8 by its first characters, in base 60 with
colons, else in base 10. -/
def magnitude (cs : List Char) : Except Fault Int :=
  match cs with
  | [] => .error .emptyNumber
  | ['0'] => .ok 0
  | '0' :: 'b' :: digits => orFault (Numeric.readInt? 2 digits)
  | '0' :: 'x' :: digits => orFault (Numeric.readInt? 16 digits)
  | '0' :: _ => orFault (Numeric.readInt? 8 cs)
  | _ =>
    if cs.contains ':' then do
      let places ← (Text.splitOn ':' cs).mapM fun p => orFault (Numeric.readInt? 10 p)
      return places.foldl (fun n p => n * 60 + p) 0
    else orFault (Numeric.readInt? 10 cs)

/-- An integer. -/
def int (text : List Char) : Except Fault Int :=
  match withoutLows text with
  | [] => .error .emptyNumber
  | cs =>
    let (negative, rest) := Numeric.takeSign cs
    (magnitude rest).map fun n => if negative then -n else n

/-- The rounded sum of base-60 places, least significant first. -/
def sumSixtieths (places : List Binary64) : Binary64 :=
  (places.foldl (fun (total, base) p => (Binary64.add total (p.mulNat base), base * 60))
    (Binary64.zero false, 1)).1

/-- A double-precision number; `none` is the not-a-number of documents. -/
def float (text : List Char) : Except Fault (Option Binary64) :=
  match (withoutLows text).map Char.toLower with
  | [] => .error .emptyNumber
  | cs =>
    let (negative, rest) := Numeric.takeSign cs
    let signed (x : Binary64) : Option Binary64 := some (if negative then x.neg else x)
    if rest == ".inf".toList then .ok (some (Binary64.infinity negative))
    else if rest == ".nan".toList then .ok none
    else if rest.contains ':' then do
      let places ← (Text.splitOn ':' rest).mapM fun p => orFault (Numeric.readBinary64? p)
      return signed (sumSixtieths places.reverse)
    else (orFault (Numeric.readBinary64? rest)).map signed

/-- A truth value. -/
def bool (text : List Char) : Except Fault Bool :=
  let word := Text.lower (String.ofList text)
  match Tag.truthWords.find? fun (w, _) => w == word with
  | some (_, b) => .ok b
  | none => .error (.unknownTruthWord word)

/-- A day, or a day and a time; a final line feed does not count. -/
def time (id : ObjectId) (text : List Char) : Except Fault Atom :=
  let cs := if text.getLast? == some '\n' then text.dropLast else text
  match Timestamp.read? cs with
  | none => .error .notATime
  | some t =>
    match Date.ofParts? t.year t.month t.day, t.clock with
    | none, _ => .error .noSuchTime
    | some d, none => .ok (.date id d)
    | some d, some c =>
      match DateTime.ofParts? d c.hour c.minute c.second c.micro (c.zone.map (· * 60)) with
      | none => .error .noSuchTime
      | some t => .ok (.dateTime id t)

/-- Bytes in Base64. -/
def bytes (text : List Char) : Except Fault (List UInt8) :=
  if text.all fun c => c.toNat < 0x80 then
    match Text.Base64.decode? text with
    | some b => .ok b
    | none => .error .malformed
  else .error .malformed

/-- The atom that a text denotes under a scalar tag. The identity is for atoms that are objects
of their own. -/
def atom (tag : Tag) (id : ObjectId) (text : List Char) : Except Fault Atom :=
  match tag with
  | .null => .ok .null
  | .bool => (bool text).map .bool
  | .int => (int text).map .int
  | .float =>
    (float text).map fun
      | some x => Atom.ofBinary64 id x
      | none => Atom.documentNan
  | .timestamp => time id text
  | .binary => (bytes text).map .bytes
  | .str => .ok (.text (String.ofList text))
  | .enclosing id isList => .ok (.enclosing id isList)
  | _ => .error .malformed

end Scalar

/-- Numbers in documents are written like displayed ones, but always with a point. -/
def numberLayout : Binary64.Layout :=
  { displayLayout with pointInScientific := true, infinityText := ".inf", nanText := ".nan" }

/-- Tag and text of a scalar atom in a document. -/
def Scalar.written : Atom → Except Fault (Tag × List Char)
  | .null => .ok (.null, "null".toList)
  | .bool b => .ok (.bool, (if b then "true" else "false").toList)
  | .int n =>
    let digits := (toString n).toList
    if digits.length ≤ Numeric.decimalDigitLimit + (if n < 0 then 1 else 0) then
      .ok (.int, digits)
    else .error .numberTooLong
  | .float x => .ok (.float, (x.text numberLayout).toList)
  | .nan _ => .ok (.float, numberLayout.nanText.toList)
  | .text s => .ok (.str, s.toList)
  | .bytes b => .ok (.binary, Text.Base64.encode b)
  | .date _ d => .ok (.timestamp, d.text.toList)
  | .dateTime _ t => .ok (.timestamp, (t.text " ").toList)
  | .torn _ | .foreign _ | .enclosing _ _ | .tuple _ _ => .error .inexpressible

end ScopedFn.Yaml
