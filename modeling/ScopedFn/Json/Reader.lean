import ScopedFn.Numeric.Reading
import ScopedFn.Value.Torn

/-!
# Reading JSON

Values from JSON text. Beside what the standard allows, the names `NaN`, `Infinity` and
`-Infinity` are numbers. Of equal keys the last value counts. `read` wants one value and nothing
else but blanks in the text.
-/

set_option autoImplicit false

namespace ScopedFn.Json

/-- Why a text is no JSON value. -/
inductive ReadFault where
  /-- The text breaks the rules. -/
  | malformed
  /-- An integer has too many digits. -/
  | numberTooLong
  /-- Nothing is wrong, but characters of the text cannot be told from stand-ins of surrogates. -/
  | unfollowed
  deriving DecidableEq, Repr

/-- A step that takes characters off a text. -/
abbrev Parse := StateT (List Char) (Except ReadFault)

namespace Parse

/-- The text breaks the rules. -/
def malformed {α : Type} : Parse α := throw .malformed

/-- Skips blanks. -/
def skipBlanks : Parse Unit :=
  modify fun cs => cs.dropWhile fun c => c == ' ' || c == '\t' || c == '\n' || c == '\r'

/-- The next character. -/
def head? : Parse (Option Char) := do return (← get).head?

/-- Moves behind some characters. -/
def drop (n : Nat) : Parse Unit := modify fun cs => cs.drop n

/-- Takes a word, if it comes next. -/
def word? (w : String) : Parse Bool := do
  if w.toList.isPrefixOf (← get) then
    drop w.length
    return true
  else return false

/-- The number of four hexadecimal digits. -/
def hex4 : Parse Nat := do
  let digits := (← get).take 4
  if digits.length < 4 || digits.any (fun c => 0x7f < c.toNat) then malformed
  match Numeric.natOfDigits? 16 digits with
  | none => malformed
  | some n =>
    drop 4
    return n

/-- The character that a surrogate pair stands for. -/
def joinSurrogates (high low : Nat) : Char :=
  Char.ofNat (0x10000 + (high - 0xd800) * 0x400 + (low - 0xdc00))

/-- The character behind `\u`; two halves of a pair are one character, and half of a pair has a
stand-in. -/
def unicodeEscape : Parse Char := do
  let high ← hex4
  if 0xd800 ≤ high ∧ high ≤ 0xdbff ∧ ['\\', 'u'].isPrefixOf (← get) then
    let before ← get
    drop 2
    let low ← hex4
    if 0xdc00 ≤ low ∧ low ≤ 0xdfff then return joinSurrogates high low
    set before
    return Text.charOf high
  else return Text.charOf high

/-- The character behind a backslash. -/
def escaped : Parse Char := do
  match ← head? with
  | none => malformed
  | some c =>
    drop 1
    if c == '"' || c == '\\' || c == '/' then return c
    else if c == 'b' then return '\x08'
    else if c == 'f' then return '\x0c'
    else if c == 'n' then return '\n'
    else if c == 'r' then return '\r'
    else if c == 't' then return '\t'
    else if c == 'u' then unicodeEscape
    else malformed

/-- The characters up to a closing quotation mark; the number bounds how many are looked for. -/
def textRest : Nat → Parse (List Char)
  | 0 => malformed
  | n + 1 => do
    match ← head? with
    | none => malformed
    | some c =>
      drop 1
      if c == '"' then return []
      else if c == '\\' then return (← escaped) :: (← textRest n)
      else if c.toNat < 0x20 then malformed
      else return c :: (← textRest n)

/-- A text behind its opening quotation mark. -/
def text : Parse String := do return String.ofList (← textRest ((← get).length + 1))

/-- An ASCII decimal digit. -/
def isDigit (c : Char) : Bool := '0' ≤ c && c ≤ '9'

/-- Takes digits. -/
def digits : Parse (List Char) := do
  let ds := (← get).takeWhile isDigit
  drop ds.length
  return ds

/-- The digits behind a point, if there are some. -/
def fraction : Parse (List Char) := do
  match ← get with
  | '.' :: rest =>
    if rest.head?.any isDigit then
      drop 1
      digits
    else return []
  | _ => return []

/-- The exponent with its sign, if there is one. -/
def exponent : Parse (List Char) := do
  match ← get with
  | e :: rest =>
    if e == 'e' || e == 'E' then
      let sign := rest.takeWhile fun c => c == '+' || c == '-'
      if sign.length ≤ 1 && (rest.drop sign.length).head?.any isDigit then
        drop (1 + sign.length)
        return 'e' :: sign ++ (← digits)
      else return []
    else return []
  | [] => return []

/-- A number. -/
def number : Parse Atom := do
  let sign ← if (← head?) == some '-' then drop 1 *> pure ['-'] else pure []
  let whole ←
    if (← head?) == some '0' then drop 1 *> pure ['0'] else digits
  if whole.isEmpty then malformed
  let fraction ← fraction
  let exponent ← exponent
  if fraction.isEmpty && exponent.isEmpty then
    match Numeric.readInt? 10 (sign ++ whole) with
    | some n => return .int n
    | none => throw .numberTooLong
  else
    let point := if fraction.isEmpty then [] else '.' :: fraction
    match Numeric.readBinary64? (sign ++ whole ++ point ++ exponent) with
    | some x => return .float x
    | none => malformed

/-- A value that is neither text nor list nor map. -/
def plain : Parse Atom := do
  if ← word? "null" then return .null
  else if ← word? "true" then return .bool true
  else if ← word? "false" then return .bool false
  else if ← word? "NaN" then return Atom.documentNan
  else if ← word? "Infinity" then return .float (Binary64.infinity false)
  else if ← word? "-Infinity" then return .float (Binary64.infinity true)
  else number

mutual

/-- A value. The number bounds the depth and the number of parts. -/
def value : Nat → Parse Value
  | 0 => malformed
  | n + 1 => do
    match ← head? with
    | some '"' =>
      drop 1
      return .text (← text)
    | some '[' =>
      drop 1
      skipBlanks
      if (← head?) == some ']' then
        drop 1
        return .list noObject []
      else return .list noObject (← items n)
    | some '\x7b' =>
      drop 1
      skipBlanks
      if (← head?) == some '\x7d' then
        drop 1
        return .map noObject []
      else return .map noObject (Entries.ofPairs Atom.same (← entries n))
    | _ => return .atom (← plain)

/-- The items of a list and its end. -/
def items : Nat → Parse (List Value)
  | 0 => malformed
  | n + 1 => do
    let v ← value n
    skipBlanks
    if (← head?) == some ',' then
      drop 1
      skipBlanks
      return v :: (← items n)
    else if (← head?) == some ']' then
      drop 1
      return [v]
    else malformed

/-- The entries of a map and its end. -/
def entries : Nat → Parse (List (Atom × Value))
  | 0 => malformed
  | n + 1 => do
    if (← head?) != some '"' then malformed
    drop 1
    let key ← text
    skipBlanks
    if (← head?) != some ':' then malformed
    drop 1
    skipBlanks
    let v ← value n
    skipBlanks
    if (← head?) == some ',' then
      drop 1
      skipBlanks
      return (.text key, v) :: (← entries n)
    else if (← head?) == some '\x7d' then
      drop 1
      return [(.text key, v)]
    else malformed

end

/-- One value and nothing else but blanks. -/
def document : Parse Value := do
  skipBlanks
  let v ← value ((← get).length + 1)
  skipBlanks
  if !(← get).isEmpty then malformed
  return v

end Parse

/-- The value of a text. -/
def read (text : String) : Except ReadFault Value := do
  let (v, _) ← Parse.document.run text.toList
  if !Text.escapesSurrogate text.toList then return v
  else if Text.mentionsStandIn text.toList then throw .unfollowed
  else return v.tear

end ScopedFn.Json
