import ScopedFn.Value.Atom
import ScopedFn.Yaml.Timestamp

/-!
# Tags

The tag of a node says which kind of value it denotes. A scalar without tag and quotation marks
gets the tag that its text suggests, in the manner of YAML 1.1: truth words, binary, octal,
hexadecimal and base-60 integers, underscores between digits, and timestamps.

* `Tag.ofUri` and `Tag.shorthand` connect tags with their written forms;
* `Tag.implied` is the tag that the text of a plain scalar suggests.
-/

set_option autoImplicit false

namespace ScopedFn.Yaml

/-- The kind of value that a node denotes. -/
inductive Tag where
  /-- No value. -/
  | null
  /-- A truth value. -/
  | bool
  /-- An integer. -/
  | int
  /-- A double-precision number. -/
  | float
  /-- A day or time. -/
  | timestamp
  /-- Bytes in Base64. -/
  | binary
  /-- A text. -/
  | str
  /-- A list. -/
  | seq
  /-- A map. -/
  | map
  /-- A set. -/
  | set
  /-- A list of pairs with unique keys. -/
  | omap
  /-- A list of pairs. -/
  | pairs
  /-- The key that merges other maps into its map. -/
  | merge
  /-- The key of a map's default value. -/
  | value
  /-- Any other tag, by its full name. -/
  | other (uri : String)
  /-- No tag of a document: the node stands for a list or map that it lies in. -/
  | enclosing (id : ObjectId) (isList : Bool)
  deriving DecidableEq, Repr, Inhabited

namespace Tag

/-- The common beginning of the known tags' full names. -/
def commonUri : String := "tag:yaml.org,2002:"

/-- The known tags and the last parts of their names. -/
def known : List (String × Tag) :=
  [("null", .null), ("bool", .bool), ("int", .int), ("float", .float),
    ("timestamp", .timestamp), ("binary", .binary), ("str", .str), ("seq", .seq), ("map", .map),
    ("set", .set), ("omap", .omap), ("pairs", .pairs), ("merge", .merge), ("value", .value)]

/-- The tag of a full name. -/
def ofUri (uri : String) : Tag :=
  match known.find? fun (name, _) => commonUri ++ name == uri with
  | some (_, tag) => tag
  | none => .other uri

/-- The short written form of a tag. -/
def shorthand (tag : Tag) : String :=
  match known.find? fun (_, t) => t == tag, tag with
  | some (name, _), _ => "!!" ++ name
  | none, .other uri => "!<" ++ uri ++ ">"
  | none, _ => "!"

/-- The words of truth, and their meaning once in lower case. -/
def truthWords : List (String × Bool) :=
  [("yes", true), ("no", false), ("true", true), ("false", false), ("on", true), ("off", false)]

/-- A word in lower case, capitalised, or in upper case. -/
def inThreeCases (cs : List Char) (word : String) : Bool :=
  let lower := word.toList
  let upper := lower.map Char.toUpper
  cs == lower || cs == upper || cs == upper.take 1 ++ lower.drop 1

/-- A truth word. -/
def isBoolText (cs : List Char) : Bool := truthWords.any fun (w, _) => inThreeCases cs w

/-- The tilde, the word null, or nothing. -/
def isNullText (cs : List Char) : Bool := cs == [] || cs == ['~'] || inThreeCases cs "null"

/-- A decimal digit or an underscore. -/
def isDigitOrLow (c : Char) : Bool := Timestamp.isDigit c || c == '_'

/-- An ASCII hexadecimal digit. -/
def isHexDigit (c : Char) : Bool := c.toNat < 0x80 && (Text.digitValue? 16 c).isSome

/-- The text without its sign. -/
def unsigned (cs : List Char) : List Char := (Numeric.takeSign cs).2

/-- What follows a run of digits and underscores that begins with a digit. -/
def afterDigits? : List Char → Option (List Char)
  | c :: cs => if Timestamp.isDigit c then some (cs.dropWhile isDigitOrLow) else none
  | [] => none

/-- Takes one base-60 place: a colon and one digit, or two digits below 60. -/
def sixtieth? : List Char → Option (List Char)
  | ':' :: cs =>
    match cs.takeWhile Timestamp.isDigit with
    | [_] => some (cs.drop 1)
    | [tens, _] => if tens ≤ '5' then some (cs.drop 2) else none
    | _ => none
  | _ => none

/-- What follows one or more base-60 places; the number bounds how many are looked for. -/
def afterSixtieths? : Nat → List Char → Option (List Char)
  | 0, _ => none
  | n + 1, cs => do
    let rest ← sixtieth? cs
    return (afterSixtieths? n rest).getD rest

/-- A base-10 exponent with its sign, or nothing. -/
def isExponentText : List Char → Bool
  | [] => true
  | e :: sign :: digits =>
    (e == 'e' || e == 'E') && (sign == '+' || sign == '-') && !digits.isEmpty &&
      digits.all Timestamp.isDigit
  | _ => false

/-- A number with a point, an infinity or a not-a-number. -/
def isFloatText (cs : List Char) : Bool :=
  let pointed :=
    match afterDigits? (unsigned cs) with
    | some ('.' :: rest) => isExponentText (rest.dropWhile isDigitOrLow)
    | some rest =>
      match afterSixtieths? rest.length rest with
      | some ('.' :: fraction) => fraction.all isDigitOrLow
      | _ => false
    | none => false
  let bare :=
    match cs with
    | '.' :: rest => (afterDigits? rest).any isExponentText
    | _ => false
  let named :=
    match unsigned cs with
    | '.' :: word => inThreeCases word "inf"
    | _ => false
  pointed || bare || named || [".nan", ".NaN", ".NAN"].contains (String.ofList cs)

/-- A nonempty run of characters of a class. -/
def isRun (p : Char → Bool) (cs : List Char) : Bool := !cs.isEmpty && cs.all p

/-- An integer in base 2, 8, 10, 16 or 60. -/
def isIntText (cs : List Char) : Bool :=
  match unsigned cs with
  | '0' :: 'b' :: rest => isRun (fun c => c == '0' || c == '1' || c == '_') rest
  | '0' :: 'x' :: rest => isRun (fun c => isHexDigit c || c == '_') rest
  | '0' :: rest => rest.all fun c => ('0' ≤ c && c ≤ '7') || c == '_'
  | cs =>
    match afterDigits? cs with
    | some [] => true
    | some rest => afterSixtieths? rest.length rest == some []
    | none => false

/-- A day of full width, or a day and a time. -/
def isTimestampText (cs : List Char) : Bool :=
  (Timestamp.read? cs).any fun t => t.isCanonicalDay || t.clock.isSome

/-- The tag that the text of a plain scalar suggests. A final line feed does not count. -/
def implied (text : List Char) : Tag :=
  let cs := if text.getLast? == some '\n' then text.dropLast else text
  if isBoolText cs then .bool
  else if isFloatText cs then .float
  else if isIntText cs then .int
  else if cs == ['<', '<'] then .merge
  else if isNullText cs then .null
  else if isTimestampText cs then .timestamp
  else if cs == ['='] then .value
  else .str

end Tag

end ScopedFn.Yaml
