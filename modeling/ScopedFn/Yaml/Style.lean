import ScopedFn.Yaml.Tag

/-!
# Scalar styles

Whether a scalar can be written plain, in single quotation marks, or as a block of lines, and
which of these it gets.

* plain: the text has no line breaks, no blank at its ends, no unprintable characters and nothing
  that reads as an indicator, and it suggests the tag it has;
* single quotation marks: no unprintable characters, and no blank beside a line break;
* double quotation marks: any text.
-/

set_option autoImplicit false

namespace ScopedFn.Yaml

/-- A line break; carriage returns are not written as such. -/
def isBreak (c : Char) : Bool := c == '\n' || c == '\u0085' || c == '\u2028' || c == '\u2029'

/-- A line break or the carriage return, as they are read. -/
def isLineEnd (c : Char) : Bool := c == '\r' || isBreak c

/-- A blank or a line end. -/
def isSeparator (c : Char) : Bool := c == ' ' || c == '\t' || isLineEnd c

/-- A character that may stand as itself in a document. -/
def isPlainChar (c : Char) : Bool :=
  let n := c.toNat
  c == '\n' || (0x20 ≤ n && n ≤ 0x7e) || n == 0x85 || (0xa0 ≤ n && n ≤ 0xd7ff) ||
    (0xe000 ≤ n && n ≤ 0xfffd && n != 0xfeff) || (0x10000 ≤ n && n < 0x10ffff)

/-- How a scalar is written. -/
inductive Style where
  /-- As it is. -/
  | plain
  /-- In single quotation marks. -/
  | single
  /-- In double quotation marks. -/
  | double
  /-- As a block of lines. -/
  | literal
  deriving DecidableEq, Repr

namespace Style

/-- Some neighbours in the text have the properties `p` and `q`. -/
def anyPair (p q : Char → Bool) (cs : List Char) : Bool :=
  (cs.zip cs.tail).any fun (a, b) => p a && q b

/-- The text holds a line break. -/
def isMultiline (cs : List Char) : Bool := cs.any isBreak

/-- A blank or a line break stands at an end of the text. -/
def hasLooseEnd (cs : List Char) : Bool :=
  let loose (c : Char) : Bool := c == ' ' || isBreak c
  cs.head?.any loose || cs.getLast?.any loose

/-- A blank stands behind a line break. -/
def hasIndentedLine (cs : List Char) : Bool := anyPair isBreak (· == ' ') cs

/-- A blank stands before a line break, or a character cannot stand as itself. -/
def needsEscapes (cs : List Char) : Bool :=
  anyPair (· == ' ') isBreak cs || cs.any (fun c => !isPlainChar c)

/-- Characters that mean something at the beginning of a node. -/
def indicators : List Char := "#,[]\x7b\x7d&*!|>'\"%@\x60".toList

/-- The text begins like an indicator or like the line between two documents. -/
def startsAsIndicator (cs : List Char) : Bool :=
  let firstIsIndicator :=
    match cs with
    | [] => false
    | c :: rest =>
      indicators.contains c ||
        ((c == '?' || c == ':' || c == '-') && rest.head?.all isSeparator)
  firstIsIndicator || "---".toList.isPrefixOf cs || "...".toList.isPrefixOf cs

/-- A colon before a separator or the end, or a comment sign behind a separator, stands inside
the text. -/
def holdsIndicator (cs : List Char) : Bool :=
  match cs with
  | [] => false
  | _ :: rest =>
    anyPair (· == ':') isSeparator rest || rest.getLast? == some ':' ||
      anyPair isSeparator (· == '#') cs

/-- The text can be written plain outside of brackets. -/
def allowsPlain (cs : List Char) : Bool :=
  cs.isEmpty ||
    !(hasLooseEnd cs || hasIndentedLine cs || needsEscapes cs || isMultiline cs ||
      startsAsIndicator cs || holdsIndicator cs)

/-- The text can be written in single quotation marks. -/
def allowsSingle (cs : List Char) : Bool := cs.isEmpty || !(hasIndentedLine cs || needsEscapes cs)

/-- The text can be written as a block. -/
def allowsLiteral (cs : List Char) : Bool :=
  !cs.isEmpty && !(cs.getLast? == some ' ' || needsEscapes cs)

/-- The style of a scalar: a block or double marks for bytes, and for all else the plain style
before quotation marks. `asKey` is set for a key that shares its line with its value. -/
def choose (tag : Tag) (cs : List Char) (asKey : Bool) : Style :=
  if tag == .binary then (if !asKey && allowsLiteral cs then .literal else .double)
  else if Tag.implied cs == tag && !(asKey && (cs.isEmpty || isMultiline cs)) &&
      allowsPlain cs then .plain
  else if allowsSingle cs && !(asKey && isMultiline cs) then .single
  else .double

end Style

end ScopedFn.Yaml
