import ScopedFn.Yaml.Cursor

/-!
# Tokens

The words of a document, and how those that consist of several characters are read: directives,
anchors, tags, and scalars in their five written forms.
-/

set_option autoImplicit false

namespace ScopedFn.Yaml

/-- A word of a document. -/
inductive Token where
  /-- The end of the text. -/
  | streamEnd
  /-- The version of the language. -/
  | version (major : Nat)
  /-- What the handle of a tag stands for. -/
  | tagHandle (handle uri : String)
  /-- A directive without a meaning here. -/
  | otherDirective
  /-- Three hyphens. -/
  | documentStart
  /-- Three dots. -/
  | documentEnd
  /-- An indented sequence begins. -/
  | blockSequenceStart
  /-- An indented map begins. -/
  | blockMappingStart
  /-- An indented collection ends. -/
  | blockEnd
  /-- A bracketed sequence begins. -/
  | flowSequenceStart
  /-- A bracketed sequence ends. -/
  | flowSequenceEnd
  /-- A bracketed map begins. -/
  | flowMappingStart
  /-- A bracketed map ends. -/
  | flowMappingEnd
  /-- A hyphen before an item. -/
  | blockEntry
  /-- A comma between items. -/
  | flowEntry
  /-- A key follows. -/
  | key
  /-- A value follows. -/
  | value
  /-- A reference to an anchored node. -/
  | alias (name : String)
  /-- The name of the node that follows. -/
  | anchor (name : String)
  /-- The tag of the node that follows. -/
  | tag (handle : Option String) (suffix : String)
  /-- A text, plain or not. -/
  | scalar (text : List Char) (plain : Bool)
  deriving DecidableEq, Repr

namespace Scan

/-- A character of a name. -/
def isNameChar (c : Char) : Bool := c.isAlphanum || c == '-' || c == '_'

/-- A character of a tag's full name. -/
def isUriChar (c : Char) : Bool := c.isAlphanum || "-;/?:@&=+$,_.!~*'()[]%".toList.contains c

/-- A nonempty name. -/
def name : Scan String := do
  let cs ← takeRun isNameChar
  if cs.isEmpty then malformed
  return String.ofList cs

/-- The number with the given hexadecimal digits. -/
def hexValue (digits : List Char) : Nat := (Numeric.natOfDigits? 16 digits).getD 0

/-- Bytes written as percent signs and hexadecimal digits; the number bounds how many are looked
for. -/
def percentBytes : Nat → Scan (List UInt8)
  | 0 => return []
  | n + 1 => do
    if (← head) == '%' then
      advance 1
      let digits := (← get).rest.take 2
      if digits.length < 2 || !digits.all Tag.isHexDigit then malformed
      advance 2
      return UInt8.ofNat (hexValue digits) :: (← percentBytes n)
    else return []

/-- The pieces of a tag's name; the number bounds how many are looked for. -/
def uriPieces : Nat → Scan (List Char)
  | 0 => return []
  | n + 1 => do
    let run ← takeRun fun c => isUriChar c && c != '%'
    if (← head) == '%' then
      let bytes ← percentBytes (← get).rest.length
      match String.fromUTF8? (ByteArray.mk bytes.toArray) with
      | none => malformed
      | some s => return run ++ s.toList ++ (← uriPieces n)
    else return run

/-- The nonempty name of a tag, or the rest of one. -/
def uri : Scan String := do
  let before := (← get).index
  let cs ← uriPieces ((← get).rest.length + 1)
  if (← get).index == before then malformed
  return String.ofList cs

/-- The handle of a tag: an exclamation mark, or a name between two of them. -/
def handle : Scan String := do
  expect (· == '!')
  if (← ahead 1) == ' ' then
    advance 1
    return "!"
  else
    let cs := ((← get).rest.drop 1).takeWhile isNameChar
    if (← ahead (1 + cs.length)) != '!' then malformed
    advance (cs.length + 2)
    return String.ofList ('!' :: cs ++ ['!'])

/-- A decimal number. -/
def number : Scan Nat := do
  let digits ← takeRun Timestamp.isDigit
  if digits.isEmpty then malformed
  if digits.length > Numeric.decimalDigitLimit then throw .notANumber
  return Timestamp.valueOf digits

/-- A character that may follow a word of a directive. -/
def endsDirectiveWord (c : Char) : Bool := c == ' ' || Cursor.endsLine c

/-- A directive, a line that begins with a percent sign. -/
def directive : Scan Token := do
  advance 1
  let word ← name
  expect endsDirectiveWord
  let token ←
    if word == "YAML" then do
      skip (· == ' ')
      let major ← number
      expect (· == '.')
      advance 1
      let _ ← number
      expect endsDirectiveWord
      pure (Token.version major)
    else if word == "TAG" then do
      skip (· == ' ')
      let handle ← handle
      expect (· == ' ')
      skip (· == ' ')
      let uri ← uri
      expect endsDirectiveWord
      pure (Token.tagHandle handle uri)
    else do
      skip (fun c => !isLineEnd c)
      pure Token.otherDirective
  restOfLine
  return token

/-- The name of an anchor or alias, behind its sign. -/
def anchorName : Scan String := do
  advance 1
  let n ← name
  expect fun c => Cursor.endsWord c || "?:,]\x7d%@\x60".toList.contains c
  return n

/-- A tag: a full name in angle brackets, a lone exclamation mark, or a handle and a name. -/
def tag : Scan Token := do
  let c ← ahead 1
  let token ←
    if c == '<' then do
      advance 2
      let suffix ← uri
      expect (· == '>')
      advance 1
      pure (Token.tag none suffix)
    else if Cursor.endsWord c then do
      advance 1
      pure (Token.tag none "!")
    else do
      let word := ((← get).rest.drop 1).takeWhile fun c => c != '!' && c != ' ' && !isLineEnd c
      if (← ahead (1 + word.length)) == '!' then do
        let handle ← handle
        pure (Token.tag (some handle) (← uri))
      else do
        advance 1
        pure (Token.tag (some "!") (← uri))
  expect endsDirectiveWord
  return token

/-- How the breaks at the end of a block are kept. -/
inductive Chomping where
  /-- One break. -/
  | clip
  /-- None. -/
  | strip
  /-- All. -/
  | keep
  deriving DecidableEq

/-- The sign of how breaks are kept. -/
def chomping? : Scan (Option Chomping) := do
  let c ← head
  if c == '+' then
    advance 1
    return some .keep
  else if c == '-' then
    advance 1
    return some .strip
  else return none

/-- The digit of a block's indentation. -/
def indentDigit? : Scan (Option Nat) := do
  let c ← head
  if Timestamp.isDigit c then
    if c == '0' then malformed
    advance 1
    return some (c.toNat - '0'.toNat)
  else return none

/-- The signs behind the indicator of a block, in either order. -/
def blockHints : Scan (Chomping × Option Nat) := do
  match ← chomping? with
  | some chomping => return (chomping, ← indentDigit?)
  | none =>
    match ← indentDigit? with
    | none => return (.clip, none)
    | some n => return ((← chomping?).getD .clip, some n)

/-- Skips blanks up to a column. -/
def skipIndent (indent : Nat) : Scan Unit := do
  let c ← get
  let blanks := (c.run (· == ' ')).length
  advance (min blanks (indent - c.column))

/-- The breaks before the next line of a block, each behind indentation; the first number bounds
how many are looked for. -/
def blockBreaks (indent : Nat) : Nat → Scan (List Char)
  | 0 => return []
  | n + 1 => do
    skipIndent indent
    if isLineEnd (← head) then
      let br ← lineBreak
      return br ++ (← blockBreaks indent n)
    else return []

/-- The breaks before the first line of a block, and the widest indentation met; the number
bounds how many are looked for. -/
def blockLead : Nat → Nat → Scan (List Char × Nat)
  | 0, widest => return ([], widest)
  | n + 1, widest => do
    let c ← head
    if c == ' ' then
      skip (· == ' ')
      blockLead n (max widest (← get).column)
    else if isLineEnd c then
      let br ← lineBreak
      let (breaks, widest) ← blockLead n widest
      return (br ++ breaks, widest)
    else return ([], widest)

/-- The lines of a block from a line on that begins at the block's column, with the last line
break and the breaks behind it kept apart. A folded block replaces a single break between lines
that begin with no blank by a blank. The number bounds how many lines are looked for. -/
def blockLines (folded : Bool) (indent : Nat) (breaks : List Char) :
    Nat → Scan (List Char × List Char × List Char)
  | 0 => return ([], [], breaks)
  | n + 1 => do
    let startsWithBlank := (← head) == ' ' || (← head) == '\t'
    let line ← takeRun (fun c => !isLineEnd c)
    let br ← lineBreak
    let following ← blockBreaks indent ((← get).rest.length + 1)
    let next ← head
    if (← get).column == indent && !Cursor.isEnd next then
      let folds := folded && br == ['\n'] && !startsWithBlank && next != ' ' && next != '\t'
      let joint := if folds then (if following.isEmpty then [' '] else []) else br
      let (text, last, trailing) ← blockLines folded indent following n
      return (breaks ++ line ++ joint ++ text, last, trailing)
    else return (breaks ++ line, br, following)

/-- A scalar written as a block, behind its indicator. -/
def blockScalar (parentIndent : Int) (folded : Bool) : Scan Token := do
  advance 1
  let (chomping, increment) ← blockHints
  expect endsDirectiveWord
  restOfLine
  let least := (max (parentIndent + 1) 1).toNat
  let bound := (← get).rest.length + 1
  let (breaks, indent) ←
    match increment with
    | none => do
      let (breaks, widest) ← blockLead bound 0
      pure (breaks, max least widest)
    | some n => do
      let indent := least + n - 1
      pure (← blockBreaks indent bound, indent)
  let (text, last, trailing) ←
    if (← get).column == indent && !Cursor.isEnd (← head) then
      blockLines folded indent breaks bound
    else pure ([], [], breaks)
  let ending :=
    match chomping with
    | .strip => []
    | .clip => last
    | .keep => last ++ trailing
  return .scalar (text ++ ending) false

/-- What the letter behind a backslash stands for. -/
def letterMeaning? (c : Char) : Option Char :=
  if c == '\t' then some '\t'
  else if c == ' ' then some ' '
  else if c == '/' then some '/'
  else ([('0', '\x00'), ('a', '\x07'), ('b', '\x08'), ('t', '\t'), ('n', '\n'), ('v', '\x0b'),
    ('f', '\x0c'), ('r', '\r'), ('e', '\x1b'), ('"', '"'), ('\\', '\\'), ('N', '\u0085'),
    ('_', '\u00a0'), ('L', '\u2028'), ('P', '\u2029')] : List (Char × Char)).lookup c

/-- How many hexadecimal digits follow the letter behind a backslash. -/
def hexLength? (c : Char) : Option Nat := [('x', 2), ('u', 4), ('U', 8)].lookup c

/-- The breaks between the lines of a quoted scalar, blanks around them dropped; the number
bounds how many are looked for. -/
def quotedBreaks : Nat → Scan (List Char)
  | 0 => return []
  | n + 1 => do
    if (← get).atDocumentMark then malformed
    skip fun c => c == ' ' || c == '\t'
    if isLineEnd (← head) then
      let br ← lineBreak
      return br ++ (← quotedBreaks n)
    else return []

/-- The character of an escape sequence, behind the backslash, or the stand-in of a surrogate; an
escaped line break is the breaks that follow it. -/
def escaped : Scan (List Char) := do
  let c ← head
  match letterMeaning? c, hexLength? c with
  | some meaning, _ =>
    advance 1
    return [meaning]
  | none, some length =>
    advance 1
    let digits := (← get).rest.take length
    if digits.length < length || !digits.all Tag.isHexDigit then malformed
    let code := hexValue digits
    if 0x7fffffff < code then throw .characterTooLarge
    if 0x10ffff < code then throw .noSuchCharacter
    advance length
    return [Text.charOf code]
  | none, none =>
    if isLineEnd c then
      let _ ← lineBreak
      quotedBreaks ((← get).rest.length + 1)
    else malformed

/-- The characters of a quoted scalar up to the next blank, line end or closing mark; the number
bounds how many pieces are looked for. -/
def quotedWord (double : Bool) : Nat → Scan (List Char)
  | 0 => return []
  | n + 1 => do
    let run ← takeRun fun c => c != '\'' && c != '"' && c != '\\' && !isSeparator c
    let c ← head
    if !double && c == '\'' && (← ahead 1) == '\'' then
      advance 2
      return run ++ '\'' :: (← quotedWord double n)
    else if (double && c == '\'') || (!double && (c == '"' || c == '\\')) then
      advance 1
      return run ++ c :: (← quotedWord double n)
    else if double && c == '\\' then
      advance 1
      let meaning ← escaped
      return run ++ meaning ++ (← quotedWord double n)
    else return run

/-- The blanks or line breaks between the words of a quoted scalar. A single break is a blank. -/
def quotedGap : Scan (List Char) := do
  let blanks ← takeRun fun c => c == ' ' || c == '\t'
  let c ← head
  if Cursor.isEnd c then malformed
  if isLineEnd c then
    let br ← lineBreak
    let breaks ← quotedBreaks ((← get).rest.length + 1)
    let joint := if br != ['\n'] then br else if breaks.isEmpty then [' '] else []
    return joint ++ breaks
  else return blanks

/-- The words of a quoted scalar up to its closing mark; the number bounds how many are looked
for. -/
def quotedWords (double : Bool) : Nat → Scan (List Char)
  | 0 => malformed
  | n + 1 => do
    let word ← quotedWord double ((← get).rest.length + 1)
    if (← head) == (if double then '"' else '\'') then
      advance 1
      return word
    else
      let gap ← quotedGap
      return word ++ gap ++ (← quotedWords double n)

/-- A scalar in quotation marks. -/
def quotedScalar (double : Bool) : Scan Token := do
  advance 1
  let text ← quotedWords double ((← get).rest.length + 1)
  return .scalar text false

/-- A character that ends a word of a plain scalar. -/
def endsPlainWord (inFlow : Bool) (c next : Char) : Bool :=
  Cursor.endsWord c ||
    (c == ':' && (Cursor.endsWord next || (inFlow && ",[]\x7b\x7d".toList.contains next))) ||
    (inFlow && ",?[]\x7b\x7d".toList.contains c)

/-- How many characters the next word of a plain scalar has. -/
def plainWordLength (inFlow : Bool) : List Char → Nat
  | [] => 0
  | c :: rest =>
    if endsPlainWord inFlow c (rest.headD Cursor.endMark) then 0
    else plainWordLength inFlow rest + 1

/-- What separates two words of a plain scalar. -/
structure PlainGap where
  /-- The characters that the gap leaves in the text. -/
  text : List Char
  /-- The gap holds a line break. -/
  crossesLine : Bool

/-- Blanks and line breaks between lines of a plain scalar; nothing if a document ends here. The
number bounds how many are looked for. -/
def plainBreaks : Nat → Scan (Option (List Char))
  | 0 => return some []
  | n + 1 => do
    let c ← head
    if c == ' ' then
      advance 1
      plainBreaks n
    else if isLineEnd c then
      let br ← lineBreak
      if (← get).atDocumentMark then return none
      return (← plainBreaks n).map (br ++ ·)
    else return some []

/-- What separates two words of a plain scalar. A single break is a blank. -/
def plainGap : Scan PlainGap := do
  let blanks ← takeRun (· == ' ')
  if isLineEnd (← head) then
    let br ← lineBreak
    if (← get).atDocumentMark then return ⟨[], true⟩
    match ← plainBreaks ((← get).rest.length + 1) with
    | none => return ⟨[], true⟩
    | some breaks =>
      let joint := if br != ['\n'] then br else if breaks.isEmpty then [' '] else []
      return ⟨joint ++ breaks, true⟩
  else return ⟨blanks, false⟩

/-- The words of a plain scalar, each behind the gap before it, and whether the last gap crossed
a line. The number bounds how many words are looked for. -/
def plainWords (inFlow : Bool) (indent : Int) (gap : PlainGap) : Nat → Scan (List Char × Bool)
  | 0 => return ([], gap.crossesLine)
  | n + 1 => do
    let length := plainWordLength inFlow (← get).rest
    if (← head) == '#' || length == 0 then return ([], gap.crossesLine)
    let word := (← get).rest.take length
    advance length
    let next ← plainGap
    let here ← get
    if next.text.isEmpty || here.head == '#' || (!inFlow && (here.column : Int) < indent) then
      return (gap.text ++ word, next.crossesLine)
    else
      let (text, crosses) ← plainWords inFlow indent next n
      return (gap.text ++ word ++ text, crosses)

/-- A plain scalar, and whether a line ends behind its last word. -/
def plainScalar (inFlow : Bool) (parentIndent : Int) : Scan (Token × Bool) := do
  let (text, crosses) ←
    plainWords inFlow (parentIndent + 1) ⟨[], false⟩ ((← get).rest.length + 1)
  return (.scalar text true, crosses)

end Scan

end ScopedFn.Yaml
