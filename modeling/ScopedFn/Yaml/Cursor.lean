import ScopedFn.Yaml.Scalar
import ScopedFn.Yaml.Style

/-!
# Cursor

A place in the text of a document: what is left of the text, and how far the place is from the
beginning, in characters, lines and columns. Behind the end every character is the null
character, which no document contains.

`Scan` is a step that reads from a cursor and may find that the text is no document.
-/

set_option autoImplicit false

namespace ScopedFn.Yaml

/-- A place in a text. -/
structure Cursor where
  /-- The text from here on. -/
  rest : List Char
  /-- Characters before this place. -/
  index : Nat
  /-- Lines before this one. -/
  line : Nat
  /-- Characters of this line before this place. -/
  column : Nat

namespace Cursor

/-- The beginning of a text. -/
def start (text : List Char) : Cursor := ⟨text, 0, 0, 0⟩

/-- What stands for the end of the text. -/
def endMark : Char := '\x00'

/-- The next character. -/
def head (c : Cursor) : Char := c.rest.headD endMark

/-- The character `n` places ahead. -/
def ahead (n : Nat) (c : Cursor) : Char := (c.rest.drop n).headD endMark

/-- Moves over one character. A carriage return ends a line unless a line feed follows; a byte
order mark takes no column. -/
def step (c : Cursor) : Cursor :=
  match c.rest with
  | [] => c
  | ch :: rest =>
    if isBreak ch || (ch == '\r' && rest.head? != some '\n') then
      ⟨rest, c.index + 1, c.line + 1, 0⟩
    else ⟨rest, c.index + 1, c.line, if ch == '\ufeff' then c.column else c.column + 1⟩

/-- Moves over several characters. -/
def advance : Nat → Cursor → Cursor
  | 0, c => c
  | n + 1, c => advance n c.step

/-- The characters up to the first one without a property. -/
def run (p : Char → Bool) (c : Cursor) : List Char := c.rest.takeWhile p

/-- Moves behind the characters with a property. -/
def skip (p : Char → Bool) (c : Cursor) : Cursor := c.advance (c.run p).length

/-- The character ends the text. -/
def isEnd (ch : Char) : Bool := ch == endMark

/-- The character ends a line or the text. -/
def endsLine (ch : Char) : Bool := isEnd ch || isLineEnd ch

/-- The character is a blank or ends a line or the text. -/
def endsWord (ch : Char) : Bool := isEnd ch || isSeparator ch

/-- The line between two documents stands here: three hyphens or three dots, alone. -/
def atDocumentMark (c : Cursor) : Bool :=
  (['-', '-', '-'].isPrefixOf c.rest || ['.', '.', '.'].isPrefixOf c.rest) && endsWord (c.ahead 3)

end Cursor

/-- A step that reads from a cursor. -/
abbrev Scan := StateT Cursor (Except Fault)

namespace Scan

/-- The text is no document. -/
def malformed {α : Type} : Scan α := throw .malformed

/-- The next character. -/
def head : Scan Char := do return (← get).head

/-- The character `n` places ahead. -/
def ahead (n : Nat) : Scan Char := do return (← get).ahead n

/-- Moves over several characters. -/
def advance (n : Nat) : Scan Unit := modify (Cursor.advance n)

/-- Takes the characters up to the first one without a property. -/
def takeRun (p : Char → Bool) : Scan (List Char) := do
  let run := (← get).run p
  advance run.length
  return run

/-- Moves behind the characters with a property. -/
def skip (p : Char → Bool) : Scan Unit := modify (Cursor.skip p)

/-- A character with the property comes next. -/
def expect (p : Char → Bool) : Scan Unit := do
  if !p (← head) then malformed

/-- Takes a line break, if there is one. Every break but the separators of lines and paragraphs
counts as a line feed. -/
def lineBreak : Scan (List Char) := do
  let c ← head
  if c == '\r' && (← ahead 1) == '\n' then
    advance 2
    return ['\n']
  else if c == '\r' || c == '\n' || c == '\u0085' then
    advance 1
    return ['\n']
  else if isLineEnd c then
    advance 1
    return [c]
  else return []

/-- Moves behind blanks and a comment to the end of the line. -/
def restOfLine : Scan Unit := do
  skip (· == ' ')
  if (← head) == '#' then skip (fun c => !isLineEnd c)
  expect Cursor.endsLine
  let _ ← lineBreak

end Scan

end ScopedFn.Yaml
