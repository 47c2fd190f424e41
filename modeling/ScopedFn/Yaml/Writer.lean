import ScopedFn.Yaml.Node
import ScopedFn.Yaml.Style

/-!
# Writing documents

A node tree as text: maps and sequences as indented lines, empty ones in brackets, scalars in the
style chosen for them and folded behind column 80. The first occurrence of a shared node is
marked by an anchor, and every later one is an alias.

* `Sheet` is the text written so far and what the next mark has to know about it; `Page` adds the
  shared nodes that have been written;
* `Node.write` writes a node, `document` a whole document.
-/

set_option autoImplicit false

namespace ScopedFn.Yaml

/-- The column behind which lines are folded. -/
def bestWidth : Nat := 80

/-- How far each level is indented. -/
def indentStep : Nat := 2

/-- The text written so far. -/
structure Sheet where
  /-- The characters, last first. -/
  reversed : List Char
  /-- The column of the next character. -/
  column : Nat
  /-- The next indicator needs no blank before it. -/
  spaced : Bool
  /-- Nothing but indentation and indicators stands on the current line. -/
  indented : Bool
  /-- The document would go on if more text followed. -/
  openEnded : Bool

namespace Sheet

/-- Nothing written yet. -/
def empty : Sheet := ⟨[], 0, true, true, false⟩

/-- Appends characters on the current line. -/
def put (cs : List Char) (s : Sheet) : Sheet :=
  { s with reversed := cs.reverse ++ s.reversed, column := s.column + cs.length }

/-- Ends the line with the given break. -/
def breakLine (br : Char) (s : Sheet) : Sheet :=
  { s with reversed := br :: s.reversed, column := 0, spaced := true, indented := true }

/-- Writes an indicator, behind a blank if one is needed. `spaced` says that no blank is needed
behind it, `indented` that it counts as indentation. -/
def indicator (cs : List Char) (needsBlank spaced indented : Bool) (s : Sheet) : Sheet :=
  let s' := s.put (if s.spaced || !needsBlank then cs else ' ' :: cs)
  { s' with spaced := spaced, indented := s.indented && indented, openEnded := false }

/-- Moves to a column, on a new line unless the current one is still free there. -/
def indentTo (indent : Nat) (s : Sheet) : Sheet :=
  let s :=
    if !s.indented || s.column > indent || (s.column == indent && !s.spaced) then
      s.breakLine '\n'
    else s
  if s.column < indent then
    { s.put (List.replicate (indent - s.column) ' ') with spaced := true }
  else s

/-- The sheet inside a scalar: neither spaced nor indented. -/
def inText (s : Sheet) : Sheet := { s with spaced := false, indented := false }

/-- Writes the breaks of a run; a first line feed is written twice, since one is folded. -/
def breaks (run : List Char) (s : Sheet) : Sheet :=
  let s := if run.head? == some '\n' then s.breakLine '\n' else s
  run.foldl (fun s c => s.breakLine c) s

end Sheet

/-- The kinds of runs that a scalar is cut into. -/
inductive RunKind where
  /-- Blanks. -/
  | blanks
  /-- Line breaks. -/
  | breaks
  /-- Anything else. -/
  | word
  deriving DecidableEq

/-- The kind of run that a character belongs to. -/
def RunKind.of (c : Char) : RunKind :=
  if c == ' ' then .blanks else if isBreak c then .breaks else .word

/-- The longest runs of one kind. -/
def runs : List Char → List (RunKind × List Char)
  | [] => []
  | c :: cs =>
    match runs cs with
    | [] => [(RunKind.of c, [c])]
    | (kind, run) :: rest =>
      if kind = RunKind.of c then (kind, c :: run) :: rest
      else (RunKind.of c, [c]) :: (kind, run) :: rest

namespace Sheet

/-- Writes a plain scalar: a single blank behind the best width gives way to a new line. -/
def plain (indent : Nat) (folds : Bool) (text : List Char) (s : Sheet) : Sheet :=
  if text.isEmpty then s
  else
    let s := (if s.spaced then s else s.put [' ']).inText
    (runs text).foldl
      (fun s (kind, run) =>
        if kind = .blanks && run.length == 1 && s.column > bestWidth && folds then
          (s.indentTo indent).inText
        else s.put run) s

/-- Doubles quotation marks. -/
def doubleMarks (cs : List Char) : List Char :=
  cs.flatMap fun c => if c == '\'' then ['\'', '\''] else [c]

/-- Writes the runs of a scalar in single quotation marks. Blanks at either end of the text are
never folded. -/
def singleRuns (indent : Nat) (folds : Bool) (first : Bool) :
    List (RunKind × List Char) → Sheet → Sheet
  | [], s => s
  | (.blanks, run) :: rest, s =>
    let fold := run.length == 1 && s.column > bestWidth && folds && !first && !rest.isEmpty
    singleRuns indent folds false rest (if fold then s.indentTo indent else s.put run)
  | (.breaks, run) :: rest, s =>
    singleRuns indent folds false rest ((s.breaks run).indentTo indent)
  | (.word, run) :: rest, s => singleRuns indent folds false rest (s.put (doubleMarks run))

/-- Writes a scalar in single quotation marks. -/
def single (indent : Nat) (folds : Bool) (text : List Char) (s : Sheet) : Sheet :=
  (singleRuns indent folds true (runs text) (s.indicator ['\''] true false false)).indicator
    ['\''] false false false

end Sheet

/-- Escape sequences of one letter. -/
def letterEscapes : List (Char × Char) :=
  [('\x00', '0'), ('\x07', 'a'), ('\x08', 'b'), ('\t', 't'), ('\n', 'n'), ('\x0b', 'v'),
    ('\x0c', 'f'), ('\r', 'r'), ('\x1b', 'e'), ('"', '"'), ('\\', '\\'), ('\u0085', 'N'),
    ('\u00a0', '_'), ('\u2028', 'L'), ('\u2029', 'P')]

/-- Upper-case hexadecimal digits, at least `width` of them. -/
def upperHex (width n : Nat) : List Char :=
  (Text.digitsPadded 16 width n).map Char.toUpper

/-- The escape sequence of a character. -/
def escape (c : Char) : List Char :=
  match letterEscapes.lookup c with
  | some letter => ['\\', letter]
  | none =>
    if c.toNat ≤ 0xff then '\\' :: 'x' :: upperHex 2 c.toNat
    else if c.toNat ≤ 0xffff then '\\' :: 'u' :: upperHex 4 c.toNat
    else '\\' :: 'U' :: upperHex 8 c.toNat

/-- A character that stands as itself between double quotation marks. -/
def isDoublePlain (c : Char) : Bool :=
  let n := c.toNat
  (0x20 ≤ n && n ≤ 0x7e && c != '"' && c != '\\') ||
    (0xa0 ≤ n && n ≤ 0xd7ff && c != '\u2028' && c != '\u2029') ||
    (0xe000 ≤ n && n ≤ 0xfffd && n != 0xfeff)

namespace Sheet

/-- Breaks a line inside double quotation marks behind what is pending. A blank that would begin
the new line is escaped. -/
def foldDouble (indent : Nat) (pending : List Char) (next : Option Char) (s : Sheet) : Sheet :=
  let s := (((s.put (pending.reverse ++ ['\\'])).indentTo indent)).inText
  if next == some ' ' then s.put ['\\'] else s

/-- Writes the rest of a scalar in double quotation marks. `pending` holds characters that are
not yet written, last first. A line can be folded at a blank and behind an escape sequence, but
not at the first or last character of the text. -/
def doubleRest (indent : Nat) (folds first : Bool) (pending : List Char) :
    List Char → Sheet → Sheet
  | [], s => s.put pending.reverse
  | c :: rest, s =>
    let inner := folds && !first && !rest.isEmpty
    if isDoublePlain c then
      if inner && (c == ' ' || pending.isEmpty) && s.column + pending.length > bestWidth then
        doubleRest indent folds false [c] rest (s.foldDouble indent pending (some c))
      else doubleRest indent folds false (c :: pending) rest s
    else
      let s := (s.put pending.reverse).put (escape c)
      let s :=
        if inner && s.column > bestWidth + 1 then s.foldDouble indent [] rest.head? else s
      doubleRest indent folds false [] rest s

/-- Writes a scalar in double quotation marks. -/
def double (indent : Nat) (folds : Bool) (text : List Char) (s : Sheet) : Sheet :=
  (doubleRest indent folds true [] text (s.indicator ['"'] true false false)).indicator
    ['"'] false false false

/-- The marks behind the bar of a block: the indentation if the first line does not show it, a
minus if the last line has no break, a plus if more than one break ends it. -/
def literalHints (text : List Char) : List Char :=
  let lead := if text.head?.any fun c => c == ' ' || isBreak c then ['2'] else []
  let tail :=
    match text.reverse with
    | [] => []
    | [last] => if isBreak last then ['+'] else ['-']
    | last :: before :: _ =>
      if !isBreak last then ['-'] else if isBreak before then ['+'] else []
  lead ++ tail

/-- Writes a scalar as a block of lines. -/
def literal (indent : Nat) (text : List Char) (s : Sheet) : Sheet :=
  let hints := literalHints text
  let s := s.indicator ('|' :: hints) true false false
  let s := { s with openEnded := hints.getLast? == some '+' }
  (runs text).foldl
    (fun s (kind, run) =>
      if kind = .breaks then run.foldl (fun s c => s.breakLine c) s
      else (s.indentTo indent).put run) (s.breakLine '\n')

end Sheet

/-- Where a node stands. -/
inductive Place where
  /-- The whole document. -/
  | root
  /-- An item of a sequence. -/
  | item
  /-- A key on a line of its own, or a value. -/
  | entry
  /-- A key that shares its line with its value. -/
  | key
  deriving DecidableEq

/-- The indentation one level further in; the first level of a document has none. -/
def deeper (indent : Option Nat) (inline : Bool) : Nat :=
  match indent with
  | none => if inline then indentStep else 0
  | some n => n + indentStep

/-- The name of the anchor with a number. -/
def anchorName (number : Nat) : List Char := "id".toList ++ Text.digitsPadded 10 3 number

/-- The longest key, with anchor and tag, that shares its line with its value is one shorter. -/
def keyLimit : Nat := 128

/-- The text written so far and the shared nodes in it. -/
structure Page where
  /-- The text. -/
  sheet : Sheet
  /-- The shared nodes that have been written, the last one first. -/
  written : List ObjectId

/-- Writes text that is no shared node. -/
def Page.onSheet (f : Sheet → Sheet) (p : Page) : Page := { p with sheet := f p.sheet }

namespace Node

variable (shared : List ObjectId)

/-- The name of a shared node's anchor. -/
def anchor? (n : Node) : Option (List Char) :=
  (shared.findIdx? (· == n.id)).map fun i => anchorName (i + 1)

/-- The node is not empty and fits on a line, so that as a key it can share it. -/
def fitsLine (n : Node) (isAlias : Bool) : Bool :=
  let anchorLength := ((anchor? shared n).map List.length).getD 0
  let full := anchorLength + n.tag.shorthand.length
  match n with
  | .scalar _ _ text =>
    isAlias && anchorLength < keyLimit ||
      !text.isEmpty && !Style.isMultiline text && full + text.length < keyLimit
  | .seq _ _ _ items =>
    if isAlias then anchorLength < keyLimit else items.isEmpty && full < keyLimit
  | .map _ _ es => if isAlias then anchorLength < keyLimit else es.isEmpty && full < keyLimit

/-- Writes a scalar with the tag that its style does not imply. -/
def writeScalar (indent : Option Nat) (place : Place) (tag : Tag) (text : List Char) (s : Sheet) :
    Sheet :=
  let asKey := place = .key
  let style := Style.choose tag text asKey
  let implied := if style = .plain then Tag.implied text = tag else tag = .str
  let s := if implied then s else s.indicator tag.shorthand.toList true false false
  let inner := deeper indent true
  match style with
  | .plain => (s.plain inner (!asKey) text |> fun s => { s with openEnded := place = .root })
  | .single => s.single inner (!asKey) text
  | .double => s.double inner (!asKey) text
  | .literal => s.literal inner text

/-- Writes the tag of a collection unless it is the usual one. -/
def writeTag (tag usual : Tag) (s : Sheet) : Sheet :=
  if tag = usual then s else s.indicator tag.shorthand.toList true false false

/-- The node has been written before. -/
def isWritten (n : Node) (p : Page) : Bool := (anchor? shared n).isSome && p.written.contains n.id

/-- Writes the anchor of a shared node. -/
def writeAnchor (n : Node) (p : Page) : Page :=
  match anchor? shared n with
  | none => p
  | some name => ⟨p.sheet.indicator ('&' :: name) true false false, n.id :: p.written⟩

/-- Writes the alias of a shared node. -/
def writeAlias (n : Node) (s : Sheet) : Sheet :=
  s.indicator ('*' :: (anchor? shared n).getD []) true false false

mutual

/-- Writes a node. -/
def write (indent : Option Nat) (place : Place) : Node → Page → Page
  | .scalar id tag text, p =>
    let n : Node := .scalar id tag text
    if n.isWritten shared p then p.onSheet (n.writeAlias shared)
    else (n.writeAnchor shared p).onSheet (writeScalar indent place tag text)
  | .seq id tag pairId items, p =>
    let n : Node := .seq id tag pairId items
    if n.isWritten shared p then p.onSheet (n.writeAlias shared)
    else
      let p := (n.writeAnchor shared p).onSheet (writeTag tag .seq)
      if items.isEmpty then
        p.onSheet fun s => (s.indicator ['['] true true false).indicator [']'] false false false
      else
        let flush := (place = .entry || place = .key) && !p.sheet.indented
        let inner := if flush then indent.getD 0 else deeper indent false
        writeItems inner items p
  | .map id tag es, p =>
    let n : Node := .map id tag es
    if n.isWritten shared p then p.onSheet (n.writeAlias shared)
    else
      let p := (n.writeAnchor shared p).onSheet (writeTag tag .map)
      if es.isEmpty then
        p.onSheet fun s =>
          (s.indicator ['\x7b'] true true false).indicator ['\x7d'] false false false
      else writeEntries (deeper indent false) es p

/-- Writes the items of a sequence, each on a line of its own. -/
def writeItems (indent : Nat) : List Node → Page → Page
  | [], p => p
  | n :: ns, p =>
    let p := p.onSheet fun s => (s.indentTo indent).indicator ['-'] true false true
    writeItems indent ns (write (some indent) .item n p)

/-- Writes the entries of a map: a short key on a line with its value, any other key behind a
question mark. -/
def writeEntries (indent : Nat) : List (Node × Node) → Page → Page
  | [], p => p
  | (k, v) :: es, p =>
    let p := p.onSheet (Sheet.indentTo indent)
    let p :=
      if k.fitsLine shared (k.isWritten shared p) then
        (write (some indent) .key k p).onSheet fun s => s.indicator [':'] false false false
      else
        let p := write (some indent) .entry k (p.onSheet fun s => s.indicator ['?'] true false true)
        p.onSheet fun s => (s.indentTo indent).indicator [':'] true false true
    writeEntries indent es (write (some indent) .entry v p)

end

/-- A document that consists of a node. -/
def document (n : Node) : String :=
  let s := (write n.anchors none .root n ⟨Sheet.empty, []⟩).sheet
  let s := s.indentTo 0
  let s := if s.openEnded then (s.indicator "...".toList true false false).indentTo 0 else s
  String.ofList s.reversed.reverse

end Node

/-- The document that says a value. -/
def write (v : Value) : Except Fault String := (Node.ofValue v).map Node.document

end ScopedFn.Yaml
