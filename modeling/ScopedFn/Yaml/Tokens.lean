import ScopedFn.Yaml.Token

/-!
# The tokens of a document text

The text of a document as a list of tokens. Indentation becomes tokens that begin and end
collections. Whether a node is the key of an entry shows only at the colon behind it, so a node
that may be a key is remembered until its line ends, and the tokens before a key are put in
afterwards.

* `Scanner` is the state between two tokens, `Scanner.fetch` reads the next one;
* `Token.ofText` gives the tokens of a text, and the fault that ends them if there is one. A token
  counts only once it is settled that no key begins at it.
-/

set_option autoImplicit false

namespace ScopedFn.Yaml

/-- A node that may turn out to be a key. -/
structure PossibleKey where
  /-- The level of brackets it stands in. -/
  level : Nat
  /-- The number of its first token. -/
  token : Nat
  /-- It stands where only a key can stand. -/
  required : Bool
  /-- Where it begins. -/
  index : Nat
  /-- The line it begins on. -/
  line : Nat
  /-- The column it begins at. -/
  column : Nat

/-- The state between two tokens. -/
structure Scanner where
  /-- The place in the text. -/
  cursor : Cursor
  /-- How many brackets are open. -/
  level : Nat
  /-- The column of the innermost indented collection, minus one outside of all. -/
  indent : Int
  /-- The columns of the collections around it. -/
  outer : List Int
  /-- A key may begin here. -/
  keyAllowed : Bool
  /-- The nodes that may be keys, at most one for each level. -/
  keys : List PossibleKey
  /-- The tokens read so far, last first. -/
  tokens : List Token
  /-- How many there are. -/
  count : Nat
  /-- Tokens to be put in, each list before the token of the given number; last first. -/
  before : List (Nat × List Token)
  /-- The end of the text has been reached. -/
  finished : Bool

/-- The longest distance between the beginning of a key and its colon. -/
def keyReach : Nat := 1024

namespace Scanner

/-- The state at the beginning of a text. -/
def start (text : List Char) : Scanner where
  cursor := Cursor.start text
  level := 0
  indent := -1
  outer := []
  keyAllowed := true
  keys := []
  tokens := []
  count := 0
  before := []
  finished := false

/-- Appends a token. -/
def push (t : Token) (s : Scanner) : Scanner :=
  { s with tokens := t :: s.tokens, count := s.count + 1 }

/-- Moves over characters. -/
def advance (n : Nat) (s : Scanner) : Scanner := { s with cursor := s.cursor.advance n }

/-- The node can no longer be a key: its line has ended, or it is too long. -/
def isStale (s : Scanner) (k : PossibleKey) : Bool :=
  k.line != s.cursor.line || k.index + keyReach < s.cursor.index

/-- Forgets the nodes that can no longer be keys; none of them may have had to be one. -/
def dropStale (s : Scanner) : Except Fault Scanner :=
  if s.keys.any fun k => k.required && s.isStale k then .error .malformed
  else .ok { s with keys := s.keys.filter fun k => !s.isStale k }

/-- The node on the current level that may be a key. -/
def key? (s : Scanner) : Option PossibleKey := s.keys.find? (·.level == s.level)

/-- Forgets the node on the current level; it may not have had to be a key. -/
def dropKey (s : Scanner) : Except Fault Scanner :=
  if s.key?.any (·.required) then .error .malformed
  else .ok { s with keys := s.keys.filter (·.level != s.level) }

/-- Remembers that the next token may begin a key. -/
def saveKey (s : Scanner) : Except Fault Scanner :=
  if s.keyAllowed then do
    let required := s.level == 0 && s.indent == s.cursor.column
    let key : PossibleKey :=
      ⟨s.level, s.count, required, s.cursor.index, s.cursor.line, s.cursor.column⟩
    let s ← s.dropKey
    return { s with keys := key :: s.keys }
  else .ok s

/-- Ends the indented collections that begin right of a column, innermost first. -/
def unwind (column : Int) (s : Scanner) : Scanner :=
  if s.level != 0 then s
  else
    let columns := s.indent :: s.outer
    let ended := columns.takeWhile (column < ·)
    match columns.drop ended.length with
    | [] => s
    | indent :: outer =>
      { s with
        indent := indent
        outer := outer
        tokens := ended.map (fun _ => Token.blockEnd) ++ s.tokens
        count := s.count + ended.length }

/-- A collection that begins at a column; it is a new one right of the current one. -/
def deepen? (column : Nat) (s : Scanner) : Option Scanner :=
  if s.indent < column then some { s with indent := column, outer := s.indent :: s.outer }
  else none

/-- Begins an indented collection at the current column, unless it has begun. -/
def openBlock (t : Token) (s : Scanner) : Scanner :=
  match s.deepen? s.cursor.column with
  | some s => s.push t
  | none => s

/-- Reads blanks, comments and line breaks; a key may begin on a new line outside of brackets.
The number bounds how many lines are looked for. -/
def toNextToken : Nat → Scanner → Scanner
  | 0, s => s
  | n + 1, s =>
    let c := s.cursor.skip (· == ' ')
    let c := if c.head == '#' then c.skip fun ch => !isLineEnd ch else c
    if isLineEnd c.head then
      let c := c.advance (if c.head == '\r' && c.ahead 1 == '\n' then 2 else 1)
      toNextToken n { s with cursor := c, keyAllowed := s.keyAllowed || s.level == 0 }
    else { s with cursor := c }

/-- Takes over what a reading step gives. -/
def reading {α : Type} (step : Scan α) (s : Scanner) : Except Fault (α × Scanner) := do
  let (a, cursor) ← step.run s.cursor
  return (a, { s with cursor := cursor })

/-- Reads a token that may begin a key. -/
def fetchNode (step : Scan Token) (s : Scanner) : Except Fault Scanner := do
  let s ← s.saveKey
  let (t, s) ← s.reading step
  return { s.push t with keyAllowed := false }

/-- Reads a plain scalar. -/
def fetchPlain (s : Scanner) : Except Fault Scanner := do
  let s ← s.saveKey
  let ((t, crosses), s) ← s.reading (Scan.plainScalar (s.level != 0) s.indent)
  return { s.push t with keyAllowed := crosses }

/-- Reads a block scalar. -/
def fetchBlockScalar (folded : Bool) (s : Scanner) : Except Fault Scanner := do
  let s ← { s with keyAllowed := true }.dropKey
  let (t, s) ← s.reading (Scan.blockScalar s.indent folded)
  return s.push t

/-- Reads the end of the text. -/
def fetchEnd (s : Scanner) : Except Fault Scanner := do
  let s ← (s.unwind (-1)).dropKey
  return { s.push .streamEnd with keyAllowed := false, keys := [], finished := true }

/-- Reads a directive. -/
def fetchDirective (s : Scanner) : Except Fault Scanner := do
  let s ← (s.unwind (-1)).dropKey
  let (t, s) ← s.reading Scan.directive
  return { s.push t with keyAllowed := false }

/-- Reads the line between two documents. -/
def fetchDocumentMark (t : Token) (s : Scanner) : Except Fault Scanner := do
  let s ← (s.unwind (-1)).dropKey
  return { (s.advance 3).push t with keyAllowed := false }

/-- Reads an opening bracket. -/
def fetchOpening (t : Token) (s : Scanner) : Except Fault Scanner := do
  let s ← s.saveKey
  return { (s.advance 1).push t with level := s.level + 1, keyAllowed := true }

/-- Reads a closing bracket. -/
def fetchClosing (t : Token) (s : Scanner) : Except Fault Scanner := do
  let s ← s.dropKey
  return { (s.advance 1).push t with level := s.level - 1, keyAllowed := false }

/-- Reads the comma between items. -/
def fetchComma (s : Scanner) : Except Fault Scanner := do
  let s ← s.dropKey
  return { (s.advance 1).push .flowEntry with keyAllowed := true }

/-- Reads the hyphen before an item. -/
def fetchHyphen (s : Scanner) : Except Fault Scanner := do
  if s.level == 0 && !s.keyAllowed then throw .malformed
  let s := if s.level == 0 then s.openBlock .blockSequenceStart else s
  let s ← s.dropKey
  return { (s.advance 1).push .blockEntry with keyAllowed := true }

/-- Reads the question mark before a key. -/
def fetchQuestion (s : Scanner) : Except Fault Scanner := do
  if s.level == 0 && !s.keyAllowed then throw .malformed
  let s := if s.level == 0 then s.openBlock .blockMappingStart else s
  let s ← s.dropKey
  return { (s.advance 1).push .key with keyAllowed := s.level == 0 }

/-- Reads the colon before a value. A remembered node becomes a key, and the map that it belongs
to may begin with it. -/
def fetchColon (s : Scanner) : Except Fault Scanner := do
  match s.key? with
  | some k =>
    let s := { s with keys := s.keys.filter (·.level != s.level), keyAllowed := false }
    let s :=
      match if s.level == 0 then s.deepen? k.column else none with
      | some s => { s with before := (k.token, [.blockMappingStart, .key]) :: s.before }
      | none => { s with before := (k.token, [.key]) :: s.before }
    return (s.advance 1).push .value
  | none =>
    if s.level == 0 && !s.keyAllowed then throw .malformed
    let s := if s.level == 0 then s.openBlock .blockMappingStart else s
    let s ← { s with keyAllowed := s.level == 0 }.dropKey
    return (s.advance 1).push .value

/-- A plain scalar can begin with these two characters. -/
def startsPlain (inFlow : Bool) (c next : Char) : Bool :=
  !(Cursor.endsWord c || "-?:,[]\x7b\x7d#&*!|>'\"%@\x60".toList.contains c) ||
    (!Cursor.endsWord next && (c == '-' || (!inFlow && (c == '?' || c == ':'))))

/-- Reads the next token by its first characters. -/
def dispatch (s : Scanner) : Except Fault Scanner :=
  let c := s.cursor.head
  let next := s.cursor.ahead 1
  let inFlow := s.level != 0
  let alone := inFlow || Cursor.endsWord next
  if Cursor.isEnd c then s.fetchEnd
  else if c == '%' && s.cursor.column == 0 then s.fetchDirective
  else if s.cursor.column == 0 && s.cursor.atDocumentMark then
    s.fetchDocumentMark (if c == '-' then .documentStart else .documentEnd)
  else if c == '[' then s.fetchOpening .flowSequenceStart
  else if c == '\x7b' then s.fetchOpening .flowMappingStart
  else if c == ']' then s.fetchClosing .flowSequenceEnd
  else if c == '\x7d' then s.fetchClosing .flowMappingEnd
  else if c == ',' then s.fetchComma
  else if c == '-' && Cursor.endsWord next then s.fetchHyphen
  else if c == '?' && alone then s.fetchQuestion
  else if c == ':' && alone then s.fetchColon
  else if c == '*' then s.fetchNode do return .alias (← Scan.anchorName)
  else if c == '&' then s.fetchNode do return .anchor (← Scan.anchorName)
  else if c == '!' then s.fetchNode Scan.tag
  else if c == '|' && !inFlow then s.fetchBlockScalar false
  else if c == '>' && !inFlow then s.fetchBlockScalar true
  else if c == '\'' then s.fetchNode (Scan.quotedScalar false)
  else if c == '"' then s.fetchNode (Scan.quotedScalar true)
  else if startsPlain inFlow c next then s.fetchPlain
  else .error .malformed

/-- Reads the next token and what becomes certain with it. -/
def fetch (s : Scanner) : Except Fault Scanner := do
  let s := s.toNextToken (s.cursor.rest.length + 1)
  let s ← s.dropStale
  let s ← (s.unwind s.cursor.column).dispatch
  if s.finished then return s else s.dropStale

/-- How many tokens are settled: those before the first node that may be a key. -/
def settled (s : Scanner) : Nat := s.keys.foldl (fun n k => min n k.token) s.count

/-- Reads tokens to the end of the text or to a fault. The number bounds how many are read. -/
def run : Nat → Scanner → Scanner × Option Fault
  | 0, s => (s, some .malformed)
  | n + 1, s =>
    if s.finished then (s, none)
    else
      match s.fetch with
      | .ok s => run n s
      | .error fault => (s, some fault)

/-- The settled tokens, with the tokens before keys put in. -/
def settledTokens (s : Scanner) : List Token :=
  (s.tokens.reverse.take s.settled).zipIdx.flatMap fun (t, number) =>
    (s.before.filter (·.1 == number)).flatMap (·.2) ++ [t]

end Scanner

/-- A character that may stand in the text of a document. -/
def isTextChar (c : Char) : Bool :=
  c == '\t' || c == '\r' || isPlainChar c || c == '\ufeff' || c.toNat == 0x10ffff

/-- The tokens of a text, and the fault behind the last of them if the text has one. A byte order
mark at the beginning does not count. -/
def Token.ofText (text : List Char) : List Token × Option Fault :=
  if text.all isTextChar then
    let start := Scanner.start text
    let start := if text.head? == some '\ufeff' then start.advance 1 else start
    let (s, fault) := start.run (2 * text.length + 2)
    (s.settledTokens, fault)
  else ([], some .malformed)

end ScopedFn.Yaml
