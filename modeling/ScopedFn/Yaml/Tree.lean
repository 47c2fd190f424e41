import ScopedFn.Value.Copy
import ScopedFn.Yaml.Node
import ScopedFn.Yaml.Tokens

/-!
# The nodes of a document

Tokens as node trees, one document after the other. An alias stands for the node that carries
the anchor; it has that node's identity. Where that node is a list or map that has not ended yet, the
alias is a scalar that refers to it. Anchors count within their document, and each at most once.

* `Build` is a step that takes tokens and makes nodes;
* `Build.document?` gives the node of the next document, if there is one.
-/

set_option autoImplicit false

namespace ScopedFn.Yaml

/-- The state of building nodes. -/
structure BuildState where
  /-- The tokens that are left. -/
  tokens : List Token
  /-- What is wrong behind the last token. -/
  ending : Fault
  /-- The next identity. -/
  supply : Supply
  /-- The anchored nodes of the current document. -/
  anchored : List (String × Node)
  /-- The anchored lists and maps that have begun, and whether each is a list. -/
  begun : List (String × ObjectId × Bool)
  /-- What the handles of tags stand for. -/
  handles : List (String × String)

/-- A step that takes tokens and makes nodes. -/
abbrev Build := StateT BuildState (Except Fault)

namespace Build

/-- The text is no document. -/
def malformed {α : Type} : Build α := throw .malformed

/-- The next token. -/
def peek : Build Token := do
  match (← get).tokens with
  | t :: _ => return t
  | [] => throw (← get).ending

/-- Moves behind the next token. -/
def pop : Build Unit := modify fun s => { s with tokens := s.tokens.drop 1 }

/-- A new identity. -/
def fresh : Build ObjectId := modifyGet fun s => (s.supply, { s with supply := s.supply + 1 })

/-- Reserves identities in a row and gives the first one. -/
def reserve (n : Nat) : Build ObjectId :=
  modifyGet fun s => (s.supply, { s with supply := s.supply + n })

/-- The handles that every document knows. -/
def defaultHandles : List (String × String) := [("!", "!"), ("!!", Tag.commonUri)]

/-- What stands before a node. -/
structure Properties where
  /-- The name of the node. -/
  anchor : Option String
  /-- The tag of the node; the lone exclamation mark counts as a tag by itself. -/
  uri : Option String

/-- No tag, or only the lone exclamation mark. -/
def Properties.isUntagged (p : Properties) : Bool := p.uri.all (· == "!")

/-- There is an anchor or a tag. -/
def Properties.any (p : Properties) : Bool := p.anchor.isSome || p.uri.isSome

/-- The full name of a tag. -/
def resolveTag (handle : Option String) (suffix : String) : Build String := do
  match handle with
  | none => return suffix
  | some h =>
    match (← get).handles.lookup h with
    | some uri => return uri ++ suffix
    | none => malformed

/-- Takes an anchor, if one comes next. -/
def anchor? : Build (Option String) := do
  match ← peek with
  | .anchor name => pop; return some name
  | _ => return none

/-- Takes a tag, if one comes next. -/
def tag? : Build (Option (Option String × String)) := do
  match ← peek with
  | .tag handle suffix => pop; return some (handle, suffix)
  | _ => return none

/-- Takes anchor and tag, in either order. -/
def properties : Build Properties := do
  let anchor ← anchor?
  let tag ← tag?
  let anchor ← if anchor.isNone && tag.isSome then anchor? else pure anchor
  let uri ←
    match tag with
    | none => pure none
    | some (handle, suffix) => some <$> resolveTag handle suffix
  return ⟨anchor, uri⟩

/-- The tag of a node: its own, or the given one. -/
def Properties.tagOr (p : Properties) (usual : Tag) : Tag :=
  if p.isUntagged then usual else (p.uri.map Tag.ofUri).getD usual

/-- The tag of a scalar. A text without quotation marks and tag suggests one, and so does any
text behind the lone exclamation mark. -/
def Properties.scalarTag (p : Properties) (text : List Char) (plain : Bool) : Tag :=
  p.tagOr (if plain || p.uri.isSome then Tag.implied text else .str)

/-- The anchor, if there is one, is new. -/
def checkAnchor (p : Properties) : Build Unit := do
  match p.anchor with
  | none => return ()
  | some name =>
    let s ← get
    if (s.anchored.lookup name).isSome || (s.begun.lookup name).isSome then malformed

/-- Remembers an anchored node. -/
def remember (p : Properties) (n : Node) : Build Node := do
  match p.anchor with
  | none => return n
  | some name =>
    modify fun s => { s with anchored := (name, n) :: s.anchored }
    return n

/-- Remembers an anchored list or map that begins. -/
def note (p : Properties) (id : ObjectId) (isList : Bool) : Build Unit := do
  match p.anchor with
  | none => return ()
  | some name => modify fun s => { s with begun := (name, id, isList) :: s.begun }

/-- Takes the identity of a list or map that begins. -/
def begin (p : Properties) (isList : Bool) : Build ObjectId := do
  let id ← fresh
  note p id isList
  return id

/-- The node that an alias stands for: one that has ended, or a reference to one that has not. -/
def aliased (name : String) : Build Node := do
  let s ← get
  match s.anchored.lookup name with
  | some n => return n
  | none =>
    match s.begun.lookup name with
    | some (id, isList) => return .scalar (← fresh) (.enclosing id isList) []
    | none => malformed

/-- A node that is not written. -/
def absent : Build Node := do return .scalar (← fresh) .null []

/-- The tokens behind which a node of an indented map is absent. -/
def endsEntry (t : Token) : Bool := t == .key || t == .value || t == .blockEnd

mutual

/-- The next node. `block` allows indented collections, `flush` an indented sequence that is no
deeper than the map around it. The number bounds the depth. -/
def node (block flush : Bool) : Nat → Build Node
  | 0 => malformed
  | fuel + 1 => do
    match ← peek with
    | .alias name =>
      pop
      aliased name
    | _ =>
      let p ← properties
      checkAnchor p
      let t ← peek
      if flush && t == .blockEntry then
        let id ← begin p true
        sequence p id (← flushItems fuel)
      else
        match t with
        | .scalar text plain =>
          pop
          remember p (.scalar (← fresh) (p.scalarTag text plain) text)
        | .flowSequenceStart =>
          pop
          let id ← begin p true
          sequence p id (← flowItems true fuel)
        | .flowMappingStart =>
          pop
          let id ← begin p false
          mapping p id (← flowEntries true fuel)
        | .blockSequenceStart =>
          if !block then malformed
          pop
          let id ← begin p true
          sequence p id (← blockItems fuel)
        | .blockMappingStart =>
          if !block then malformed
          pop
          let id ← begin p false
          mapping p id (← blockEntries fuel)
        | _ =>
          if p.any then
            remember p (.scalar (← fresh) (p.tagOr .null) [])
          else malformed

/-- A sequence of the given items. -/
def sequence (p : Properties) (id : ObjectId) (items : List Node) : Build Node := do
  let pairId ← reserve items.length
  remember p (.seq id (p.tagOr .seq) pairId items)

/-- A map of the given entries. -/
def mapping (p : Properties) (id : ObjectId) (es : List (Node × Node)) : Build Node :=
  remember p (.map id (p.tagOr .map) es)

/-- The items of an indented sequence, and its end. -/
def blockItems : Nat → Build (List Node)
  | 0 => malformed
  | fuel + 1 => do
    match ← peek with
    | .blockEntry =>
      pop
      let t ← peek
      let n ← if t == .blockEntry || t == .blockEnd then absent else node true false fuel
      return n :: (← blockItems fuel)
    | .blockEnd => pop; return []
    | _ => malformed

/-- The items of a sequence that is no deeper than the map around it. -/
def flushItems : Nat → Build (List Node)
  | 0 => malformed
  | fuel + 1 => do
    if (← peek) == .blockEntry then
      pop
      let t ← peek
      let n ← if t == .blockEntry || endsEntry t then absent else node true false fuel
      return n :: (← flushItems fuel)
    else return []

/-- The entries of an indented map, and its end. -/
def blockEntries : Nat → Build (List (Node × Node))
  | 0 => malformed
  | fuel + 1 => do
    match ← peek with
    | .key =>
      pop
      let k ← if endsEntry (← peek) then absent else node true true fuel
      let v ←
        if (← peek) == .value then do
          pop
          if endsEntry (← peek) then absent else node true true fuel
        else absent
      return (k, v) :: (← blockEntries fuel)
    | .blockEnd => pop; return []
    | _ => malformed

/-- An entry in brackets whose end token is given: a key behind its token, and a value. -/
def flowEntry (closing : Token) : Nat → Build (Node × Node)
  | 0 => malformed
  | fuel + 1 => do
    pop
    let t ← peek
    let k ←
      if t == .value || t == .flowEntry || t == closing then absent else node false false fuel
    let v ←
      if (← peek) == .value then do
        pop
        let t ← peek
        if t == .flowEntry || t == closing then absent else node false false fuel
      else absent
    return (k, v)

/-- The items of a sequence in brackets, and its end. A key and its value are a map of one
entry. -/
def flowItems (first : Bool) : Nat → Build (List Node)
  | 0 => malformed
  | fuel + 1 => do
    let t ← peek
    if t == .flowSequenceEnd then
      pop
      return []
    else
      if !first then
        if t == .flowEntry then pop else malformed
      let t ← peek
      if t == .key then
        let id ← fresh
        let e ← flowEntry .flowSequenceEnd fuel
        return .map id .map [e] :: (← flowItems false fuel)
      else if t == .flowSequenceEnd then
        pop
        return []
      else
        let n ← node false false fuel
        return n :: (← flowItems false fuel)

/-- The entries of a map in brackets, and its end. A node without key token is a key without a
value. -/
def flowEntries (first : Bool) : Nat → Build (List (Node × Node))
  | 0 => malformed
  | fuel + 1 => do
    let t ← peek
    if t == .flowMappingEnd then
      pop
      return []
    else
      if !first then
        if t == .flowEntry then pop else malformed
      let t ← peek
      if t == .key then
        let e ← flowEntry .flowMappingEnd fuel
        return e :: (← flowEntries false fuel)
      else if t == .flowMappingEnd then
        pop
        return []
      else
        let k ← node false false fuel
        let v ← absent
        return (k, v) :: (← flowEntries false fuel)

end

/-- The version and tag handles that the directives of a document declare. -/
structure Declared where
  /-- A version has been declared. -/
  hasVersion : Bool
  /-- The handles and what they stand for. -/
  handles : List (String × String)

/-- Takes the directives before a document; the number bounds how many are looked for. -/
def directives (d : Declared) : Nat → Build Declared
  | 0 => return d
  | fuel + 1 => do
    match ← peek with
    | .version major =>
      pop
      if d.hasVersion || major != 1 then malformed
      directives { d with hasVersion := true } fuel
    | .tagHandle handle uri =>
      pop
      if (d.handles.lookup handle).isSome then malformed
      directives { d with handles := (handle, uri) :: d.handles } fuel
    | .otherDirective => pop; directives d fuel
    | _ => return d

/-- Skips the ends of documents; the number bounds how many are looked for. -/
def skipEnds : Nat → Build Unit
  | 0 => return ()
  | fuel + 1 => do
    if (← peek) == .documentEnd then
      pop
      skipEnds fuel

/-- Begins a document with the given tag handles. -/
def beginDocument (handles : List (String × String)) : Build Unit :=
  modify fun s => { s with anchored := [], begun := [], handles := handles ++ defaultHandles }

/-- The token begins a directive. -/
def isDirective : Token → Bool
  | .version _ | .tagHandle _ _ | .otherDirective => true
  | _ => false

/-- Takes the token that ends a document, if it is written. -/
def endDocument (n : Node) : Build (Option Node) := do
  if (← peek) == .documentEnd then pop
  return some n

/-- The node of the next document, none at the end of the text. Only the first document may do
without the line that begins it. -/
def document? (first : Bool) : Build (Option Node) := do
  let fuel := 3 * (← get).tokens.length + 3
  let t ← peek
  if first && !(isDirective t || t == .documentStart || t == .streamEnd) then
    beginDocument []
    endDocument (← node true false fuel)
  else
    skipEnds fuel
    if (← peek) == .streamEnd then return none
    let declared ← directives ⟨false, []⟩ fuel
    if (← peek) != .documentStart then malformed
    pop
    beginDocument declared.handles
    let t ← peek
    if isDirective t || t == .documentStart || t == .documentEnd || t == .streamEnd then
      endDocument (← absent)
    else endDocument (← node true false fuel)

/-- No further document begins in the text. -/
def finish : Build Unit := do
  skipEnds (← get).tokens.length
  if (← peek) != .streamEnd then malformed

end Build

end ScopedFn.Yaml
