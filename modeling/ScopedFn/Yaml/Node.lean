import ScopedFn.Yaml.Scalar

/-!
# Nodes

A document as a tree of tagged nodes, the form between values and text. A node that stands at
several places has the same identity at each of them; one without an identity is never shared.

* `Node.ofValue` gives the node of a value, and fails for a value that no document can express;
* `Node.anchors` numbers the nodes that occur more than once, in the order in which a second
  occurrence is met.
-/

set_option autoImplicit false

namespace ScopedFn.Yaml

/-- A tagged node. -/
inductive Node where
  /-- A text. -/
  | scalar (id : ObjectId) (tag : Tag) (text : List Char)
  /-- A sequence. Its entries may stand for pairs, whose identities begin at `pairId`. -/
  | seq (id : ObjectId) (tag : Tag) (pairId : ObjectId) (items : List Node)
  /-- A map. -/
  | map (id : ObjectId) (tag : Tag) (entries : List (Node × Node))
  deriving Repr, Inhabited

namespace Node

/-- The identity of a node. -/
def id : Node → ObjectId
  | .scalar id _ _ => id
  | .seq id _ _ _ => id
  | .map id _ _ => id

/-- The tag of a node. -/
def tag : Node → Tag
  | .scalar _ tag _ => tag
  | .seq _ tag _ _ => tag
  | .map _ tag _ => tag

/-- The node of a scalar atom. Only days and times are objects that a document shows to be
shared. -/
def ofScalar (a : Atom) : Except Fault Node := do
  let (tag, text) ← Scalar.written a
  let id :=
    match a with
    | .date id _ | .dateTime id _ => id
    | _ => noObject
  return .scalar id tag text

/-- The node of a tuple. An empty tuple is never shared. -/
def ofTuple (id : ObjectId) (items : List Node) : Node :=
  .seq (if items.isEmpty then noObject else id) .seq noObject items

mutual

/-- The node of an atom. -/
def ofAtom : Atom → Except Fault Node
  | .tuple id items => (ofAtoms items).map (ofTuple id)
  | a => ofScalar a

/-- The nodes of atoms. -/
def ofAtoms : List Atom → Except Fault (List Node)
  | [] => .ok []
  | a :: as => do return (← ofAtom a) :: (← ofAtoms as)

end

mutual

/-- The node of a value: a tuple is written as a sequence, a set as a map to nulls. -/
def ofValue : Value → Except Fault Node
  | .atom a => ofAtom a
  | .list id items => (ofItems items).map (.seq id .seq noObject)
  | .tuple id items => (ofItems items).map (ofTuple id)
  | .map id es => (ofEntries es).map (.map id .map)
  | .set id ms => do
    let keys ← ofAtoms ms
    return .map id .set (keys.map fun key => (key, .scalar noObject .null "null".toList))

/-- The nodes of a list's items. -/
def ofItems : List Value → Except Fault (List Node)
  | [] => .ok []
  | v :: vs => do return (← ofValue v) :: (← ofItems vs)

/-- The nodes of a map's entries. -/
def ofEntries : List (Atom × Value) → Except Fault (List (Node × Node))
  | [] => .ok []
  | (k, v) :: es => do
    let key ← ofAtom k
    let value ← ofValue v
    return (key, value) :: (← ofEntries es)

end

/-- The nodes met so far, and the numbers of those met twice. -/
structure Census where
  /-- Identities in the order in which they were met, last first. -/
  seen : List ObjectId
  /-- Identities met again, last first. -/
  again : List ObjectId

/-- Counts one more occurrence; `true` if it is the first. -/
def Census.meet (id : ObjectId) : StateM Census Bool := fun c =>
  if id = noObject then (true, c)
  else if c.seen.contains id then
    (false, if c.again.contains id then c else { c with again := id :: c.again })
  else (true, { c with seen := id :: c.seen })

mutual

/-- Counts the nodes of a tree, going into each node once. -/
def census : Node → StateM Census Unit
  | .scalar id _ _ => do let _ ← Census.meet id
  | .seq id _ _ items => do if ← Census.meet id then censusItems items
  | .map id _ entries => do if ← Census.meet id then censusEntries entries

/-- Counts the items of a sequence. -/
def censusItems : List Node → StateM Census Unit
  | [] => pure ()
  | n :: ns => do census n; censusItems ns

/-- Counts keys and values of a map. -/
def censusEntries : List (Node × Node) → StateM Census Unit
  | [] => pure ()
  | (k, v) :: es => do census k; census v; censusEntries es

end

/-- The nodes that occur more than once, in the order of their numbers. -/
def anchors (n : Node) : List ObjectId := ((census n).run ⟨[], []⟩).2.again.reverse

end Node

end ScopedFn.Yaml
