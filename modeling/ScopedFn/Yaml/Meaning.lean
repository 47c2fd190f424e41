import ScopedFn.Yaml.Node

/-!
# The value of a node

What a node tree denotes. Merge keys bring in the entries of other maps, before the map's own
entries; of equal keys the first spelling and the last value stay.

* `Node.value` is the value, on the understanding that the tree is sound;
* `Node.faults` tells whether it is. A collection is filled only after everything around it has
  been opened, so of several faults the one in the shallowest collection counts, and among
  equals the first one. `Faults` lists the first fault at each depth.
-/

set_option autoImplicit false

namespace ScopedFn.Yaml

/-- The first fault, if any, at each depth below a node. -/
abbrev Faults := List (Option Fault)

namespace Faults

/-- The faults of one node followed by those of another. -/
def before : Faults → Faults → Faults
  | [], gs => gs
  | fs, [] => fs
  | f :: fs, g :: gs => (f.or g) :: before fs gs

/-- The faults of several nodes, one after the other. -/
def inOrder (fss : List Faults) : Faults := fss.foldr before []

/-- A fault at once. -/
def now (f : Fault) : Faults := [some f]

/-- Faults that show only when a collection is filled. -/
def later (fs : Faults) : Faults := none :: fs

/-- The fault that counts. -/
def first? (fs : Faults) : Option Fault := fs.findSome? id

end Faults

/-- The value of a node, and the faults in it. -/
structure Reading where
  /-- The value. -/
  value : Value
  /-- What is wrong. -/
  faults : Faults

namespace Reading

/-- A fault in place of a value. -/
def faulty (f : Fault) : Reading := ⟨.null, Faults.now f⟩

/-- A collection with a fault that shows when it is filled. -/
def faultyInside (f : Fault) : Reading := ⟨.list noObject [], Faults.later (Faults.now f)⟩

/-- The reading of a scalar. -/
def ofAtom : Except Fault Atom → Reading
  | .ok a => ⟨.atom a, []⟩
  | .error f => faulty f

/-- The atom that a reading denotes, if it denotes one. -/
def atom? (r : Reading) : Option Atom :=
  match r.value with
  | .atom (.enclosing _ _) => none
  | .atom a => some a
  | _ => none

/-- The faults of an entry: in the key, in its use as a key, in the value. -/
def entryFaults (e : Reading × Reading) : Faults :=
  Faults.inOrder
    [e.1.faults, if e.1.atom?.isSome then [] else Faults.now .malformed, e.2.faults]

/-- The map or set of some entries. -/
def ofEntries (isSet : Bool) (id : ObjectId) : Except Fault (List (Reading × Reading)) → Reading
  | .error f => faultyInside f
  | .ok es =>
    let entries := es.filterMap fun (k, v) => k.atom?.map fun a => (a, v.value)
    let entries := Entries.ofPairs Atom.same entries
    let value : Value := if isSet then .set id (entries.map (·.1)) else .map id entries
    ⟨value, Faults.later (Faults.inOrder (es.map entryFaults))⟩

end Reading

namespace Node

mutual

/-- The text under the default key of a map, for a tag that wants a text; `none` if there is
none. -/
def defaultText? : List (Node × Node) → Option (List Char)
  | [] => none
  | (k, v) :: es => if k.tag = .value then textOrDefault? v else defaultText? es

/-- The text of a scalar, or of the default key of a map. -/
def textOrDefault? : Node → Option (List Char)
  | .scalar _ (.enclosing _ _) _ => none
  | .scalar _ _ text => some text
  | .seq _ _ _ _ => none
  | .map _ _ es => defaultText? es

end

/-- A collection under a tag that wants a text. -/
def collectionAsScalar (tag : Tag) (id : ObjectId) (text? : Option (List Char)) : Reading :=
  match text? with
  | none => .faulty .malformed
  | some text =>
    if tag = .timestamp then .faulty .timeNotText else .ofAtom (Scalar.atom tag id text)

/-- The tag is for maps or sequences. -/
def isCollectionTag (tag : Tag) : Bool :=
  tag = .seq || tag = .map || tag = .set || tag = .omap || tag = .pairs

/-- What is wrong with a node where a map is wanted. What a reference brings into the map that it
refers to, or into one inside of it, is not followed. -/
def notMap (n : Node) : Fault :=
  match n.tag with
  | .enclosing _ _ => .unfollowed
  | _ => .malformed

/-- Numbers the pairs of a list from an identity on. -/
def pairs (first : ObjectId) : List (Value × Value) → List Value
  | [] => []
  | (k, v) :: rest => .tuple first [k, v] :: pairs (first + 1) rest

mutual

/-- The value of a node and the faults in it. -/
def read : Node → Reading
  | .scalar id tag text =>
    if isCollectionTag tag then .faultyInside .malformed else .ofAtom (Scalar.atom tag id text)
  | .seq id tag pairId items =>
    if tag = .seq then
      let rs := readItems items
      ⟨.list id (rs.map (·.value)), Faults.later (Faults.inOrder (rs.map (·.faults)))⟩
    else if tag = .omap ∨ tag = .pairs then
      let rs := readPairs items
      let values := rs.filterMap fun r => r.1.map fun (k, v) => (k.value, v.value)
      ⟨.list id (pairs pairId values), Faults.later (Faults.inOrder (rs.map (·.2)))⟩
    else if isCollectionTag tag then .faultyInside .malformed
    else .faulty .malformed
  | .map id tag es =>
    if tag = .map ∨ tag = .set then
      -- entries that are merged in come first
      .ofEntries (tag = .set) id (do return (← readMerged es) ++ readOwn es)
    else if isCollectionTag tag then .faultyInside .malformed
    else collectionAsScalar tag id (defaultText? es)

/-- The readings of a sequence's items. -/
def readItems : List Node → List Reading
  | [] => []
  | n :: ns => read n :: readItems ns

/-- The readings of the items of a list of pairs: key and value of a map of one entry, and what
is wrong with the item. -/
def readPairs : List Node → List (Option (Reading × Reading) × Faults)
  | [] => []
  | .map _ _ [(k, v)] :: ns =>
    let key := read k
    let value := read v
    (some (key, value), Faults.inOrder [key.faults, value.faults]) :: readPairs ns
  | n :: ns => (none, Faults.now n.notMap) :: readPairs ns

/-- The entries that the merge keys of a map bring in. -/
def readMerged : List (Node × Node) → Except Fault (List (Reading × Reading))
  | [] => .ok []
  | (k, v) :: es => do
    let here ← if k.tag = .merge then readMergedFrom v else .ok []
    return here ++ (← readMerged es)

/-- The entries that one merged node brings in. Of a sequence of maps the last one comes
first. -/
def readMergedFrom : Node → Except Fault (List (Reading × Reading))
  | .scalar id tag text => .error (notMap (.scalar id tag text))
  | .seq _ _ _ items => do return (← readMergedItems items).reverse.flatten
  | .map _ _ es => do
    let merged ← readMerged es
    return merged ++ readOwn es

/-- The entries of each map in a sequence. -/
def readMergedItems : List Node → Except Fault (List (List (Reading × Reading)))
  | [] => .ok []
  | .map _ _ es :: ns => do
    let merged ← readMerged es
    return (merged ++ readOwn es) :: (← readMergedItems ns)
  | n :: _ => .error n.notMap

/-- The entries of a map other than merge keys. The default key is a text here. -/
def readOwn : List (Node × Node) → List (Reading × Reading)
  | [] => []
  | (k, v) :: es =>
    if k.tag = .merge then readOwn es
    else
      let key : Reading := if k.tag = .value then ⟨.text "=", []⟩ else read k
      (key, read v) :: readOwn es

end

/-- The value of a node. -/
def value (n : Node) : Value := n.read.value

/-- The faults in a node. -/
def faults (n : Node) : Faults := n.read.faults

/-- The value of a sound node, or the fault that counts. -/
def value? (n : Node) : Except Fault Value :=
  let r := n.read
  match r.faults.first? with
  | some f => .error f
  | none => .ok r.value

end Node

end ScopedFn.Yaml
