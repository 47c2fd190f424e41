import ScopedFn.Value.Circular
import ScopedFn.Value.Torn
import ScopedFn.Yaml.Meaning
import ScopedFn.Yaml.Tree

/-!
# Reading documents

The values that a text says.

* `readAll` gives the values of all documents in the text;
* `readOne` wants at most one document, and gives null for none;
* `readFreely` does the same, and follows what the others do not: collections that contain
  themselves, and halves of surrogate pairs.

Documents are read one after the other: a fault in the meaning of a document comes before any
fault in the text behind it.
-/

set_option autoImplicit false

namespace ScopedFn.Yaml

/-- The state before the first document of a text. -/
def BuildState.start (text : List Char) (supply : Supply) : BuildState :=
  let (tokens, fault) := Token.ofText text
  ⟨tokens, fault.getD .malformed, supply, [], [], []⟩

/-- The values of the documents from here on. The number bounds how many are looked for. -/
def readFrom (first : Bool) : Nat → BuildState → Except Fault (List Value × Supply)
  | 0, s => .ok ([], s.supply)
  | n + 1, s => do
    match ← (Build.document? first).run s with
    | (none, s) => return ([], s.supply)
    | (some node, s) =>
      let v ← node.value?
      let (vs, supply) ← readFrom false n s
      return (v :: vs, supply)

/-- The value, said by a text, neither contains itself nor holds halves of surrogate pairs. What is
read as a resource, or sent as one, is not followed unless it is whole. -/
def isWhole (text : List Char) (v : Value) : Bool :=
  v.isAcyclic && !(Text.escapesSurrogate text && v.holdsStandIn)

/-- The values of all documents in a text. -/
def readAll (text : String) : StateT Supply (Except Fault) (List Value) := fun supply => do
  let s := BuildState.start text.toList supply
  let (vs, supply) ← readFrom true (s.tokens.length + 1) s
  if vs.all (isWhole text.toList) then return (vs, supply) else throw .unfollowed

/-- The value of the only document in a text, null if there is none, as it is read. -/
def readSingle (text : String) : StateT Supply (Except Fault) Value := fun supply => do
  match ← (Build.document? true).run (BuildState.start text.toList supply) with
  | (none, s) => return (.null, s.supply)
  | (some node, s) =>
    let ((), s) ← Build.finish.run s
    return (← node.value?, s.supply)

/-- The value of the only document in a text, null if there is none. -/
def readOne (text : String) : StateT Supply (Except Fault) Value := do
  let v ← readSingle text
  if isWhole text.toList v then return v else throw .unfollowed

/-- The value of the only document in a text, null if there is none. It may contain itself, and hold
halves of surrogate pairs. Stand-ins that cannot be told from other characters are not followed. -/
def readFreely (text : String) : StateT Supply (Except Fault) Value := do
  let v ← readSingle text
  let v := if v.isAcyclic then v else v.closed
  if !Text.escapesSurrogate text.toList then return v
  else if Text.mentionsStandIn text.toList then throw .unfollowed
  else return v.tear

end ScopedFn.Yaml
