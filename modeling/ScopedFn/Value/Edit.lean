import ScopedFn.Value.Basic

/-!
# Edits

An edit changes the entries of one map object, and so shows at every place where that object
occurs. `Value.edit` carries an edit out in a value, `Value.editAll` several one after the other.
-/

set_option autoImplicit false

namespace ScopedFn

/-- A change of the entries of a map. -/
inductive Change where
  /-- Sets the value of a key. -/
  | put (key : Atom) (v : Value)
  /-- Removes a key. -/
  | erase (key : Atom)
  deriving Repr

/-- The entries after the change. -/
def Change.apply : Change → MapEntries → MapEntries
  | .put k v, es => Entries.put Atom.same k v es
  | .erase k, es => Entries.erase Atom.same k es

/-- A change of one map object. -/
structure Edit where
  /-- The identity of the map. -/
  target : ObjectId
  /-- What happens to its entries. -/
  change : Change
  deriving Repr

namespace Value

mutual

/-- The value after the edit: changed wherever the target occurs. -/
def edit (e : Edit) : Value → Value
  | .list id items => .list id (editItems e items)
  | .tuple id items => .tuple id (editItems e items)
  | .map id es =>
    .map id (if id = e.target then e.change.apply (editEntries e es) else editEntries e es)
  | v => v

/-- The items after the edit. -/
def editItems (e : Edit) : List Value → List Value
  | [] => []
  | v :: vs => edit e v :: editItems e vs

/-- The entries after the edit. -/
def editEntries (e : Edit) : List (Atom × Value) → List (Atom × Value)
  | [] => []
  | (k, v) :: es => (k, edit e v) :: editEntries e es

end

/-- The value after several edits, the first one first. -/
def editAll (es : List Edit) (v : Value) : Value := es.foldl (fun v e => v.edit e) v

end Value

end ScopedFn
