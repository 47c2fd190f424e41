import ScopedFn.Value.Copy

/-!
# Values that contain themselves

A list or map can stand inside of itself, as in a document that refers to a collection from within.
Such a value is cut off where it would begin again: there stands an atom that refers to the
collection. So a part of a value may refer to what lies around it, and is taken out of it first when
it is looked at or copied.

* `Value.isAcyclic` : nothing in the value refers to what it lies in;
* `Value.alone`, `Value.inside` : a part of a list or map, taken out of it;
* `Value.closed` : a value with all that it refers to in it;
* `Value.beside` : a copy whose lists and maps are none of those of another value;
* `Value.openFields`, `Value.openItems` : a map or list with parts of it taken out of it.
-/

set_option autoImplicit false

namespace ScopedFn

namespace Atom

/-- The atom refers to a list or map that it lies in. -/
def isReference : Atom → Bool
  | .enclosing _ _ => true
  | _ => false

end Atom

namespace Value

mutual

/-- Nothing in the value refers to a list or map that it lies in. -/
def isAcyclic : Value → Bool
  | .atom a => !a.isReference
  | .list _ items | .tuple _ items => allAcyclic items
  | .map _ es => areAcyclic es
  | .set _ _ => true

/-- Nothing in the items refers to what it lies in. -/
def allAcyclic : List Value → Bool
  | [] => true
  | v :: vs => isAcyclic v && allAcyclic vs

/-- Nothing in the entries refers to what it lies in. -/
def areAcyclic : List (Atom × Value) → Bool
  | [] => true
  | (_, v) :: es => isAcyclic v && areAcyclic es

end

mutual

/-- How many values the value is made of. -/
def size : Value → Nat
  | .atom _ | .set _ _ => 1
  | .list _ items | .tuple _ items => sizeOfItems items + 1
  | .map _ es => sizeOfEntries es + 1

/-- How many values the items are made of. -/
def sizeOfItems : List Value → Nat
  | [] => 0
  | v :: vs => size v + sizeOfItems vs

/-- How many values the entries are made of. -/
def sizeOfEntries : List (Atom × Value) → Nat
  | [] => 0
  | (_, v) :: es => size v + sizeOfEntries es

end

/-! ### Parts -/

mutual

/-- The list or map with an identity, in a value. -/
def part? (target : ObjectId) : Value → Option Value
  | .list id items =>
    if id = target then some (.list id items) else partOfItems? target items
  | .tuple _ items => partOfItems? target items
  | .map id es => if id = target then some (.map id es) else partOfEntries? target es
  | _ => none

/-- The list or map with an identity, in the items. -/
def partOfItems? (target : ObjectId) : List Value → Option Value
  | [] => none
  | v :: vs => (part? target v).or (partOfItems? target vs)

/-- The list or map with an identity, in the entries. -/
def partOfEntries? (target : ObjectId) : List (Atom × Value) → Option Value
  | [] => none
  | (_, v) :: es => (part? target v).or (partOfEntries? target es)

end

/-- The list or map with an identity lies around. -/
def isAround (around : List ObjectId) (id : ObjectId) : Bool := id != noObject && around.contains id

mutual

/-- The value with lists and maps cut off where they lie in themselves, and with others put in where
they are referred to and do not lie around. -/
def resolve (put : List ObjectId → ObjectId → Option Value) (around : List ObjectId) : Value → Value
  | .atom (.enclosing id isList) =>
    if isAround around id then .atom (.enclosing id isList)
    else (put around id).getD (.atom (.enclosing id isList))
  | .list id items =>
    if isAround around id then .atom (.enclosing id true)
    else .list id (resolveItems put (id :: around) items)
  | .tuple id items => .tuple id (resolveItems put around items)
  | .map id es =>
    if isAround around id then .atom (.enclosing id false)
    else .map id (resolveEntries put (id :: around) es)
  | v => v

/-- The items with lists and maps cut off and others put in. -/
def resolveItems (put : List ObjectId → ObjectId → Option Value) (around : List ObjectId) :
    List Value → List Value
  | [] => []
  | v :: vs => resolve put around v :: resolveItems put around vs

/-- The entries with lists and maps cut off and others put in. -/
def resolveEntries (put : List ObjectId → ObjectId → Option Value) (around : List ObjectId) :
    List (Atom × Value) → List (Atom × Value)
  | [] => []
  | (k, v) :: es => (k, resolve put around v) :: resolveEntries put around es

end

/-- The lists and maps of a value put in where they are referred to and do not lie around. The number
bounds how deep they are put into each other. -/
def putIn (whole : Value) : Nat → List ObjectId → ObjectId → Option Value
  | 0, _, _ => none
  | depth + 1, around, id =>
    (whole.part? id).map (resolve (putIn whole depth) around)

/-- A part of a value by itself: what it refers to is put in, and cut off where it begins again. On the
way down each list or map is put in once at most. -/
def alone (part whole : Value) : Value := resolve (putIn whole whole.size) [] part

/-- A part of a list or map, taken out of it. -/
def inside (part whole : Value) : Value := if part.isAcyclic then part else part.alone whole

/-- A value with all that it refers to in it: what is referred to from elsewhere is put in there. -/
def closed (v : Value) : Value := v.alone v

/-! ### Copies -/

/-- The identity moved up, unless it is that of no object. -/
def renewed (k : Nat) (id : ObjectId) : ObjectId := if id = noObject then noObject else id + k

mutual

/-- The value with the identities of its lists and maps moved up. -/
def renew (k : Nat) : Value → Value
  | .atom (.enclosing id isList) => .atom (.enclosing (renewed k id) isList)
  | .list id items => .list (renewed k id) (renewItems k items)
  | .tuple id items => .tuple id (renewItems k items)
  | .map id es => .map (renewed k id) (renewEntries k es)
  | v => v

/-- The items with identities moved up. -/
def renewItems (k : Nat) : List Value → List Value
  | [] => []
  | v :: vs => renew k v :: renewItems k vs

/-- The entries with identities moved up. -/
def renewEntries (k : Nat) : List (Atom × Value) → List (Atom × Value)
  | [] => []
  | (key, v) :: es => (key, renew k v) :: renewEntries k es

end

/-- A copy of a value that is put in another one: none of its lists and maps is one of those that are
in there. Where nothing is referred to, it does not matter which ones they are. -/
def beside (v whole : Value) : Value := if v.isAcyclic then v else v.renew whole.bound

/-! ### Parts of parts -/

/-- A map with some of its fields by themselves, and each of them opened in turn. -/
def openFields (fields : List (String × (Value → Value))) (v : Value) : Value :=
  match v with
  | .map id es =>
    .map id (es.map fun (k, part) =>
      match fields.find? fun (name, _) => Atom.same (.text name) k with
      | some (_, opened) => (k, opened (part.alone v))
      | none => (k, part))
  | v => v

/-- A list with its items by themselves, and each of them opened in turn. -/
def openItems (opened : Value → Value) (v : Value) : Value :=
  match v with
  | .list id items => .list id (items.map fun part => opened (part.alone v))
  | .tuple id items => .tuple id (items.map opened)
  | v => v

end Value

end ScopedFn
