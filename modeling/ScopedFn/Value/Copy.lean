import ScopedFn.Value.Basic

/-!
# Copies of values

A copy has the contents of its model in new objects: two places share an object in the copy
exactly where they share one in the model.

* Identities are natural numbers, and a `Supply` is the first one that is not in use;
* `Value.copy` moves every identity up by the supply, so that the copy shares nothing with any
  value made before;
* a tuple of plain atoms cannot change, and a copy keeps it as the object it is.
-/

set_option autoImplicit false

namespace ScopedFn

/-- The first identity that is not in use. -/
abbrev Supply := ObjectId

/-- A new identity. -/
def Supply.next : StateM Supply ObjectId := fun s => (s, s + 1)

namespace Atom

mutual

/-- More than every identity in the atom. -/
def bound : Atom → Nat
  | .nan id | .date id _ | .dateTime id _ | .foreign id | .enclosing id _ => id + 1
  | .tuple id items => max (id + 1) (boundAll items)
  | _ => 0

/-- More than every identity in the atoms. -/
def boundAll : List Atom → Nat
  | [] => 0
  | a :: as => max (bound a) (boundAll as)

end

mutual

/-- A copy of the atom is the atom itself. -/
def isPlain : Atom → Bool
  | .date _ _ | .dateTime _ _ | .foreign _ | .enclosing _ _ => false
  | .tuple _ items => allPlain items
  | _ => true

/-- Copies of the atoms are the atoms themselves. -/
def allPlain : List Atom → Bool
  | [] => true
  | a :: as => isPlain a && allPlain as

end

mutual

/-- The atom with every identity moved up, plain parts excepted. -/
def shift (k : Nat) : Atom → Atom
  | .date id d => .date (id + k) d
  | .dateTime id t => .dateTime (id + k) t
  | .foreign id => .foreign (id + k)
  | .enclosing id isList => .enclosing (id + k) isList
  | .tuple id items =>
    if allPlain items then .tuple id items else .tuple (id + k) (shiftAll k items)
  | a => a

/-- The atoms with every identity moved up. -/
def shiftAll (k : Nat) : List Atom → List Atom
  | [] => []
  | a :: as => shift k a :: shiftAll k as

end

end Atom

namespace Value

mutual

/-- More than every identity in the value. -/
def bound : Value → Nat
  | .atom a => a.bound
  | .list id items | .tuple id items => max (id + 1) (boundItems items)
  | .map id es => max (id + 1) (boundEntries es)
  | .set id ms => max (id + 1) (Atom.boundAll ms)

/-- More than every identity in the items. -/
def boundItems : List Value → Nat
  | [] => 0
  | v :: vs => max (bound v) (boundItems vs)

/-- More than every identity in the entries. -/
def boundEntries : List (Atom × Value) → Nat
  | [] => 0
  | (k, v) :: es => max (max k.bound (bound v)) (boundEntries es)

end

mutual

/-- A copy of the value is the value itself. -/
def isPlain : Value → Bool
  | .atom a => a.isPlain
  | .tuple _ items => allPlain items
  | _ => false

/-- Copies of the items are the items themselves. -/
def allPlain : List Value → Bool
  | [] => true
  | v :: vs => isPlain v && allPlain vs

end

mutual

/-- The value with every identity moved up, plain parts excepted. -/
def shift (k : Nat) : Value → Value
  | .atom a => .atom (a.shift k)
  | .list id items => .list (id + k) (shiftItems k items)
  | .tuple id items =>
    if allPlain items then .tuple id items else .tuple (id + k) (shiftItems k items)
  | .map id es => .map (id + k) (shiftEntries k es)
  | .set id ms => .set (id + k) (Atom.shiftAll k ms)

/-- The items with every identity moved up. -/
def shiftItems (k : Nat) : List Value → List Value
  | [] => []
  | v :: vs => shift k v :: shiftItems k vs

/-- The entries with every identity moved up. -/
def shiftEntries (k : Nat) : List (Atom × Value) → List (Atom × Value)
  | [] => []
  | (key, v) :: es => (key.shift k, shift k v) :: shiftEntries k es

end

/-- A copy in new objects. -/
def copy (v : Value) : StateM Supply Value := fun s => (v.shift s, s + v.bound)

end Value

end ScopedFn
