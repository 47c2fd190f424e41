import ScopedFn.Calendar
import ScopedFn.Entries
import ScopedFn.Numeric.Shortest

/-!
# Atoms

Atoms are the scalar values of documents, and the keys of their maps. A tuple of atoms can be a key
too.

* A date, a time and a not-a-number carry the identity of the object that holds them: a document
  can refer to one object at several places, and a not-a-number is the same key only as itself;
* `Atom.same` says when two atoms are one key: numbers of all kinds by their exact value, so the
  truth values are the integers zero and one;
* a list or map can stand inside of itself; in its place there stands an atom that refers to it.
-/

set_option autoImplicit false

namespace ScopedFn

/-- The identity of an object. What occurs twice with one identity is one object. -/
abbrev ObjectId := Nat

/-- The identity of what is no object of a document. -/
def noObject : ObjectId := 0

/-- A scalar value. -/
inductive Atom where
  /-- No value. -/
  | null
  /-- A truth value. -/
  | bool (b : Bool)
  /-- An integer of any size. -/
  | int (n : Int)
  /-- A double-precision number or infinity. -/
  | float (x : Binary64)
  /-- A not-a-number. -/
  | nan (id : ObjectId)
  /-- A text. -/
  | text (s : String)
  /-- A text with surrogates that make no pairs, in which stand-ins take their place. -/
  | torn (s : String)
  /-- A byte string. -/
  | bytes (b : List UInt8)
  /-- A day. -/
  | date (id : ObjectId) (d : Date)
  /-- A time on a day. -/
  | dateTime (id : ObjectId) (t : DateTime)
  /-- An object that no document can express, of no class in particular. -/
  | foreign (id : ObjectId)
  /-- The list or map of the identity, which the place of this atom lies in. It is no key. -/
  | enclosing (id : ObjectId) (isList : Bool)
  /-- A tuple that is a key or a part of one. -/
  | tuple (id : ObjectId) (items : List Atom)
  deriving Repr, Inhabited

namespace Atom

/-- The one not-a-number that document text denotes. -/
def documentNan : Atom := .nan noObject

/-- A double-precision number as an atom; the identity is for a not-a-number. -/
def ofBinary64 (id : ObjectId) (x : Binary64) : Atom := if x.isNaN then .nan id else .float x

/-- The integer that a truth value or integer is. -/
def integer? : Atom → Option Int
  | .bool b => some (if b then 1 else 0)
  | .int n => some n
  | _ => none

mutual

/-- Two atoms are one key. -/
def same : Atom → Atom → Bool
  | .null, .null => true
  | .text s, .text t => s == t
  | .torn s, .torn t => s == t
  | .bytes b, .bytes c => b == c
  | .nan i, .nan j => i == j
  | .date _ d, .date _ e => d == e
  | .dateTime _ t, .dateTime _ u => t.sameInstant u
  | .foreign i, .foreign j => i == j
  | .tuple _ xs, .tuple _ ys => sameAll xs ys
  | .float x, .float y => x.eq y
  | .float x, b => b.integer?.any x.eqInt
  | a, .float y => a.integer?.any y.eqInt
  | a, b =>
    match a.integer?, b.integer? with
    | some m, some n => m == n
    | _, _ => false

/-- Two lists of atoms are the same keys in the same order. -/
def sameAll : List Atom → List Atom → Bool
  | [], [] => true
  | x :: xs, y :: ys => same x y && sameAll xs ys
  | _, _ => false

end

/-- Null, false, zero and what is empty count as absent; every other atom is filled. -/
def isFilled : Atom → Bool
  | .null => false
  | .bool b => b
  | .int n => n != 0
  | .float x => !x.isZero
  | .text s | .torn s => s != ""
  | .bytes b => !b.isEmpty
  | .tuple _ items => !items.isEmpty
  | .nan _ | .date _ _ | .dateTime _ _ | .foreign _ | .enclosing _ _ => true

end Atom

end ScopedFn
