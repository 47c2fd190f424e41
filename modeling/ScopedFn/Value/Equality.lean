import ScopedFn.Value.Basic

/-!
# Equality of values

Two values are the same when they have the same kind and the same contents: lists and tuples
element by element, maps entry by entry in any order, sets by membership, atoms as keys are.
Identities play no part, except for objects that have no contents.
-/

set_option autoImplicit false

namespace ScopedFn.Value

mutual

/-- The two values have the same contents. -/
def same : Value → Value → Bool
  | .atom a, .atom b => a.same b
  | .list _ xs, .list _ ys => sameItems xs ys
  | .tuple _ xs, .tuple _ ys => sameItems xs ys
  | .map _ es, .map _ fs => es.length == fs.length && sameEntries es fs
  | .set _ ms, .set _ ns => ms.length == ns.length && ms.all fun m => ns.any m.same
  | _, _ => false

/-- The two lists have the same values in the same order. -/
def sameItems : List Value → List Value → Bool
  | [], [] => true
  | x :: xs, y :: ys => same x y && sameItems xs ys
  | _, _ => false

/-- Each entry of the first list has its key and value in the second. -/
def sameEntries : List (Atom × Value) → List (Atom × Value) → Bool
  | [], _ => true
  | (k, v) :: es, fs => (Entries.find? Atom.same k fs).any (same v) && sameEntries es fs

end

end ScopedFn.Value
