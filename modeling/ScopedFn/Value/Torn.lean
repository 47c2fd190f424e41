import ScopedFn.Text.Surrogate
import ScopedFn.Value.Basic

/-!
# Torn texts

Where a document writes a surrogate that makes no pair, the text that it stands in is read with a
stand-in. `Value.tear` tells such texts from others, in a value that was read with stand-ins, and
`Value.mend` forgets it again.
-/

set_option autoImplicit false

namespace ScopedFn

namespace Atom

mutual

/-- The atom holds a text with stand-ins. -/
def holdsStandIn : Atom → Bool
  | .text s => s.toList.any Text.isStandIn
  | .tuple _ items => anyHoldsStandIn items
  | _ => false

/-- One of the atoms holds a text with stand-ins. -/
def anyHoldsStandIn : List Atom → Bool
  | [] => false
  | a :: as => holdsStandIn a || anyHoldsStandIn as

end

mutual

/-- The atom with its texts marked as torn, where they hold stand-ins. -/
def tear : Atom → Atom
  | .text s => if s.toList.any Text.isStandIn then .torn s else .text s
  | .tuple id items => .tuple id (tearAll items)
  | a => a

/-- The atoms with their texts marked as torn. -/
def tearAll : List Atom → List Atom
  | [] => []
  | a :: as => tear a :: tearAll as

end

/-- A torn text as one that holds stand-ins. -/
def mend : Atom → Atom
  | .torn s => .text s
  | a => a

end Atom

namespace Value

mutual

/-- The value holds a text with stand-ins. -/
def holdsStandIn : Value → Bool
  | .atom a => a.holdsStandIn
  | .list _ items | .tuple _ items => anyHoldsStandIn items
  | .map _ es => entriesHoldStandIn es
  | .set _ ms => Atom.anyHoldsStandIn ms

/-- One of the items holds a text with stand-ins. -/
def anyHoldsStandIn : List Value → Bool
  | [] => false
  | v :: vs => holdsStandIn v || anyHoldsStandIn vs

/-- One of the keys and values holds a text with stand-ins. -/
def entriesHoldStandIn : List (Atom × Value) → Bool
  | [] => false
  | (k, v) :: es => k.holdsStandIn || holdsStandIn v || entriesHoldStandIn es

end

mutual

/-- The value with its texts marked as torn, where they hold stand-ins. -/
def tear : Value → Value
  | .atom a => .atom a.tear
  | .list id items => .list id (tearItems items)
  | .tuple id items => .tuple id (tearItems items)
  | .map id es => .map id (tearEntries es)
  | .set id ms => .set id (Atom.tearAll ms)

/-- The items with their texts marked as torn. -/
def tearItems : List Value → List Value
  | [] => []
  | v :: vs => tear v :: tearItems vs

/-- The entries with their texts marked as torn. -/
def tearEntries : List (Atom × Value) → List (Atom × Value)
  | [] => []
  | (k, v) :: es => (k.tear, tear v) :: tearEntries es

end

mutual

/-- The value with its torn texts as texts that hold stand-ins. -/
def mend : Value → Value
  | .atom a => .atom a.mend
  | .list id items => .list id (mendItems items)
  | .tuple id items => .tuple id (mendItems items)
  | .map id es => .map id (mendEntries es)
  | .set id ms => .set id ms

/-- The items with their torn texts as texts. -/
def mendItems : List Value → List Value
  | [] => []
  | v :: vs => mend v :: mendItems vs

/-- The entries with their torn texts as texts. -/
def mendEntries : List (Atom × Value) → List (Atom × Value)
  | [] => []
  | (k, v) :: es => (k.mend, mend v) :: mendEntries es

end

end Value

end ScopedFn
