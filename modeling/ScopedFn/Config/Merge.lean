import ScopedFn.Config.Fault
import ScopedFn.Value.Circular
import ScopedFn.Value.Display

/-!
# Merging configuration layers

`merge` lays one configuration over another. Maps are merged key by key, a list replaces whatever
it meets, and any other value replaces one of its own type only. Keys keep the position and the
spelling of the layer below, new keys come behind them. A conflict is described by the key as text,
so one at a key that is given as no text is not described.

A layer may contain itself. What is merged is taken out of the maps that it lies in, on both sides,
and on the lower side these maps are seen as they are by then. Two maps that lead back to themselves
by the same keys are merged without an end.
-/

set_option autoImplicit false

namespace ScopedFn.Config

/-- Why two layers cannot be merged. -/
inductive MergeFault where
  /-- A fault of the configuration. -/
  | fault (fault : Fault)
  /-- A conflict would be described by a key that is given as no text. -/
  | noText (fault : TextFault)
  /-- Merging comes to no end. -/
  | endless
  deriving DecidableEq, Repr

/-- The fault of two values that cannot be laid over each other. -/
def conflict (key : Atom) (below above : Value) : MergeFault :=
  match key.shown with
  | .ok shown => .fault (.typeConflict shown below.typeName above.typeName)
  | .error fault => .noText fault

/-- One value laid over another, if it is known how maps are merged. -/
def lay (merged : ObjectId → MapEntries → ObjectId → MapEntries → Except MergeFault MapEntries)
    (key : Atom) (below above : Value) : Except MergeFault Value :=
  match below, above with
  | .map id es, .map above_id above_es => (merged id es above_id above_es).map (.map id)
  | _, .list id items => .ok (.list id items)
  | v, w => if v.typeName = w.typeName then .ok w else .error (conflict key v w)

/-- An entry of a map laid over the entries of another one, if it is known how maps are merged. -/
def layEntry (merged : ObjectId → MapEntries → ObjectId → MapEntries → Except MergeFault MapEntries)
    (id : ObjectId) (upper : Value) (es : MapEntries) : Atom × Value → Except MergeFault MapEntries
  | (k, part) => do
    let whole : Value := .map id es
    let v := (part.inside upper).beside whole
    match Entries.find? Atom.same k es with
    | none => return Entries.put Atom.same k v es
    | some old => return Entries.put Atom.same k (← lay merged k ((old.inside whole).beside whole) v) es

/-- The entries of a map with those of another one laid over them, one after the other. The number
bounds the depth. -/
def mergeMaps : Nat → ObjectId → MapEntries → ObjectId → MapEntries → Except MergeFault MapEntries
  | 0, _, _, _, _ => .error .endless
  | depth + 1, id, es, above_id, above =>
    above.foldlM (layEntry (mergeMaps depth) id (.map above_id above)) es

/-- A depth that merging comes to an end before, if it does. On the way down a part of the upper layer
is laid over the same part of either layer again only if that part has got another key by then. -/
def depthBound (base override : Value) : Nat :=
  let parts := base.size + override.size
  parts * override.size * parts + 1

/-- Lays a configuration over another one. -/
def merge (base override : Value) : Except MergeFault Value :=
  match base, override with
  | .map id es, .map above_id above =>
    (mergeMaps (depthBound base override) id es above_id above).map (.map id)
  | b, o => .error (.fault (.layersNotMaps b.typeName o.typeName))

end ScopedFn.Config
