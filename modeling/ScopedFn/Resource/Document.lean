import ScopedFn.Fault
import ScopedFn.Yaml.Reader
import ScopedFn.Yaml.Writer

/-!
# Resources as documents

A resource read from the text of a document, and written as one.
-/

set_option autoImplicit false

namespace ScopedFn

/-- The failure that a fault in a document amounts to: a malformed text is described, a sound
text that says nothing is not. -/
def Failure.ofDocument (describe : Yaml.Fault → Fault) : Yaml.Fault → Failure
  | .malformed => .fault (describe .malformed)
  | .inexpressible => .fault (describe .inexpressible)
  | other => .document other

namespace Resource

/-- Reads a resource from the text of a document. -/
def ofText (text : String) : StateT Supply (Except Failure) Resource := fun supply =>
  match (Yaml.readOne text).run supply with
  | .error fault => .error (.ofDocument (fun f => .decode (.invalidResource f)) fault)
  | .ok (v, supply) =>
    match ofValue? v with
    | some r => .ok (r, supply)
    | none => .error (.fault (.decode (.resourceNotMap v.typeName)))

/-- Writes a resource as the text of a document. -/
def toText (r : Resource) : Except Yaml.Fault String := Yaml.write r.toValue

/-- A copy in new objects. -/
def copy (r : Resource) : StateM Supply Resource := fun supply =>
  let (v, supply) := (r.toValue.copy).run supply
  ((ofValue? v).getD r, supply)

end Resource

end ScopedFn
