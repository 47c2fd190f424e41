import ScopedFn.Value.Atom

/-!
# Document values

A `Value` is what a document says: an atom, a list, a tuple, a map or a set. Every composite
carries the identity of the object it is; a value in which one identity occurs twice shares that
object between two places. How deep values lie in each other plays no part in what is done with them.

* `Value.get?` looks up a text key in a map;
* `Value.isFilled` is false for null, false, zero and everything empty;
* `Value.typeName` is the name of a value's kind in messages.
-/

set_option autoImplicit false

namespace ScopedFn

/-- A value of a document. -/
inductive Value where
  /-- A scalar value. -/
  | atom (a : Atom)
  /-- A list. -/
  | list (id : ObjectId) (items : List Value)
  /-- A tuple, as the entries of an ordered map are. -/
  | tuple (id : ObjectId) (items : List Value)
  /-- A map from atoms to values, in insertion order. -/
  | map (id : ObjectId) (entries : List (Atom × Value))
  /-- A set of atoms. Its members have no order of their own: here they are shown and written as they
  were put in, where a hash table may have another order. -/
  | set (id : ObjectId) (members : List Atom)
  deriving Repr, Inhabited

/-- The entries of a map. -/
abbrev MapEntries := List (Atom × Value)

namespace Value

/-- No value. -/
@[match_pattern] abbrev null : Value := .atom .null

/-- A text. -/
@[match_pattern] abbrev text (s : String) : Value := .atom (.text s)

/-- An integer. -/
@[match_pattern] abbrev int (n : Int) : Value := .atom (.int n)

/-- A truth value. -/
@[match_pattern] abbrev bool (b : Bool) : Value := .atom (.bool b)

/-- The value is null. -/
def isNull : Value → Bool
  | .null => true
  | _ => false

/-- The entries of a map; other values have none. -/
def entries? : Value → Option MapEntries
  | .map _ es => some es
  | _ => none

/-- Anything but null, false, zero and what is empty. -/
def isFilled : Value → Bool
  | .atom a => a.isFilled
  | .list _ items | .tuple _ items => !items.isEmpty
  | .map _ es => !es.isEmpty
  | .set _ ms => !ms.isEmpty

/-- The name of an atom's kind in messages. A reference to what a value lies in has no name of its
own: what is looked at has been taken out of it. -/
def atomTypeName : Atom → String
  | .null => "NoneType"
  | .bool _ => "bool"
  | .int _ => "int"
  | .float _ | .nan _ => "float"
  | .text _ | .torn _ => "str"
  | .bytes _ => "bytes"
  | .date _ _ => "date"
  | .dateTime _ _ => "datetime"
  | .foreign _ => "object"
  | .enclosing _ _ => ""
  | .tuple _ _ => "tuple"

/-- The name of a value's kind in messages. -/
def typeName : Value → String
  | .atom a => atomTypeName a
  | .list _ _ => "list"
  | .tuple _ _ => "tuple"
  | .map _ _ => "dict"
  | .set _ _ => "set"

end Value

namespace MapEntries

/-- The value of a text key. -/
def get? (es : MapEntries) (key : String) : Option Value := Entries.find? Atom.same (.text key) es

/-- The value of a text key, null if there is none. -/
def get (es : MapEntries) (key : String) : Value := (es.get? key).getD .null

end MapEntries

namespace Value

/-- The value of a text key of a map. -/
def get? (v : Value) (key : String) : Option Value :=
  match v with
  | .map _ es => MapEntries.get? es key
  | _ => none

/-- The value at a path of text keys; null where the path leaves the maps. -/
def field (v : Value) : List String → Value
  | [] => v
  | key :: path =>
    match v with
    | .map _ es => (MapEntries.get es key).field path
    | _ => .null

end Value

end ScopedFn
