import ScopedFn.Fault
import ScopedFn.Text.Blank
import ScopedFn.Text.Split

/-!
# Storage mounts

Storage that is shown to the container of a function, always read-only.

* `Mount.render` is the option text handed to the container engine;
* `Mount.parse` reads such a text, `Mount.ofValue` a map with the same fields.
-/

set_option autoImplicit false

namespace ScopedFn

/-- A piece of storage and where the container sees it. -/
structure Mount where
  /-- The type of the storage. -/
  type : String
  /-- Where the storage lies. -/
  source : String
  /-- Where the container sees it. -/
  target : String
  deriving DecidableEq, Repr, Inhabited

namespace Mount

/-- The option text of a mount, with the read-only mark. -/
def render (m : Mount) : String :=
  "type=" ++ m.type ++ ",src=" ++ m.source ++ ",dst=" ++ m.target ++ ":ro"

/-- One option: its name without blanks at the ends, and its value; a blank option is none. -/
def option? (text : String) (cs : List Char) : Except SpecFault (Option (String × String)) :=
  if cs.all Text.isBlank then .ok none
  else
    match cs.dropWhile (· != '=') with
    | [] => .error (.mountOption (String.ofList cs) text)
    | _ :: value =>
      let name := Text.trimBlanks (cs.takeWhile (· != '='))
      .ok (some (String.ofList name, String.ofList value))

/-- Reads the option text of a mount. Of equal options the last one counts, and unknown ones do
not count. -/
def parse (text : String) : Except SpecFault Mount := do
  let options ← (Text.splitOn ',' text.toList).mapM (option? text)
  let m : TextMap := Entries.ofPairs (· == ·) (options.filterMap id)
  return ⟨(m.get? "type").getD "", (m.get? "src").getD "", (m.get? "dst").getD ""⟩

/-- Reads a map with the fields of a mount. -/
def ofValue : Value → Except (OrNoText SpecFault) Mount
  | .map _ es => do
    let type ← (MapEntries.get es "type").shownFilled.mapError .noText
    let source ← (MapEntries.get es "src").shownFilled.mapError .noText
    let target ← (MapEntries.get es "dst").shownFilled.mapError .noText
    return ⟨type, source, target⟩
  | v => .error (.fault (.mountNotMap v.typeName))

end Mount

end ScopedFn
