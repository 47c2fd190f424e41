import ScopedFn.Fault

/-!
# Error reports

The form in which errors are handed to operators and written into logs: a stable code, a
message, data, a hint, and whether the work can go on.

* `Report` is an error by its parts, and `Fault.report` gives the parts of a cause;
* `Report.payload` is the form for operators. Only the failure of a function that was allowed to
  fail is not fatal.
-/

set_option autoImplicit false

namespace ScopedFn

/-- The stable code of a group of causes. -/
def Family.code : Family → String
  | metadata => "RESOURCE_META_INVALID"
  | scope => "SCOPE_RESOLUTION_FAILED"
  | partition => "PARTITION_FAILED"
  | encode => "ENVELOPE_ENCODE_FAILED"
  | decode => "ENVELOPE_DECODE_FAILED"
  | spec => "FUNCTION_SPEC_INVALID"
  | spawn => "FUNCTION_SPAWN_FAILED"
  | exit => "FUNCTION_EXIT_NONZERO"
  | results => "RESULTS_WRITE_FAILED"
  | general => "FUNCTION_EXECUTION_ERROR"

/-- What operators are told. -/
structure Payload where
  /-- The stable code. -/
  code : String
  /-- What happened. -/
  message : String
  /-- The data. -/
  details : MapEntries
  /-- What can be done. -/
  hint : Option String
  /-- The work cannot go on. -/
  fatal : Bool
  deriving Repr

/-- The payload as a value. -/
def Payload.toValue (p : Payload) : Value :=
  .record [
    ("type", .text p.code),
    ("message", .text p.message),
    ("details", .map noObject p.details),
    ("hint", (p.hint.map Value.text).getD .null),
    ("fatal", .bool p.fatal)]

/-- An error by its parts. -/
structure Report where
  /-- The group of the cause. -/
  family : Family
  /-- The wording. -/
  message : String
  /-- The data. -/
  details : MapEntries
  /-- What can be done. -/
  hint : Option String
  /-- The status of a function that failed. -/
  status : Option Int

/-- The data with the status of a function that failed, unless they tell one. -/
def Report.fullDetails (r : Report) : MapEntries :=
  match r.status with
  | none => r.details
  | some status =>
    if Entries.has Atom.same (.text "exit_code") r.details then r.details
    else Entries.put Atom.same (.text "exit_code") (.int status) r.details

/-- What operators are told about an error; `deferred` says that the function was allowed to
fail. -/
def Report.payload (r : Report) (deferred : Bool) : Payload where
  code := r.family.code
  message := if r.message = "" then "Erro de execução" else r.message
  details := r.fullDetails
  hint := r.hint
  fatal := !(deferred && r.status.isSome)

/-- A cause by its parts. -/
def Fault.report (f : Fault) : Report where
  family := f.family
  message := f.message
  details := f.details.map fun (k, v) => (.text k, v)
  hint := f.hint?
  status :=
    match f with
    | .exit e => some e.status
    | _ => none

/-- What operators are told about a cause. -/
def Fault.payload (f : Fault) (deferred : Bool) : Payload := f.report.payload deferred

end ScopedFn
