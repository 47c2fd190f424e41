import ScopedFn.Invocation
import ScopedFn.Provenance
import ScopedFn.Report
import ScopedFn.Scope.Partition

/-!
# Applying a function to a collection

A function is applied to the part of a collection that lies in its scope; the rest of the
collection passes by untouched.

1. The scope is told and the collection divided.
2. The function is called on the resources in scope.
3. Its results are stored, if they have a file.
4. A status other than zero is a failure, unless the function may fail.
5. New resources get a provenance.
6. The output is followed by the resources out of scope.

`apply` does all this; `Outcome` tells how the function ended.
-/

set_option autoImplicit false

namespace ScopedFn

/-- How a function ended. -/
structure Outcome where
  /-- The status. -/
  status : Int
  /-- The failure that was allowed, if there was one. -/
  exit : Option ExitFault
  /-- A failure was allowed. -/
  deferred : Bool
  /-- Size and digest of what was sent to the function. -/
  payload : Config.PayloadMeta
  deriving Repr

namespace Outcome

/-- The function failed. -/
def failed (o : Outcome) : Bool := o.status != 0

/-- Turns an allowed failure into a failure. -/
def raise (o : Outcome) : Except Fault Unit :=
  match o.exit with
  | none => .ok ()
  | some e => .error (.exit e)

/-- What operators are told about an allowed failure. -/
def errorPayload? (o : Outcome) : Option Payload :=
  o.exit.map fun e => (Fault.exit e).payload o.deferred

end Outcome

/-- The collection after a function. -/
structure Filtered where
  /-- The output, followed by the resources out of scope. -/
  resources : List Resource
  /-- The results. -/
  results : Option Resource
  /-- How the function ended. -/
  outcome : Outcome
  /-- The scope of the function. -/
  scope : Path
  deriving Repr

/-- The files after results are stored in one of them, and the name of that file. -/
def storedIn (files : Files) (results : Resource) (file : String) :
    Except Failure (String × Files) :=
  let target := Path.Lexical.ofPath file.toList
  let name := String.ofList target.text
  match results.toText with
  | .error fault => .error (.document fault)
  | .ok text =>
    if name.toList.contains '\x00' then .error .unusableFileName
    else
      match files.write target text.toUTF8.toList with
      | .error fault => .error (.fault (.results name fault.message))
      | .ok files => .ok (name, files)

/-- Stores results in a file and gives the file's name. -/
def storeResults (results : Resource) (file : String) : Run String := do
  let (name, files) ← Run.ofExcept (storedIn (← get).files results file)
  modify fun w => { w with files := files }
  return name

namespace Filter

/-- The record that a scope was told. -/
def scopeRecord (d : Descriptor) (scope : Path) (split : Scope.Split) : RunLog → RunLog :=
  RunLog.log d.identity "INFO" "function scope resolved" [
    ("scope_dir", .text (String.ofList scope)),
    ("in_scope", .int split.inside.length),
    ("out_of_scope", .int split.outside.length)]

/-- The record that a function was called. -/
def callRecord (d : Descriptor) (invocation : Invocation) : RunLog → RunLog :=
  RunLog.log d.identity "INFO" "function invoked" ([
    ("exit_code", .int invocation.status),
    ("output", .int invocation.resources.length)] ++ invocation.payload.toDetails)

/-- The record of a function's results. -/
def resultsRecord (d : Descriptor) (results : Resource) : RunLog → RunLog :=
  RunLog.setArtifact (d.identity ++ ".results") results.toValue

/-- What operators are told about the failure of a function. -/
def exitDetails (d : Descriptor) (e : ExitFault) : Details :=
  [("error", ((Fault.exit e).payload d.deferFailure).toValue)]

/-- The record that a function failed. -/
def failureRecord (d : Descriptor) (e : ExitFault) : RunLog → RunLog :=
  RunLog.log d.identity "ERROR" "function failed" (exitDetails d e)

/-- The record that a function failed that may fail. -/
def deferralRecord (d : Descriptor) (e : ExitFault) (l : RunLog) : RunLog :=
  (l.log d.identity "WARNING" "function failure deferred" (exitDetails d e)).warn d.identity
    e.message

/-- Tells the scope and divides the collection. -/
def divide (d : Descriptor) (rs : List Resource) : Run (Path × Scope.Split) := do
  let scope ← Run.orFailure .scope (Scope.functionScope d.config)
  let split ← Run.orFailure (fun f => .partition f.position f.fault)
    (Scope.split scope rs d.globalScope)
  Run.record (scopeRecord d scope split)
  return (scope, split)

/-- Stores the results of a function, if they have a file, and records them. -/
def keepResults (d : Descriptor) : Option Resource → Run Unit
  | none => pure ()
  | some results => do
    match d.resultsFile with
    | none | some "" => pure ()
    | some file => let _ ← storeResults results file
    Run.record (resultsRecord d results)

/-- Calls the function and stores its results. -/
def call (inv : Invoker) (child : Child) (d : Descriptor) (rs : List Resource) :
    Run Invocation := do
  let invocation ← inv.invoke child d rs
  Run.record (callRecord d invocation)
  keepResults d invocation.results
  return invocation

/-- The failure that a status other than zero amounts to. -/
def exitFault (d : Descriptor) (invocation : Invocation) (outside : List Resource) : ExitFault :=
  ⟨d.identity, invocation.status, invocation.resources ++ outside, invocation.results⟩

/-- Decides about a status other than zero: a failure, or a failure that is allowed. -/
def judge (d : Descriptor) (invocation : Invocation) (outside : List Resource) :
    Run (Option ExitFault) := do
  if invocation.succeeded then return none
  let e := exitFault d invocation outside
  if !d.deferFailure then
    Run.record (failureRecord d e)
    throw (.fault (.exit e))
  Run.record (deferralRecord d e)
  return some e

/-- Gives the new resources a provenance. -/
def annotate (scope : Path) (d : Descriptor) (output : List Resource) :
    Run Provenance.Assignment := do
  let functionPath ← Run.orFailure .metadata d.functionPath
  let assignment ← Run.orFailure .metadata
    (Provenance.assign scope functionPath output (← get).supply)
  modify fun w => { w with supply := assignment.supply }
  Run.edit assignment.edits
  return assignment

/-- The failure after edits of the objects that it holds. -/
def editExit (es : List Edit) (e : ExitFault) : ExitFault :=
  { e with
    resources := e.resources.map (·.editAll es)
    results := e.results.map (·.editAll es) }

/-- The collection after a function that may go on. -/
def finish (scope : Path) (outside : List Resource) (invocation : Invocation)
    (exit : Option ExitFault) (assignment : Provenance.Assignment) : Filtered where
  resources := assignment.resources ++ outside
  results := invocation.results.map (·.editAll assignment.edits)
  outcome := {
    status := invocation.status
    exit := exit.map (editExit assignment.edits)
    deferred := exit.isSome
    payload := invocation.payload }
  scope := scope

/-- Applies a function to a collection. -/
def apply (inv : Invoker) (child : Child) (d : Descriptor) (rs : List Resource) :
    Run Filtered := do
  let (scope, split) ← divide d rs
  let invocation ← call inv child d split.inside
  let exit ← judge d invocation split.outside
  let assignment ← annotate scope d invocation.resources
  return finish scope split.outside invocation exit assignment

end Filter

end ScopedFn
