import ScopedFn.Config.Settings
import ScopedFn.Descriptor
import ScopedFn.Envelope
import ScopedFn.Files
import ScopedFn.Process.Basic
import ScopedFn.RunLog

/-!
# Invoking functions

One call of a function: its command and environment are made, its resources are sent to it, and
what it wrote is read, whatever the status it ended with.

* `Invoker.command` is the command line; a container gets only the variables declared to it and
  no privileges;
* `Invoker.invoke` makes the call. `World` is all that a call can change, and `Run` a step that may
  change it and may fail; what has changed before a failure stays.
-/

set_option autoImplicit false

namespace ScopedFn

/-- All that running functions can change. -/
structure World where
  /-- The first identity not in use. -/
  supply : Supply
  /-- The files. -/
  files : Files
  /-- The processes that were started or tried, first to last. -/
  calls : List Request
  /-- The record of the run, if one is kept. -/
  log : Option RunLog
  /-- The edits of objects that were carried out, first to last; each of them concerns the objects
  that there were at its time. -/
  edits : List Edit
  deriving Repr

namespace World

/-- The world after something is recorded, if a record is kept. -/
def record (f : RunLog → RunLog) (w : World) : World := { w with log := w.log.map f }

/-- The world after edits of objects, which show in the record as well. -/
def edit (es : List Edit) (w : World) : World :=
  { w with log := w.log.map (RunLog.editAll es), edits := w.edits ++ es }

/-- The world after a process was started, or the attempt was made. -/
def call (request : Request) (w : World) : World := { w with calls := w.calls ++ [request] }

end World

/-- A step that may change the world and may fail. -/
abbrev Run := ExceptT Failure (StateM World)

namespace Run

/-- A result, or a described cause of failure. -/
def orFault {ε α : Type} (describe : ε → Fault) : Except ε α → Run α
  | .ok a => pure a
  | .error e => throw (.fault (describe e))

/-- A result, or the failure that a fault amounts to. -/
def orFailure {ε α : Type} (describe : ε → Fault) : Except (OrNoText ε) α → Run α
  | .ok a => pure a
  | .error e => throw (e.failure describe)

/-- A result, or any failure. -/
def ofExcept {α : Type} : Except Failure α → Run α
  | .ok a => pure a
  | .error e => throw e

/-- A step that only takes identities. -/
def withSupply {α : Type} (step : StateT Supply (Except Failure) α) : Run α := do
  match step.run (← get).supply with
  | .error e => throw e
  | .ok (a, supply) =>
    modify fun w => { w with supply := supply }
    return a

/-- Records something, if a record is kept. -/
def record (f : RunLog → RunLog) : Run Unit := modify (World.record f)

/-- Carries out edits of objects. -/
def edit (es : List Edit) : Run Unit := modify (World.edit es)

end Run

/-- How functions are called. -/
structure Invoker where
  /-- The settings. -/
  settings : Config.Settings
  /-- The variables that are passed on. -/
  environ : TextMap
  /-- A command that replaces the one of the description; empty for none. -/
  override : List String
  deriving Repr

/-- What a call gives. -/
structure Invocation where
  /-- The resources that the function wrote. -/
  resources : List Resource
  /-- Its results. -/
  results : Option Resource
  /-- The status it ended with. -/
  status : Int
  /-- Size and digest of what was sent to it. -/
  payload : Config.PayloadMeta
  deriving Repr

/-- The function ended well. -/
def Invocation.succeeded (i : Invocation) : Bool := i.status == 0

namespace Invoker

variable (inv : Invoker)

/-- The variables of the process. -/
def environment : TextMap := Environment.build inv.environ inv.settings.signals

/-- The command line of a container. -/
def containerCommand (d : Descriptor) (env : TextMap) : List String :=
  [inv.settings.engine, "run", "--rm", "-i", "-a", "STDIN", "-a", "STDOUT", "-a", "STDERR",
    "--network", if d.network ≠ "" then d.network else inv.settings.network,
    "--user", inv.settings.user, "--security-opt=no-new-privileges"] ++
    d.mounts.flatMap (fun m => ["--mount", m.render]) ++
    (Environment.declared env).flatMap (fun name => ["-e", name]) ++
    [d.image]

/-- The command line of a function. -/
def command (d : Descriptor) (env : TextMap) : Except SpecFault (List String) :=
  if inv.override ≠ [] then .ok inv.override
  else
    match d.runtime with
    | .error fault => .error fault
    | .ok .container => .ok (inv.containerCommand d env)
    | .ok .exec => .ok (d.execPath :: d.execArgs)

/-- The text of a function's output. -/
def outputText (status : Int) (output : List UInt8) : Except Failure String :=
  match String.fromUTF8? (ByteArray.mk output.toArray) with
  | some text => .ok text
  | none => .error (.fault (.decode (.notUtf8 status)))

/-- What a function wrote, read. -/
def readOutput (status : Int) (output : List UInt8) :
    StateT Supply (Except Failure) Envelope.Decoded := fun supply =>
  match outputText status output with
  | .error failure => .error failure
  | .ok text => (Envelope.decode text).run supply

/-- What is sent to a function. -/
def package (d : Descriptor) (rs : List Resource) (supply : Supply) : Envelope.Package :=
  Envelope.pack d.config rs inv.settings.keepReaderAnnotations supply

/-- Calls a function on some resources. The copies of them that are sent are gone once their text
is made, so their identities stay free. -/
def invoke (child : Child) (d : Descriptor) (rs : List Resource) : Run Invocation := do
  let env := inv.environment
  let command ← Run.orFault .spec (inv.command d env)
  let package := inv.package d rs (← get).supply
  Run.edit package.edits
  let payload ← Run.ofExcept package.encode
  let request : Request := ⟨command, env, payload⟩
  modify (World.call request)
  match child request with
  | .refused reason => throw (.fault (.spawn (command.headD "") reason))
  | .ended status output =>
    let decoded ← Run.withSupply (readOutput status output)
    return ⟨decoded.resources, decoded.results, status, Config.PayloadMeta.ofText payload⟩

end Invoker

end ScopedFn
