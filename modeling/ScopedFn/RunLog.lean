import ScopedFn.Resource.Basic

/-!
# Run logs

What is recorded during a run: events, warnings by function, and artifacts by key. Each event
tells the run, the function, a level, a message and the time; further fields may be added, and
may replace the run and the time.
-/

set_option autoImplicit false

namespace ScopedFn

/-- The record of a run. -/
structure RunLog where
  /-- The name of the run. -/
  runId : String
  /-- The time that events bear. -/
  now : String
  /-- The events, first to last. -/
  events : List Details
  /-- The warnings of each function, first to last. -/
  warnings : List (String × List String)
  /-- The artifacts by key. -/
  artifacts : List (String × Value)
  deriving Repr

namespace RunLog

/-- A run in which nothing has happened. -/
def start (runId now : String) : RunLog := ⟨runId, now, [], [], []⟩

/-- Stores an artifact. -/
def setArtifact (key : String) (v : Value) (l : RunLog) : RunLog :=
  { l with artifacts := Entries.put (· == ·) key v l.artifacts }

/-- There is an artifact of that key. -/
def hasArtifact (key : String) (l : RunLog) : Bool := Entries.has (· == ·) key l.artifacts

/-- The artifact of a key. -/
def artifact? (key : String) (l : RunLog) : Option Value :=
  Entries.find? (· == ·) key l.artifacts

/-- The names that no further field may have: those of the fields that are given with every event,
and the one that stands for the record itself. -/
def reservedNames : List String := ["self", "step_id", "level", "message"]

/-- The further fields of an event have names of their own. -/
def mayExtend (extra : Details) : Bool := extra.all fun (name, _) => !reservedNames.contains name

/-- Records an event. -/
def log (step level message : String) (extra : Details) (l : RunLog) : RunLog :=
  let event : Details :=
    [("run_id", .text l.runId), ("step_id", .text step), ("level", .text level),
      ("message", .text message), ("timestamp", .text l.now)]
  { l with events := l.events ++ [Entries.putAll (· == ·) event extra] }

/-- Records a warning. -/
def warn (step message : String) (l : RunLog) : RunLog :=
  let before := (Entries.find? (· == ·) step l.warnings).getD []
  { l with warnings := Entries.put (· == ·) step (before ++ [message]) l.warnings }

/-- The record after edits of the objects that its artifacts hold. -/
def editAll (es : List Edit) (l : RunLog) : RunLog :=
  { l with artifacts := l.artifacts.map fun (key, v) => (key, v.editAll es) }

end RunLog

end ScopedFn
