import ScopedFn.Resource.Basic

/-!
# The environment of a function

The variables that the process of a function sees: those of a snapshot, and the signals that ask
it for structured results and for messages on its error stream. Configured signals replace values
and add variables, but remove none.
-/

set_option autoImplicit false

namespace ScopedFn.Environment

/-- The signals that every function gets. -/
def fixedSignals : TextMap := [("LOG_TO_STDERR", "true"), ("STRUCTURED_RESULTS", "true")]

/-- The variables of a process: the snapshot without nameless variables, the fixed signals, the
configured signals. -/
def build (snapshot signals : TextMap) : TextMap :=
  let named := Entries.ofPairs (· == ·) (snapshot.filter fun (name, _) => name != "")
  Entries.putAll (· == ·) (Entries.putAll (· == ·) named fixedSignals) signals

/-- The names that can be declared to a container. -/
def declared (env : TextMap) : List String :=
  env.keys.filter fun name => name != "" && !name.toList.contains '='

end ScopedFn.Environment
