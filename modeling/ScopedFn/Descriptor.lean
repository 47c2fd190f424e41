import ScopedFn.Declaration

/-!
# Function descriptors

What to run, and by which policy: an image or an executable, its network and storage, whether it
sees every resource, whether it may fail, its configuration, and where its results go.

* `Descriptor.runtime` says how the function is run, an image coming first;
* `Descriptor.ofResource` describes the function that a resource declares, the resource being its
  configuration; `Overrides` change single parts of a description.
-/

set_option autoImplicit false

namespace ScopedFn

/-- What to run, and by which policy. -/
structure Descriptor where
  /-- The image of a container, empty for none. -/
  image : String
  /-- An executable, empty for none. -/
  execPath : String
  /-- The arguments of the executable. -/
  execArgs : List String
  /-- The network of the container, empty for the default one. -/
  network : String
  /-- The storage that the container sees. -/
  mounts : List Mount
  /-- The function sees every resource. -/
  globalScope : Bool
  /-- The function may fail. -/
  deferFailure : Bool
  /-- The configuration of the function. -/
  config : Option Resource
  /-- The file that the results go to. -/
  resultsFile : Option String
  deriving Repr

/-- How a function is run. -/
inductive Runtime where
  /-- In a container. -/
  | container
  /-- As an executable. -/
  | exec
  deriving DecidableEq, Repr

namespace Descriptor

/-- Nothing to run. -/
def empty : Descriptor := ⟨"", "", [], "", [], false, false, none, none⟩

/-- How the function is run. -/
def runtime (d : Descriptor) : Except SpecFault Runtime :=
  if d.image ≠ "" then .ok .container
  else if d.execPath ≠ "" then .ok .exec
  else .error (.noRuntime d.image d.execPath)

/-- The path annotation of the configuration. -/
def functionPath (d : Descriptor) : Except (OrNoText MetaFault) (Option String) :=
  match d.config with
  | none => .ok none
  | some config => config.getMeta.map Meta.path?

/-- The name of the function: its image, else its executable. -/
def identity (d : Descriptor) : String :=
  if d.image ≠ "" then d.image else if d.execPath ≠ "" then d.execPath else "<unknown>"

/-- The function for people. -/
def display (d : Descriptor) : String :=
  if d.deferFailure then d.identity ++ " deferFailure: True" else d.identity

/-- Describes the function that a resource declares. -/
def ofResource (r : Resource) : Except Failure Descriptor :=
  match functionSpec? r with
  | .error (.fault fault) => .error (.document fault)
  | .error (.noText fault) => .error (.noText fault)
  | .ok none => do
    let kind ← r.kind.mapError .noText
    let apiVersion ← r.apiVersion.mapError .noText
    throw (.fault (.spec (.notAFunction kind apiVersion)))
  | .ok (some spec) =>
    let base : Descriptor := { empty with config := some r, execPath := spec.execPath }
    match spec.container with
    | none => .ok base
    | some c => .ok { base with image := c.image, network := c.network, mounts := c.mounts }

/-- Parts of a description that replace others. -/
structure Overrides where
  /-- Replaces the image. -/
  image : Option String
  /-- Replaces the executable. -/
  execPath : Option String
  /-- Replaces the arguments. -/
  execArgs : Option (List String)
  /-- Replaces the network. -/
  network : Option String
  /-- Replaces the storage. -/
  mounts : Option (List Mount)
  /-- Replaces the scope policy. -/
  globalScope : Option Bool
  /-- Replaces the failure policy. -/
  deferFailure : Option Bool
  /-- Replaces the configuration. -/
  config : Option Resource
  /-- Replaces the results file. -/
  resultsFile : Option String

/-- The description with the replaced parts. -/
def override (d : Descriptor) (o : Overrides) : Descriptor where
  image := o.image.getD d.image
  execPath := o.execPath.getD d.execPath
  execArgs := o.execArgs.getD d.execArgs
  network := o.network.getD d.network
  mounts := o.mounts.getD d.mounts
  globalScope := o.globalScope.getD d.globalScope
  deferFailure := o.deferFailure.getD d.deferFailure
  config := o.config.or d.config
  resultsFile := o.resultsFile.or d.resultsFile

end Descriptor

end ScopedFn
