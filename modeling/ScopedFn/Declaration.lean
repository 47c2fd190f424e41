import ScopedFn.Mount
import ScopedFn.Resource.Document

/-!
# Function declarations

A resource declares a function in one of four ways, the first usable one counting:

1. an annotation that holds a declaration as a document, under a long or a short name;
2. a declaration under `configFn` in its metadata;
3. an annotation that names a container image;
4. a schema version that is hosted in an image registry, and so names an image itself.

* `FunctionSpec.ofValue?` reads a declaration; a spec that runs nothing is no spec;
* `functionSpec?` looks through the four ways; `Selection.keep` keeps the resources that declare
  functions, or the others.
-/

set_option autoImplicit false

namespace ScopedFn

/-- How a function is run in a container. -/
structure ContainerSpec where
  /-- The image. -/
  image : String
  /-- The network, empty for the default one. -/
  network : String
  /-- The storage it sees. -/
  mounts : List Mount
  deriving DecidableEq, Repr

/-- How a function is run. -/
structure FunctionSpec where
  /-- In a container. -/
  container : Option ContainerSpec
  /-- As an executable; empty for none. -/
  execPath : String
  deriving DecidableEq, Repr

/-- The annotations that hold a declaration, by precedence. -/
def functionKeys : List String := ["config.kubernetes.io/function", "config.k8s.io/function"]

/-- The annotation that names an image. -/
def imageKey : String := "config.kubernetes.io/container"

/-- The hosts of image registries; their subdomains count too. -/
def registryHosts : List String := ["gcr.io", "docker.io"]

/-- The network of the machine itself. -/
def hostNetwork : String := "host"

namespace FunctionSpec

/-- The spec runs something. -/
def isExecutable (s : FunctionSpec) : Bool := s.container.any (·.image != "") || s.execPath != ""

/-- The spec of a container with an image and nothing else. -/
def ofImage (image : String) : FunctionSpec := ⟨some ⟨image, "", []⟩, ""⟩

/-- The network that a declaration asks for: a name, or the truth value true, possibly under
`required`, for the network of the machine. -/
def network : Value → String
  | .text s | .atom (.torn s) => s
  | .map _ es => if isTrue (MapEntries.get es "required") then hostNetwork else ""
  | v => if isTrue v then hostNetwork else ""
where
  /-- The value is the truth value true. -/
  isTrue : Value → Bool
    | .bool b => b
    | _ => false

/-- The mounts of a declaration: nothing, or a list of maps. What comes first counts, an item that
is no map or one with a field that is given as no text. -/
def mounts? (v : Value) : Except (OrNoText SpecFault) (List Mount) :=
  if v.isFilled then
    match v with
    | .list _ items | .tuple _ items => items.mapM Mount.ofValue
    | v => .error (.fault (.mountNotMap v.typeName))
  else .ok []

/-- The container of a declaration; a value that is no map declares none. -/
def container? : Value → Except (OrNoText SpecFault) (Option ContainerSpec)
  | .map _ es => do
    let image ← (MapEntries.get es "image").shownFilled.mapError .noText
    let mounts ← mounts? (MapEntries.get es "mounts")
    return some ⟨image, network (MapEntries.get es "network"), mounts⟩
  | _ => .ok none

/-- The executable of a declaration; a value that is no map declares none. -/
def executable : Value → Except TextFault String
  | .map _ es => (MapEntries.get es "path").shownFilled
  | _ => .ok ""

/-- Reads a declaration that runs something. -/
def ofValue? : Value → Except TextFault (Option FunctionSpec)
  | .map _ es =>
    match container? (MapEntries.get es "container") with
    | .error (.fault _) => .ok none
    | .error (.noText fault) => .error fault
    | .ok container => do
      let spec : FunctionSpec := ⟨container, ← executable (MapEntries.get es "exec")⟩
      return if spec.isExecutable then some spec else none
  | _ => .ok none

/-- The identities of a declaration's own document do not matter. -/
def firstIdentity : Supply := 1

/-- A declaration with the fields that are read taken out of the maps and lists that they lie in,
which they may refer to. -/
def opened : Value → Value :=
  Value.openFields [
    ("container", Value.openFields [
      ("image", id),
      ("network", Value.openFields [("required", id)]),
      ("mounts", Value.openItems (Value.openFields [("type", id), ("src", id), ("dst", id)]))]),
    ("exec", Value.openFields [("path", id)])]

/-- The value that a text says. What contains itself is opened, to look at its fields. -/
def document (text : String) : Except Yaml.Fault Value :=
  ((Yaml.readFreely text).run firstIdentity).map fun (v, _) => if v.isAcyclic then v else opened v

/-- Reads a declaration that may be the text of a document. What is malformed declares nothing; a
sound text that says nothing is a fault, and so is a field that is given as no text. -/
def ofSource? : Value → Except (OrNoText Yaml.Fault) (Option FunctionSpec)
  | .text s =>
    if s = "" then .ok none
    else
      match document s with
      | .ok v => (ofValue? v).mapError .noText
      | .error .malformed | .error .timeNotText => .ok none
      | .error fault => .error (.fault fault)
  | v => if v.isFilled then (ofValue? v).mapError .noText else .ok none

/-- The first usable one of some declarations. -/
def firstOf? : List Value → Except (OrNoText Yaml.Fault) (Option FunctionSpec)
  | [] => .ok none
  | v :: vs => do
    match ← ofSource? v with
    | some spec => return some spec
    | none => firstOf? vs

end FunctionSpec

/-- The schema version is hosted in an image registry. -/
def isRegistryVersion (apiVersion : String) : Bool :=
  let host := apiVersion.toList.takeWhile (· != '/')
  registryHosts.any fun h => host == h.toList || ('.' :: h.toList).isSuffixOf host

/-- The spec that an image named in the metadata gives. -/
def imageSpec? (m : Meta) : Option FunctionSpec :=
  match m.annotations.get? imageKey with
  | some image => if image = "" then versionSpec? else some (.ofImage image)
  | none => versionSpec?
where
  /-- The spec that the schema version gives. -/
  versionSpec? : Option FunctionSpec :=
    if isRegistryVersion m.apiVersion then some (.ofImage m.apiVersion) else none

/-- The spec of the function that a resource declares. Metadata of the wrong shape declares none. -/
def functionSpec? (r : Resource) : Except (OrNoText Yaml.Fault) (Option FunctionSpec) :=
  match r.getMeta with
  | .error (.fault _) => .ok none
  | .error (.noText fault) => .error (.noText fault)
  | .ok m => do
    let annotated := functionKeys.map fun key =>
      ((m.annotations.get? key).map Value.text).getD .null
    match ← FunctionSpec.firstOf? (annotated ++ [r.field ["metadata", "configFn"]]) with
    | some spec => return some spec
    | none => return imageSpec? m

/-- The resource declares a function. -/
def declaresFunction (r : Resource) : Except (OrNoText Yaml.Fault) Bool :=
  (functionSpec? r).map (·.isSome)

/-- Which resources to keep. -/
structure Selection where
  /-- Those that declare functions. -/
  functions : Bool
  /-- The others. -/
  others : Bool
  deriving DecidableEq, Repr

/-- Keeps the selected resources in their order. -/
def Selection.keep (s : Selection) :
    List Resource → Except (OrNoText Yaml.Fault) (List Resource)
  | [] => .ok []
  | r :: rs => do
    let wanted := if ← declaresFunction r then s.functions else s.others
    let rest ← s.keep rs
    return if wanted then r :: rest else rest

end ScopedFn
