import ScopedFn.Scope.Directory
import ScopedFn.Text.Lowercase
import ScopedFn.Value.Copy

/-!
# Provenance

The files that new resources are given: a resource without a path gets one below the scope of
the function that made it, named for the function, its namespace, kind and name.

* `defaultPath` is the path before others are taken into account, `freePath` the first free one of
  a path and its numbered variants;
* `assign` gives every resource without a path a free one, and the index zero unless it has an
  index. The annotations are written into the objects that the resources hold, so the edits are
  given too, for whoever else holds these objects.
-/

set_option autoImplicit false

namespace ScopedFn.Provenance

/-- A character that file names made here may hold. -/
def isSafe (c : Char) : Bool :=
  ('a' ≤ c && c ≤ 'z') || ('0' ≤ c && c ≤ '9') || c == '.' || c == '-'

/-- Each run of other characters becomes one low line; `inRun` tells that one has just begun. -/
def sanitize (inRun : Bool) : List Char → List Char
  | [] => []
  | c :: cs =>
    if isSafe c then c :: sanitize false cs
    else if inRun then sanitize true cs
    else '_' :: sanitize true cs

/-- A text as part of a file name: in lower case and with safe characters only. -/
def fileSegment (s : String) : List Char := sanitize false (Text.lower s).toList

/-- The name of a function: its file without directory and extension. -/
def functionStem : Option String → Path
  | none => []
  | some path => (Path.splitExtension (Path.basename path.toList)).1

/-- The file name of a resource. -/
def fileName (m : Meta) : Path :=
  fileSegment m.kind ++ '_' :: fileSegment m.name ++ ".yaml".toList

/-- The path of a resource below a scope: function, namespace and file name, what is empty left
out. -/
def defaultPath (scope : Path) (m : Meta) (stem : Path) : Path :=
  match [scope, stem, m.space.toList].filter (· != []) ++ [fileName m] with
  | [] => []
  | first :: rest => rest.foldl Path.join first

/-- A path with a number before its extension. -/
def numbered (path : Path) (n : Nat) : Path :=
  let (base, extension) := Path.splitExtension path
  base ++ '_' :: Nat.toDigits 10 n ++ extension

/-- The path if it is free, else the first free one with a number. -/
def freePath (taken : List Path) (path : Path) : Path :=
  if taken.contains path then
    let candidates := (List.range (taken.length + 1)).map fun n => numbered path (n + 1)
    (candidates.find? fun p => !taken.contains p).getD path
  else path

/-- Resources whose provenance is being assigned. -/
structure Assignment where
  /-- The resources, as they are now. -/
  resources : List Resource
  /-- The edits made, first to last. -/
  edits : List Edit
  /-- The paths given, first to last. -/
  paths : List Path
  /-- The paths that are not free. -/
  taken : List Path
  /-- The first identity not in use. -/
  supply : Supply

namespace Assignment

/-- Carries an edit out in all resources. -/
def edit (e : Edit) (a : Assignment) : Assignment :=
  { a with resources := a.resources.map (·.edit e), edits := a.edits ++ [e] }

/-- Sets an annotation of the resource at a position. -/
def annotate (position : Nat) (key value : String) (a : Assignment) :
    Except MetaFault Assignment :=
  match a.resources[position]? with
  | none => .ok a
  | some r => do
    let e ← r.annotationEdit a.supply (a.supply + 1) key value
    return { a.edit e with supply := a.supply + 2 }

/-- Gives the resource at a position a free path, and the index zero unless it has an index. -/
def place (position : Nat) (m : Meta) (path : Path) (a : Assignment) :
    Except MetaFault Assignment := do
  let path := freePath a.taken path
  let a := { a with taken := path :: a.taken, paths := a.paths ++ [path] }
  let a ← a.annotate position pathKey (String.ofList path)
  if (m.annotations.get? indexKey).isNone then a.annotate position indexKey "0"
  else return a

/-- Places the resources without a path, whose metadata is given from a position on. -/
def placeAll (scope stem : Path) : Nat → List Meta → Assignment → Except MetaFault Assignment
  | _, [], a => .ok a
  | position, m :: ms, a => do
    let a ← if m.path?.isSome then .ok a else a.place position m (defaultPath scope m stem)
    placeAll scope stem (position + 1) ms a

end Assignment

/-- Gives every resource without a path a free one below the scope. Nothing is given if the
metadata of any resource cannot be read. -/
def assign (scope : Path) (functionPath : Option String) (rs : List Resource) (supply : Supply) :
    Except (OrNoText MetaFault) Assignment := do
  let metas ← rs.mapM Resource.getMeta
  let taken := metas.filterMap fun m => m.path?.map String.toList
  let start : Assignment := ⟨rs, [], [], taken, supply⟩
  (start.placeAll scope (functionStem functionPath) 0 metas).mapError .fault

end ScopedFn.Provenance
