import ScopedFn.Value.Display
import ScopedFn.Value.Edit
import ScopedFn.Value.Equality

/-!
# Resources

A resource is a map that describes one object of a configuration. Only its metadata has a
meaning here.

* `Resource.getMeta` reads kind, name, namespace, annotations and labels; a missing part is empty, a
  part of the wrong shape is a `MetaFault`, and one that is given as no text is a fault that no
  operator is promised a description of;
* `Resource.annotate` and `Resource.unannotate` say which edits set or remove an
  annotation, so that the edits can be carried out wherever the edited objects occur.
-/

set_option autoImplicit false

namespace ScopedFn

/-- A text map in insertion order. -/
abbrev TextMap := List (String × String)

namespace TextMap

/-- The text of a key. -/
def get? (m : TextMap) (key : String) : Option String := Entries.find? (· == ·) key m

/-- Sets the text of a key. -/
def put (m : TextMap) (key value : String) : TextMap := Entries.put (· == ·) key value m

/-- Removes a key. -/
def erase (m : TextMap) (key : String) : TextMap := Entries.erase (· == ·) key m

/-- The keys in order. -/
def keys (m : TextMap) : List String := m.map (·.1)

end TextMap

/-- Named parts of an error, in order. -/
abbrev Details := List (String × Value)

/-- A map with text keys that belongs to no document. -/
def Value.record (fields : Details) : Value := .map noObject (fields.map fun (k, v) => (.text k, v))

/-- Why metadata cannot be read or written. -/
inductive MetaFault where
  /-- The metadata is neither a map nor absent. -/
  | metadataNotMap (received : String)
  /-- A section that is read as a text map is neither a map nor absent. -/
  | sectionNotMap (part received : String)
  /-- A section that is read as a text map has a key that is no text. -/
  | keyNotText (part key : String)
  /-- The annotations that are to be written to are neither a map nor absent. -/
  | annotationsNotMap (received : String)
  deriving DecidableEq, Repr

namespace MetaFault

/-- The wording of the fault. -/
def message : MetaFault → String
  | metadataNotMap _ => "metadata deve ser um mapping"
  | sectionNotMap part _ => part ++ " deve ser um mapping"
  | keyNotText part _ => part ++ " contém chave não-string"
  | annotationsNotMap _ => "metadata.annotations deve ser um mapping"

/-- The data of the fault. -/
def details : MetaFault → Details
  | metadataNotMap received => [("received", .text received)]
  | sectionNotMap part received => [("field", .text part), ("received", .text received)]
  | keyNotText part key => [("field", .text part), ("key", .text key)]
  | annotationsNotMap received => [("received", .text received)]

end MetaFault

/-- What the metadata of a resource says. -/
structure Meta where
  /-- The version of the resource's schema. -/
  apiVersion : String
  /-- The kind of the resource. -/
  kind : String
  /-- The name of the resource. -/
  name : String
  /-- The namespace that the name belongs to. -/
  space : String
  /-- The annotations. -/
  annotations : TextMap
  /-- The labels. -/
  labels : TextMap
  deriving DecidableEq, Repr

/-- The annotation that names the file of a resource. -/
def pathKey : String := "config.kubernetes.io/path"

/-- The annotation that counts the documents of that file. -/
def indexKey : String := "config.kubernetes.io/index"

/-- The annotations that record where a resource was read. -/
def readerKeys : List String := [pathKey, indexKey]

/-- The path annotation, unless it is empty. -/
def Meta.path? (m : Meta) : Option String :=
  (m.annotations.get? pathKey).filter (· != "")

/-- A map that describes one object of a configuration. It is a whole text in all its parts and lies in
nothing: no reader gives a resource that holds `Atom.enclosing` or `Atom.torn`, and what is said of
resources does not extend to maps that contain themselves. -/
structure Resource where
  /-- The identity of the map. -/
  id : ObjectId
  /-- The entries of the map. -/
  entries : MapEntries
  deriving Repr

/-- Reads a value as a text map: null is empty, a null entry is the empty text, and every other
entry is shown as text. -/
def textMap (part : String) : Value → Except (OrNoText MetaFault) TextMap
  | .null => .ok []
  | .map _ es => es.mapM fun (k, v) => entry k v
  | v => .error (.fault (.sectionNotMap part v.typeName))
where
  /-- An entry of a text map. -/
  entry : Atom → Value → Except (OrNoText MetaFault) (String × String)
    | .text key, v =>
      if v.isNull then .ok (key, "") else (v.shown.map fun text => (key, text)).mapError .noText
    | k, _ =>
      match k.shownInside with
      | .ok shown => .error (.fault (.keyNotText part shown))
      | .error fault => .error (.noText fault)

namespace Resource

/-- The resource as a value. -/
def toValue (r : Resource) : Value := .map r.id r.entries

/-- A map as a resource. -/
def ofValue? : Value → Option Resource
  | .map id es => some ⟨id, es⟩
  | _ => none

/-- The wording for a value that is no resource because it is no map. -/
def notMapMessage (v : Value) : String := "Resource requer mapping, recebido: " ++ v.typeName

/-- The version of the resource's schema, as text. -/
def apiVersion (r : Resource) : Except TextFault String := (r.entries.get "apiVersion").shownFilled

/-- The kind of the resource, as text. -/
def kind (r : Resource) : Except TextFault String := (r.entries.get "kind").shownFilled

/-- The entries of the metadata; absent metadata has none. -/
def metadata (r : Resource) : Except MetaFault MapEntries :=
  match r.entries.get "metadata" with
  | .null => .ok []
  | .map _ es => .ok es
  | v => .error (.metadataNotMap v.typeName)

/-- What the metadata says. -/
def getMeta (r : Resource) : Except (OrNoText MetaFault) Meta := do
  let metadata ← r.metadata.mapError .fault
  let apiVersion ← r.apiVersion.mapError .noText
  let kind ← r.kind.mapError .noText
  let name ← (metadata.get "name").shownFilled.mapError .noText
  let space ← (metadata.get "namespace").shownFilled.mapError .noText
  let annotations ← textMap "metadata.annotations" (metadata.get "annotations")
  let labels ← textMap "metadata.labels" (metadata.get "labels")
  return ⟨apiVersion, kind, name, space, annotations, labels⟩

/-- The value at a path of text keys. -/
def field (r : Resource) (path : List String) : Value := r.toValue.field path

/-- The edit that sets an annotation. Where metadata or annotations are absent, new maps are made
from the two given identities. -/
def annotationEdit (fresh fresh' : ObjectId) (key value : String) (r : Resource) :
    Except MetaFault Edit :=
  let entry : MapEntries := [(.text key, .text value)]
  match r.entries.get "metadata" with
  | .null =>
    let metadata : Value := .map fresh [(.text "annotations", .map fresh' entry)]
    .ok ⟨r.id, .put (.text "metadata") metadata⟩
  | .map id metadata =>
    match MapEntries.get metadata "annotations" with
    | .null => .ok ⟨id, .put (.text "annotations") (.map fresh' entry)⟩
    | .map id' _ => .ok ⟨id', .put (.text key) (.text value)⟩
    | v => .error (.annotationsNotMap v.typeName)
  | v => .error (.metadataNotMap v.typeName)

/-- The edits that remove an annotation, and with it annotations that become empty. -/
def removalEdits (key : String) (r : Resource) : List Edit :=
  match r.entries.get "metadata" with
  | .map id metadata =>
    match MapEntries.get metadata "annotations" with
    | .map id' annotations =>
      let removal : Edit := ⟨id', .erase (.text key)⟩
      if (removal.change.apply annotations).isEmpty then
        [removal, ⟨id, .erase (.text "annotations")⟩]
      else [removal]
    | _ => []
  | _ => []

/-- The resource after an edit. -/
def edit (e : Edit) (r : Resource) : Resource :=
  let entries := Value.editEntries e r.entries
  ⟨r.id, if r.id = e.target then e.change.apply entries else entries⟩

/-- The resource after several edits, the first one first. -/
def editAll (es : List Edit) (r : Resource) : Resource := es.foldl (fun r e => r.edit e) r

/-- Sets an annotation of a resource. -/
def annotate (fresh fresh' : ObjectId) (key value : String) (r : Resource) :
    Except MetaFault Resource :=
  (r.annotationEdit fresh fresh' key value).map r.edit

/-- Removes an annotation of a resource. -/
def unannotate (key : String) (r : Resource) : Resource := r.editAll (r.removalEdits key)

/-- The resources have the same contents. -/
def same (r s : Resource) : Bool := r.toValue.same s.toValue

/-- Kind and name of the resource, for people. -/
def display (r : Resource) : Except TextFault String := do
  let kind ← r.kind
  let name ← ((r.entries.get "metadata").field ["name"]).shownInside
  return "Resource(kind=" ++ Text.quoted kind ++ ", name=" ++ name ++ ")"

end Resource

end ScopedFn
