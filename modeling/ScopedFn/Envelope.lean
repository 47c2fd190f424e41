import ScopedFn.Resource.Document

/-!
# Envelopes

The envelope in which resources travel to a function and back: a map that holds the resources
as its items, on the way in beside the function's configuration, on the way out beside its
results.

* `Envelope.pack` copies what is sent to a function; `Package.document` is the value that is sent,
  `Package.encode` its text;
* `Envelope.decode` reads what a function wrote: one envelope, or a stream of resources.
-/

set_option autoImplicit false

namespace ScopedFn

namespace Envelope

/-- The version that envelopes are written with. -/
def version : String := "config.kubernetes.io/v1alpha1"

/-- The versions that envelopes may have. -/
def versions : List String := [version, "config.kubernetes.io/v1"]

/-- The kind of an envelope. -/
def kind : String := "ResourceList"

/-- The kind of a resource that holds a list of results. -/
def resultsKind : String := "ResultList"

/-- A resource on its way into an envelope: a copy of it in new objects, and the edits that are
then made to the copy. -/
structure Item where
  /-- The copy. -/
  copy : Resource
  /-- The edits, first to last. -/
  edits : List Edit
  deriving Repr

/-- What is sent of an item. -/
def Item.value (i : Item) : Value := (i.copy.editAll i.edits).toValue

/-- The edits that remove annotations one after the other. -/
def removals (r : Resource) : List String → List Edit
  | [] => []
  | key :: keys => r.removalEdits key ++ removals (r.unannotate key) keys

/-- A resource as an item of an envelope. -/
def item (keepReaderAnnotations : Bool) (r : Resource) : StateM Supply Item := do
  let copy ← r.copy
  return ⟨copy, if keepReaderAnnotations then [] else removals copy readerKeys⟩

/-- More than every identity in the resources. -/
def bound (config : Option Resource) (rs : List Resource) : Supply :=
  (config.toList ++ rs).foldl (fun n r => max n r.toValue.bound) 1

/-- What goes into an envelope. -/
structure Package where
  /-- The items. -/
  items : List Item
  /-- The copy of the function's configuration. -/
  config : Option Resource
  deriving Repr

namespace Package

/-- The edits that are made to the copies, first to last. -/
def edits (p : Package) : List Edit := p.items.flatMap Item.edits

/-- The value that is sent to a function. -/
def document (p : Package) : Value :=
  let ownParts : Details :=
    [("apiVersion", .text version), ("kind", .text kind),
      ("items", .list noObject (p.items.map Item.value))]
  match p.config with
  | none => .record ownParts
  | some config => .record (ownParts ++ [("functionConfig", config.toValue)])

/-- The text that is sent to a function. -/
def encode (p : Package) : Except Failure String :=
  match Yaml.write p.document with
  | .ok text => .ok text
  | .error fault => .error (.ofDocument (fun f => .encode f p.items.length) fault)

end Package

/-- Copies resources and configuration into a package. Every resource is copied by itself, so
resources share no objects in it. The new objects have identities from the given one on, and
above all those of the resources. -/
def pack (config : Option Resource) (rs : List Resource) (keepReaderAnnotations : Bool)
    (supply : Supply) : Package :=
  let (items, supply) :=
    (rs.mapM (item keepReaderAnnotations)).run (max supply (bound config rs))
  ⟨items, config.map fun config => (config.copy.run supply).1⟩

/-- What a function wrote. -/
structure Decoded where
  /-- The resources, in order. -/
  resources : List Resource
  /-- The results, if any. -/
  results : Option Resource
  /-- The configuration of the function, if it was written. -/
  config : Option Resource
  deriving Repr

/-- The value can be looked up among the versions. -/
def isVersion : Value → Except Failure Bool
  | .text s => .ok (versions.contains s)
  | .list _ _ | .map _ _ => .error .versionNotAtom
  | _ => .ok false

/-- The document is an envelope. -/
def isEnvelope : Value → Except Failure Bool
  | .map _ es =>
    if (MapEntries.get es "kind").same (.text kind) then isVersion (MapEntries.get es "apiVersion")
    else .ok false
  | _ => .ok false

/-- A part of the output that has to be a resource. -/
def asResource (part : String) (v : Value) : Except Failure Resource :=
  match Resource.ofValue? v with
  | some r => .ok r
  | none => .error (.fault (.decode (.partNotMap part v.typeName)))

/-- The resources in a list of values, the parts named by position; nulls count as positions. -/
def asResources (part : String) (skipNull : Bool) :
    Nat → List Value → Except Failure (List Resource)
  | _, [] => .ok []
  | n, v :: vs => do
    if skipNull && v.isNull then asResources part skipNull (n + 1) vs
    else
      let r ← asResource (part ++ "[" ++ toString n ++ "]") v
      return r :: (← asResources part skipNull (n + 1) vs)

/-- The results of a function; a list becomes the items of one resource. -/
def asResults : Value → Except Failure (Option Resource)
  | .null => .ok none
  | .list id items =>
    let entries : Details :=
      [("apiVersion", .text version), ("kind", .text resultsKind), ("items", .list id items)]
    .ok (some ⟨noObject, entries.map fun (k, v) => (.text k, v)⟩)
  | v => (asResource "results" v).map some

/-- The items of an envelope; what is not filled counts as no items. -/
def itemsOf (v : Value) : Except Failure (List Value) :=
  if v.isFilled then
    match v with
    | .list _ items => .ok items
    | v => .error (.fault (.decode (.itemsNotList v.typeName)))
  else .ok []

/-- What an envelope says. -/
def contents (es : MapEntries) : Except Failure Decoded := do
  let items ← itemsOf (MapEntries.get es "items")
  let resources ← asResources "items" true 0 items
  let results ← asResults (MapEntries.get es "results")
  let config ←
    match MapEntries.get es "functionConfig" with
    | .null => pure none
    | v => some <$> asResource "functionConfig" v
  return ⟨resources, results, config⟩

/-- No document of a stream is an envelope. -/
def noneIsEnvelope (count : Nat) : Nat → List Value → Except Failure Unit
  | _, [] => .ok ()
  | n, v :: vs => do
    if ← isEnvelope v then throw (.fault (.decode (.envelopeInStream n count)))
    noneIsEnvelope count (n + 1) vs

/-- What the documents of an output say, nulls left out. -/
def ofDocuments (docs : List Value) : Except Failure Decoded := do
  match docs with
  | [.map id es] =>
    if ← isEnvelope (.map id es) then contents es
    else return ⟨[⟨id, es⟩], none, none⟩
  | docs =>
    if 1 < docs.length then noneIsEnvelope docs.length 0 docs
    return ⟨← asResources "document" false 0 docs, none, none⟩

/-- Reads the output of a function. -/
def decode (text : String) : StateT Supply (Except Failure) Decoded := fun supply =>
  match (Yaml.readAll text).run supply with
  | .error fault => .error (.ofDocument (fun f => .decode (.invalidOutput f)) fault)
  | .ok (docs, supply) => do
    let decoded ← ofDocuments (docs.filter fun v => !v.isNull)
    return (decoded, supply)

end Envelope

end ScopedFn
