import ScopedFn.Config.Merge
import ScopedFn.Config.Settings
import ScopedFn.Files
import ScopedFn.Json.Reader
import ScopedFn.Yaml.Reader

/-!
# Loading configurations

The configuration in effect: the default one, over it that of a file which has to exist, and over
that the one of a file which need not.

* `loadFile` reads a file in the format that its suffix names;
* `load` merges the layers.
-/

set_option autoImplicit false

namespace ScopedFn.Config

/-- Why a configuration cannot be loaded. -/
inductive LoadFault where
  /-- The configuration is wrong. -/
  | config (fault : Fault)
  /-- What is wrong would be described by a key that is given as no text. -/
  | noText (fault : TextFault)
  /-- Layers that contain themselves are merged without an end. -/
  | endless
  /-- A file is not in the document format. -/
  | document (fault : Yaml.Fault)
  /-- A file is not in the JSON format. -/
  | json (fault : Json.ReadFault)
  /-- A file is no UTF-8 text. -/
  | notUtf8
  /-- A file cannot be read. -/
  | file (fault : FileFault)
  deriving DecidableEq, Repr

/-- The formats of configuration files. -/
inductive Format where
  /-- Documents. -/
  | yaml
  /-- JSON. -/
  | json
  deriving DecidableEq

/-- The format that a suffix names; capital letters do not matter. -/
def format? (suffix : List Char) : Option Format :=
  let s := Text.lower (String.ofList suffix)
  if s == ".yaml" || s == ".yml" then some .yaml
  else if s == ".json" then some .json
  else none

/-- Every line ends with a line feed. -/
def unixLines : List Char → List Char
  | [] => []
  | '\r' :: '\n' :: cs => '\n' :: unixLines cs
  | '\r' :: cs => '\n' :: unixLines cs
  | c :: cs => c :: unixLines cs

/-- The text of a file. -/
def fileText (files : Files) (p : Path.Lexical) : Except LoadFault String :=
  match files.read p with
  | .error fault => .error (.file fault)
  | .ok contents =>
    match String.fromUTF8? (ByteArray.mk contents.toArray) with
    | none => .error .notUtf8
    | some text => .ok (String.ofList (unixLines text.toList))

/-- The value of a text in a format. -/
def parse (format : Format) (text : String) : StateT Supply (Except LoadFault) Value :=
  fun supply =>
    match format with
    | .yaml =>
      match (Yaml.readFreely text).run supply with
      | .ok result => .ok result
      | .error fault => .error (.document fault)
    | .json =>
      match Json.read text with
      | .ok v => .ok (v, supply)
      | .error fault => .error (.json fault)

/-- The configuration of a file that has to exist; an empty file is an empty configuration. -/
def loadFile (files : Files) (p : Path.Lexical) : StateT Supply (Except LoadFault) Value := do
  match files.present p with
  | .error fault => throw (.file fault)
  | .ok false => throw (.config (.fileNotFound (String.ofList p.text)))
  | .ok true =>
    match format? p.suffix with
    | none => throw (.config (.unknownFormat (String.ofList p.suffix)))
    | some format =>
      match ← parse format (← fileText files p) with
      | .null => return .record []
      | .map id es => return .map id es
      | v => throw (.config (.rootNotMap v.typeName))

/-- One layer over another. -/
def layer (base override : Value) : Except LoadFault Value :=
  match merge base override with
  | .ok v => .ok v
  | .error (.fault fault) => .error (.config fault)
  | .error (.noText fault) => .error (.noText fault)
  | .error .endless => .error .endless

/-- The configuration in effect, from a file that has to exist and one that need not. -/
def load (files : Files) (defaults overlay : Option Path.Lexical) :
    StateT Supply (Except LoadFault) Value := do
  let base ← layer defaultConfig (.record [])
  let base ←
    match defaults with
    | none => pure base
    | some p => do layer base (← loadFile files p)
  match overlay with
  | none => return base
  | some p =>
    match files.present p with
    | .error fault => throw (.file fault)
    | .ok false => return base
    | .ok true => layer base (← loadFile files p)

end ScopedFn.Config
