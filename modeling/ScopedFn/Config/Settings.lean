import ScopedFn.Config.Fault
import ScopedFn.Digest.Sha256
import ScopedFn.Environment
import ScopedFn.Json.Canonical

/-!
# Runtime settings

What a configuration says about running functions.

* `hash` identifies a configuration by the digest of its canonical text, so that the order of
  keys does not matter;
* `Settings.ofConfig` reads the `runtime` section; what is absent or not filled is the default,
  and configured signals are added to the fixed ones.
-/

set_option autoImplicit false

namespace ScopedFn.Config

/-- Why a configuration has no hash. -/
inductive HashFault where
  /-- It is no map. -/
  | notMap (received : String)
  /-- It has no canonical text. -/
  | noText (fault : Json.Fault)
  deriving DecidableEq, Repr

/-- The wording of what is no map. -/
def HashFault.notMapMessage (received : String) : String :=
  "Config para hashing deve ser dict, recebido: " ++ received

/-- The digest of the canonical text of a configuration. -/
def hash (config : Value) : Except HashFault String :=
  match config with
  | .map _ _ =>
    match Json.canonical config with
    | .ok text => .ok (Sha256.hex text.toUTF8.toList)
    | .error fault => .error (.noText fault)
  | v => .error (.notMap v.typeName)

/-- Size and digest of a text that is sent to a function. -/
structure PayloadMeta where
  /-- How many bytes its UTF-8 form has. -/
  bytes : Nat
  /-- The digest of its UTF-8 form. -/
  sha256 : String
  deriving DecidableEq, Repr

/-- Size and digest of a text. -/
def PayloadMeta.ofText (text : String) : PayloadMeta :=
  ⟨text.utf8ByteSize, Sha256.hex text.toUTF8.toList⟩

/-- Size and digest as named values. -/
def PayloadMeta.toDetails (m : PayloadMeta) : Details :=
  [("payload_bytes", .int m.bytes), ("payload_sha256", .text m.sha256)]

/-- How functions are run. -/
structure Settings where
  /-- The container engine. -/
  engine : String
  /-- The user inside the container. -/
  user : String
  /-- The network of a container that asks for none. -/
  network : String
  /-- Resources are sent with the annotations that tell where they were read. -/
  keepReaderAnnotations : Bool
  /-- The variables that every function gets. -/
  signals : TextMap
  /-- The digest of the configuration, if there was one. -/
  configHash : Option String
  deriving DecidableEq, Repr

/-- The settings without a configuration. -/
def Settings.default : Settings where
  engine := "docker"
  user := "nobody"
  network := "none"
  keepReaderAnnotations := true
  signals := Environment.fixedSignals
  configHash := none

/-- The configuration that all others are laid over. -/
def defaultConfig : Value :=
  .record [("runtime", .record [
    ("engine", .text Settings.default.engine),
    ("user", .text Settings.default.user),
    ("network", .text Settings.default.network),
    ("keep_reader_annotations", .bool Settings.default.keepReaderAnnotations),
    ("signals", .record (Environment.fixedSignals.map fun (k, v) => (k, .text v)))])]

/-- Why settings cannot be read from a configuration. -/
inductive SettingsFault where
  /-- A section has the wrong shape. -/
  | config (fault : Fault)
  /-- A setting is given as no text. -/
  | noText (fault : TextFault)
  /-- The configuration has no hash. -/
  | hash (fault : HashFault)
  /-- The configuration is filled but no map. -/
  | notMap
  deriving DecidableEq, Repr

namespace Settings

/-- The entries of a section; null is an empty section. -/
def section? (part : String) : Value → Except SettingsFault MapEntries
  | .null => .ok []
  | .map _ es => .ok es
  | v => .error (.config (.sectionNotMap part v.typeName))

/-- The text of a setting, its default if it is not filled. -/
def textOr (default : String) (v : Value) : Except TextFault String :=
  if v.isFilled then v.shown else .ok default

/-- An entry with the texts of its key and its value. -/
def shownEntry (e : Atom × Value) : Except TextFault (String × String) := do
  return (← e.1.shown, ← e.2.shown)

/-- The signals of a configuration laid over the fixed ones, as texts. -/
def signalsOf (configured : MapEntries) : Except TextFault TextMap := do
  let fixed : MapEntries := Environment.fixedSignals.map fun (k, v) => (.text k, .text v)
  let all := Entries.putAll Atom.same fixed configured
  return Entries.ofPairs (· == ·) (← all.mapM shownEntry)

/-- The settings that the entries of a configuration give, those of its section and the configured
signals. -/
def ofSections (config runtime configured : MapEntries) : Except SettingsFault Settings := do
  let keep :=
    ((MapEntries.get? runtime "keep_reader_annotations").map Value.isFilled).getD
      default.keepReaderAnnotations
  let engine ← (textOr default.engine (MapEntries.get runtime "engine")).mapError .noText
  let user ← (textOr default.user (MapEntries.get runtime "user")).mapError .noText
  let network ← (textOr default.network (MapEntries.get runtime "network")).mapError .noText
  let signals ← (signalsOf configured).mapError .noText
  let digest ← (hash (.map noObject config)).mapError .hash
  return ⟨engine, user, network, keep, signals, some digest⟩

/-- The settings that the entries of a configuration give. -/
def ofEntries (config : MapEntries) : Except SettingsFault Settings := do
  let runtime ← section? "runtime" (config.get "runtime")
  let signals := MapEntries.get runtime "signals"
  let configured ← section? "runtime.signals" (if signals.isFilled then signals else .null)
  ofSections config runtime configured

/-- The settings that a configuration gives; one that is not filled gives the defaults. A configuration
that is loaded is laid over the default one, so its sections are maps of their own and refer to
nothing around them. -/
def ofConfig (config : Value) : Except SettingsFault Settings :=
  if config.isFilled then
    match config with
    | .map _ es => ofEntries es
    | _ => .error .notMap
  else ofEntries []

end Settings

end ScopedFn.Config
