import ScopedFn.Resource.Basic
import ScopedFn.Yaml.Scalar

/-!
# Faults

The causes for which a step of running a function fails, each with its wording, its data and a
hint for the operator.

* `Fault` holds the causes that are part of the contract with the operator; `Fault.message`,
  `Fault.details` and `Fault.hint` describe them, `Fault.family` groups them;
* `Failure` adds the ways to fail that no operator was promised a description of.
-/

set_option autoImplicit false

namespace ScopedFn

/-- What the text of a document breaks, in words for the operator. -/
def Yaml.Fault.message : Yaml.Fault → String
  | malformed => "documento malformado"
  | notANumber => "número inválido"
  | emptyNumber => "número vazio"
  | noSuchTime => "data ou hora inexistente"
  | notATime => "data ou hora inválida"
  | timeNotText => "data ou hora não textual"
  | unknownTruthWord word => "valor booleano inválido: " ++ word
  | noSuchCharacter => "caractere inexistente"
  | characterTooLarge => "caractere inexistente"
  | inexpressible => "valor não representável"
  | numberTooLong => "número longo demais"
  | unfollowed => "documento não representável"

/-- Why a text cannot be read as a resource or as the output of a function. -/
inductive DecodeFault where
  /-- The text of a resource is no document. -/
  | invalidResource (fault : Yaml.Fault)
  /-- The text of a resource is no map. -/
  | resourceNotMap (received : String)
  /-- The output is no stream of documents. -/
  | invalidOutput (fault : Yaml.Fault)
  /-- An envelope stands among other documents. -/
  | envelopeInStream (document documents : Nat)
  /-- The items of an envelope are no list. -/
  | itemsNotList (received : String)
  /-- A part that has to be a resource is no map. -/
  | partNotMap (part received : String)
  /-- The output is no UTF-8 text. -/
  | notUtf8 (status : Int)
  deriving DecidableEq, Repr

/-- Why something does not describe a function that can be run. -/
inductive SpecFault where
  /-- An option of a mount has no value. -/
  | mountOption (option mount : String)
  /-- A mount is no map. -/
  | mountNotMap (received : String)
  /-- Neither an image nor an executable is given. -/
  | noRuntime (image execPath : String)
  /-- A resource declares no function. -/
  | notAFunction (kind apiVersion : String)
  deriving DecidableEq, Repr

/-- The end of a function with a status other than zero, with what it had produced. -/
structure ExitFault where
  /-- The function, by its image or executable. -/
  function : String
  /-- The status it ended with. -/
  status : Int
  /-- Its output, followed by the resources out of its scope. -/
  resources : List Resource
  /-- Its results. -/
  results : Option Resource
  deriving Repr

/-- A described cause of failure. -/
inductive Fault where
  /-- The metadata of a resource cannot be read. -/
  | metadata (fault : MetaFault)
  /-- The scope of a function cannot be told. -/
  | scope (fault : MetaFault)
  /-- A collection cannot be divided. -/
  | partition (position : Nat) (fault : MetaFault)
  /-- Resources cannot be written into an envelope. -/
  | encode (fault : Yaml.Fault) (items : Nat)
  /-- A text cannot be read. -/
  | decode (fault : DecodeFault)
  /-- Something does not describe a function that can be run. -/
  | spec (fault : SpecFault)
  /-- The function cannot be started. -/
  | spawn (command reason : String)
  /-- The function ended with a status other than zero. -/
  | exit (fault : ExitFault)
  /-- The results cannot be stored. -/
  | results (path reason : String)
  deriving Repr

namespace DecodeFault

/-- The wording of the fault. -/
def message : DecodeFault → String
  | invalidResource _ => "YAML inválido"
  | resourceNotMap _ => "Resource deve ser um mapping YAML"
  | invalidOutput _ => "saída da função não é YAML válido"
  | envelopeInStream _ _ => "envelope ResourceList dentro de um stream multi-documento"
  | itemsNotList _ => "ResourceList.items deve ser uma lista"
  | partNotMap part _ => part ++ " deve ser um mapping"
  | notUtf8 _ => "saída da função não é UTF-8"

/-- The data of the fault. -/
def details : DecodeFault → Details
  | invalidResource fault => [("error", .text fault.message)]
  | resourceNotMap received => [("received", .text received)]
  | invalidOutput fault => [("error", .text fault.message)]
  | envelopeInStream document documents =>
    [("document", .int document), ("documents", .int documents)]
  | itemsNotList received => [("received", .text received)]
  | partNotMap part received => [("field", .text part), ("received", .text received)]
  | notUtf8 status => [("error", .text "bytes inválidos"), ("exit_code", .int status)]

/-- What the operator can do. -/
def hint? : DecodeFault → Option String
  | envelopeInStream _ _ =>
    some "A função deve emitir um único ResourceList ou apenas Resources"
  | _ => none

end DecodeFault

namespace SpecFault

/-- The wording of the fault. -/
def message : SpecFault → String
  | mountOption option _ => "opção de mount inválida: " ++ Text.quoted option
  | mountNotMap _ => "mount deve ser um mapping"
  | noRuntime _ _ => "descriptor sem imagem nem executável"
  | notAFunction _ _ => "Resource não declara uma função executável"

/-- The data of the fault. -/
def details : SpecFault → Details
  | mountOption _ mount => [("mount", .text mount)]
  | mountNotMap received => [("received", .text received)]
  | noRuntime image execPath => [("image", .text image), ("exec_path", .text execPath)]
  | notAFunction kind apiVersion => [("kind", .text kind), ("apiVersion", .text apiVersion)]

/-- What the operator can do. -/
def hint? : SpecFault → Option String
  | mountOption _ _ => some "Use o formato type=<tipo>,src=<origem>,dst=<destino>"
  | mountNotMap _ => none
  | noRuntime _ _ => some "Declare container.image ou exec.path na função"
  | notAFunction _ _ => some "Adicione a annotation config.kubernetes.io/function"

end SpecFault

/-- The wording of the end with a status other than zero. -/
def ExitFault.message (e : ExitFault) : String :=
  "function " ++ e.function ++ " exited with status " ++ toString e.status

/-- The groups of causes that operators tell apart. -/
inductive Family where
  /-- Metadata that cannot be read. -/
  | metadata
  /-- A scope that cannot be told. -/
  | scope
  /-- A collection that cannot be divided. -/
  | partition
  /-- An envelope that cannot be written. -/
  | encode
  /-- A text that cannot be read. -/
  | decode
  /-- A function that cannot be run as described. -/
  | spec
  /-- A function that cannot be started. -/
  | spawn
  /-- A function that failed. -/
  | exit
  /-- Results that cannot be stored. -/
  | results
  /-- No group of its own. -/
  | general
  deriving DecidableEq, Repr

namespace Fault

/-- The group of a cause. -/
def family : Fault → Family
  | metadata _ => .metadata
  | scope _ => .scope
  | partition _ _ => .partition
  | encode _ _ => .encode
  | decode _ => .decode
  | spec _ => .spec
  | spawn _ _ => .spawn
  | exit _ => .exit
  | results _ _ => .results

/-- The wording of a cause. -/
def message : Fault → String
  | metadata fault => fault.message
  | scope _ => "não foi possível ler a metadata da configuração da função"
  | partition _ _ => "não foi possível ler a metadata de um Resource durante a partição"
  | encode _ _ => "falha ao serializar ResourceList"
  | decode fault => fault.message
  | spec fault => fault.message
  | spawn command _ => "não foi possível iniciar a função: " ++ command
  | exit fault => fault.message
  | results path _ => "falha ao escrever results em " ++ path

/-- The data of a cause. -/
def details : Fault → Details
  | metadata fault => fault.details
  | scope fault => ("cause", .text fault.message) :: fault.details
  | partition position fault =>
    ("position", .int position) :: ("cause", .text fault.message) :: fault.details
  | encode fault items => [("error", .text fault.message), ("items", .int items)]
  | decode fault => fault.details
  | spec fault => fault.details
  | spawn command reason => [("command", .text command), ("error", .text reason)]
  | exit fault => [("function", .text fault.function), ("exit_code", .int fault.status)]
  | results path reason => [("path", .text path), ("error", .text reason)]

/-- What the operator can do. -/
def hint? : Fault → Option String
  | scope _ => some "Corrija o bloco metadata da configuração da função"
  | decode fault => fault.hint?
  | spec fault => fault.hint?
  | spawn _ _ => some "Verifique se o runtime/executável existe e tem permissão de execução"
  | exit _ => some "Veja o stderr da função e o documento de results"
  | results _ _ => some "Verifique se o diretório de destino existe e é gravável"
  | metadata _ | partition _ _ | encode _ _ => none

end Fault

/-- Any way to fail. -/
inductive Failure where
  /-- A described cause. -/
  | fault (fault : Fault)
  /-- A document whose text is sound but says nothing, such as a day that does not exist. -/
  | document (fault : Yaml.Fault)
  /-- A text is wanted of a value that is given as none. -/
  | noText (fault : TextFault)
  /-- The version of an envelope is a collection and cannot be looked up. -/
  | versionNotAtom
  /-- The name of a file holds a null character. -/
  | unusableFileName
  deriving Repr

/-- The failure that a fault amounts to: only one of its own kind is described. -/
def OrNoText.failure {ε : Type} (describe : ε → Fault) : OrNoText ε → Failure
  | .fault cause => .fault (describe cause)
  | .noText cause => .noText cause

end ScopedFn
