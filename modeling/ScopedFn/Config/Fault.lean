import ScopedFn.Value.Basic

/-!
# Configuration faults

The ways in which a runtime configuration can be wrong, with their wording.
-/

set_option autoImplicit false

namespace ScopedFn.Config

/-- What is wrong with a configuration. -/
inductive Fault where
  /-- A configuration file that has to exist does not. -/
  | fileNotFound (path : String)
  /-- The format of a file is not known. -/
  | unknownFormat (suffix : String)
  /-- A file holds no map. -/
  | rootNotMap (received : String)
  /-- A section is no map. -/
  | sectionNotMap (part received : String)
  /-- Two layers to be merged are not both maps. -/
  | layersNotMaps (base override : String)
  /-- Two layers give a key values of different types. -/
  | typeConflict (key base override : String)
  deriving DecidableEq, Repr

/-- The wording of a fault. -/
def Fault.message : Fault → String
  | fileNotFound path => "Arquivo de configuração não encontrado: " ++ path
  | unknownFormat suffix => "Formato não suportado: " ++ suffix
  | rootNotMap received => "Config root deve ser dict, recebido: " ++ received
  | sectionNotMap part received => "Seção '" ++ part ++ "' deve ser dict, recebido: " ++ received
  | layersNotMaps base override =>
    "Deep-merge requer dicts no nível raiz, recebido: " ++ base ++ " vs " ++ override
  | typeConflict key base override =>
    "Conflito de tipo na chave '" ++ key ++ "': " ++ base ++ " vs " ++ override

end ScopedFn.Config
