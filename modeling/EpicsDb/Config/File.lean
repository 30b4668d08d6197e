import EpicsDb.Config.Json
import EpicsDb.Config.Toml
import EpicsDb.Directory

/-!
# Configuration files

The extension of a file says in which format its configuration is kept.  A file is read before its
extension is looked at.
-/

namespace EpicsDb

/-- Why a configuration cannot be loaded. -/
inductive ConfigError
  | unreadable (reason : ReadError)
  | unknownFormat (extension : String)
  | invalidJson
  | invalidToml
  deriving DecidableEq, Repr

/-- The wording of the reason. -/
def ConfigError.message : ConfigError → String
  | unreadable reason => "Configuration error: Failed to read config file: " ++ reason.message
  | unknownFormat extension => "Configuration error: Unknown config format: " ++ extension
  | invalidJson => "Configuration error: Invalid JSON"
  | invalidToml => "Configuration error: Invalid TOML"

/-- What stands after the last dot of a file name, where a dot at its start does not count.  It is
empty if there is no such dot. -/
def extensionOf (path : String) : String :=
  let back := path.toList.reverse.takeWhile (· != '/')
  let extension := back.takeWhile (· != '.')
  match back.drop extension.length with
  | _ :: front =>
    if front.isEmpty ∨ back = ['.', '.'] then "" else String.ofList extension.reverse
  | [] => ""

namespace Config

/-- The configuration in a JSON text, or the reason why there is none. -/
def fromJson (text : String) : Except ConfigError Config :=
  match ofJson? text with
  | some config => .ok config
  | none => .error .invalidJson

/-- The configuration in a TOML document, or the reason why there is none. -/
def fromToml (text : String) : Except ConfigError Config :=
  match ofToml? text with
  | some config => .ok config
  | none => .error .invalidToml

/-- The configuration in the file at a path, where `read` reads files. -/
def load (read : String → Except ReadError String) (path : String) : Except ConfigError Config :=
  match read path with
  | .error reason => .error (.unreadable reason)
  | .ok text =>
    let extension := extensionOf path
    if extension = "json" then fromJson text
    else if extension = "toml" then fromToml text
    else .error (.unknownFormat extension)

end Config

end EpicsDb
