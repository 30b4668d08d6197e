import EpicsDb.Config.View
import EpicsDb.Json.Reader

/-!
# Configurations in JSON
-/

namespace EpicsDb

/-- A JSON value as a reader of settings sees it.  An object with a key that is no text is not a
table. -/
def Json.view : View Json where
  flag?
    | .bool b => some b
    | _ => none
  text?
    | .string raw => (Json.unescape? raw).map String.ofList
    | _ => none
  list?
    | .array items => some items
    | _ => none
  table?
    | .object members => members.mapM fun (key, v) =>
      (Json.unescape? key).map fun key => (String.ofList key, v)
    | _ => none

/-- The configuration in a JSON text. -/
def Config.ofJson? (text : String) : Option Config := do
  let value ← Json.parse text
  Config.read Json.view value

end EpicsDb
