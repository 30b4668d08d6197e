import EpicsDb.Config.View
import EpicsDb.Toml.Reader

/-!
# Configurations in TOML
-/

namespace EpicsDb

/-- A TOML value as a reader of settings sees it.  A date is a table that has no settings. -/
def Toml.view : View Toml where
  flag?
    | .bool b => some b
    | _ => none
  text?
    | .string s => some s
    | _ => none
  list?
    | .array items => some items
    | .tables earlier last => some ((earlier ++ [last]).map (.table .header ·))
    | _ => none
  table?
    | .table _ entries => some entries
    | .dateTime => some []
    | _ => none

/-- The configuration in a TOML document. -/
def Config.ofToml? (text : String) : Option Config := do
  let value ← Toml.parse text
  Config.read Toml.view value

end EpicsDb
