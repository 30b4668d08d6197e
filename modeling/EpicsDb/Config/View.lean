import EpicsDb.Config

/-!
# Reading a configuration from a value

A configuration can be kept in several formats.  A `View` says what the values of a format look like
to a reader of settings, and `Config.read` reads a configuration through it.

Every setting may be missing and then has its default.  Settings that are not known are ignored, but
no known one may be given twice.  Instead of a table of settings there may be a list of their values
in a fixed order, of which the last ones may be missing.
-/

namespace EpicsDb

variable {α β : Type}

/-- What a value is to a reader of settings. -/
structure View (α : Type) where
  flag? : α → Option Bool
  text? : α → Option String
  list? : α → Option (List α)
  table? : α → Option (List (String × α))

namespace View

/-- A setting of a table. -/
def setting (entries : List (String × α)) (key : String) (read : α → Option β) (default : β) :
    Option β :=
  match entries.filter (·.1 == key) with
  | [] => some default
  | [(_, v)] => read v
  | _ => none

/-- A setting of a list. -/
def settingAt (values : List α) (i : Nat) (read : α → Option β) (default : β) : Option β :=
  match values[i]? with
  | none => some default
  | some v => read v

end View

/-- Reads how a run tells about its progress. -/
def Logging.read (view : View α) (value : α) : Option Logging := do
  match view.table? value with
  | some entries =>
    let level ← View.setting entries "level" view.text? Logging.default.level
    some ⟨level⟩
  | none =>
    let values ← view.list? value
    guard (values.length ≤ 1)
    let level ← View.settingAt values 0 view.text? Logging.default.level
    some ⟨level⟩

/-- Reads a configuration. -/
def Config.read (view : View α) (value : α) : Option Config := do
  match view.table? value with
  | some entries =>
    let strict ← View.setting entries "strict" view.flag? Config.default.strict
    let names ← View.setting entries "syntax" view.flag? Config.default.names
    let contents ← View.setting entries "pv" view.flag? Config.default.contents
    let logging ← View.setting entries "logging" (Logging.read view) Config.default.logging
    some ⟨strict, names, contents, logging⟩
  | none =>
    let values ← view.list? value
    guard (values.length ≤ 4)
    let strict ← View.settingAt values 0 view.flag? Config.default.strict
    let names ← View.settingAt values 1 view.flag? Config.default.names
    let contents ← View.settingAt values 2 view.flag? Config.default.contents
    let logging ← View.settingAt values 3 (Logging.read view) Config.default.logging
    some ⟨strict, names, contents, logging⟩

end EpicsDb
