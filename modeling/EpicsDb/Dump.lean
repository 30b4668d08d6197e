import EpicsDb.Group
import EpicsDb.Json.Printer

/-!
# Dumps

A dump shows a database and its groups as JSON. The keys of every object are in ascending order.
-/

namespace EpicsDb

/-- An entry of a record as JSON. -/
def Field.toJson (f : Field) : Json :=
  .ofMembers [("has_macro", .bool f.hasMacro), ("name", .ofText f.name), ("value", .ofText f.value)]

/-- A record as JSON. -/
def Record.toJson (r : Record) : Json :=
  .ofMembers [
    ("aliases", .array (r.aliases.map .ofText)),
    ("fields", .array (r.fields.map (·.toJson))),
    ("infos", .array (r.infos.map (·.toJson))),
    ("name", .ofText r.name),
    ("type", .ofText r.type)]

/-- The records of a database as JSON. -/
def Database.recordsJson (db : Database) : Json :=
  .ofMembers [
    ("records", .array (db.records.map (·.toJson))),
    ("source", .ofText db.source)]

/-- A group as JSON. A member that is missing has an empty name. -/
def Group.toJson (g : Group) : Json :=
  .ofMembers [
    ("main", .ofText g.main),
    ("rb", .ofText (g.readback.getD "")),
    ("sp", .ofText (g.setpoint.getD "")),
    ("sp_rbv", .ofText (g.setpointReadback.getD "")),
    ("stem", .ofText g.stem)]

/-- A database and its groups as JSON. -/
def Database.toJson (db : Database) : Json :=
  .ofMembers [
    ("db", db.recordsJson),
    ("groups", .ofMembers (db.groups.map fun g => (g.stem, g.toJson)))]

/-- The text of a dump. -/
def Database.dump (db : Database) : String :=
  db.toJson.pretty

end EpicsDb
