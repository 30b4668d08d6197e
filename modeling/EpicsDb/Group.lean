import EpicsDb.Database
import EpicsDb.PvName

/-!
# Groups

A group holds the members of one family that a database declares.  Its main member is the least
record name of the family.  The groups are made in two passes over the records in the order of their
names: the first pass starts a group for every stem, and the second one offers the names and
aliases of the records to the groups.
-/

namespace EpicsDb

/-! ## Records by name -/

/-- Puts a record in its place among records in the order of their names.  A record of the same
name is replaced. -/
def insertByName (r : Record) : List Record → List Record
  | [] => [r]
  | x :: xs =>
    if r.name = x.name then r :: xs
    else if r.name < x.name then r :: x :: xs
    else x :: insertByName r xs

/-- The records in the order of their names.  Of several records of one name the last counts. -/
def Database.byName (db : Database) : List Record :=
  db.records.foldl (fun rs r => insertByName r rs) []

/-! ## One group -/

/-- The members of a family. -/
structure Group where
  stem : String
  /-- The record name that the group was started from. -/
  main : String
  readback : Option String
  setpoint : Option String
  setpointReadback : Option String
  deriving DecidableEq, Repr

namespace Group

/-- The group with `name` as the member that its ending says. -/
def assign (g : Group) (suffix : Suffix) (name : String) : Group :=
  match suffix with
  | .setpoint => { g with setpoint := some name }
  | .setpointReadback => { g with setpointReadback := some name }

/-- A new group with a record name as its main member. -/
def start (main : String) : Group :=
  match PvName.split? main with
  | some (stem, suffix) => assign ⟨stem, main, none, none, none⟩ suffix main
  | none => ⟨main, main, some main, none, none⟩

/-- Makes a name a member, in place of an earlier one, if it belongs to the family. -/
def offer (g : Group) (name : String) : Group :=
  match PvName.suffixIn? g.stem name with
  | some suffix => g.assign suffix name
  | none => if name = g.stem then { g with readback := some name } else g

/-- The members in the order readback, setpoint, setpoint readback. -/
def slots (g : Group) : List (Option String) :=
  [g.readback, g.setpoint, g.setpointReadback]

/-- The members that there are. -/
def members (g : Group) : List String :=
  g.slots.filterMap id

/-- The ending of the main member. -/
def mainSuffix? (g : Group) : Option Suffix :=
  (PvName.split? g.main).map (·.2)

end Group

/-! ## All groups -/

/-- Puts a group in its place among groups in the order of their stems. -/
def insertByStem (g : Group) : List Group → List Group
  | [] => [g]
  | x :: xs => if g.stem < x.stem then g :: x :: xs else x :: insertByStem g xs

/-- Starts a group from a record name, unless its family has one. -/
def startGroup (groups : List Group) (name : String) : List Group :=
  if groups.any (·.stem == PvName.stem name) then groups else insertByStem (.start name) groups

/-- Offers the aliases of a record to the group of its family, and then its name to every group
of which it is not the main member. -/
def offerRecord (groups : List Group) (r : Record) : List Group :=
  groups.map fun g =>
    let g := if g.stem = PvName.stem r.name then r.aliases.foldl Group.offer g else g
    if g.main = r.name then g else g.offer r.name

/-- The groups of a database in the order of their stems. -/
def Database.groups (db : Database) : List Group :=
  let records := db.byName
  records.foldl offerRecord ((records.map (·.name)).foldl startGroup [])

end EpicsDb
