import EpicsDb.Record

/-!
# Databases

A database is the list of the records of one file.  Further names of a record may be declared
outside of it; they go to the first record that is known by the given name.
-/

namespace EpicsDb

/-- The records of one file, in the order of their declaration. -/
structure Database where
  /-- A label for the file, such as its path. -/
  source : String
  records : List Record
  deriving DecidableEq, Repr

namespace Database

/-- A database without records and without a label. -/
def empty : Database :=
  ⟨"", []⟩

/-- The database with a record after the others. -/
def push (db : Database) (r : Record) : Database :=
  { db with records := db.records ++ [r] }

/-- The database with another label. -/
def withSource (db : Database) (source : String) : Database :=
  { db with source := source }

/-- Whether some record is known by `name`. -/
def knows (db : Database) (name : String) : Bool :=
  db.records.any (·.answersTo name)

/-- Gives the first record known by `parent` one more name, if there is such a record. -/
def addAlias (records : List Record) (parent newName : String) : List Record :=
  match records with
  | [] => []
  | r :: rs =>
    if r.answersTo parent then { r with aliases := r.aliases ++ [newName] } :: rs
    else r :: addAlias rs parent newName

/-- The database in which the first record known by `parent` has one more name. -/
def attach (db : Database) (parent newName : String) : Database :=
  { db with records := addAlias db.records parent newName }

/-- The same, with whether there is such a record. -/
def tryAttach (db : Database) (parent newName : String) : Bool × Database :=
  (db.knows parent, db.attach parent newName)

end Database

end EpicsDb
