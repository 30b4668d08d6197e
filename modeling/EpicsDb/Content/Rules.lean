import EpicsDb.Content.Finding
import EpicsDb.Database
import EpicsDb.EngineeringUnit
import EpicsDb.Report
import EpicsDb.Text.Lowering

/-!
# The rules on the contents of records

A record that users are interested in has a description and, if it holds a number, a unit.  Units
are known ones and descriptions are short.  Records, fields and logging tags are not declared twice.
-/

namespace EpicsDb

namespace Content

/-! ## Repetitions -/

/-- The names that occur a second time, in the order of their second occurrence, where `seen`
holds the names before. -/
def repeated (seen : List String) : List String → List String
  | [] => []
  | name :: names =>
    if seen.count name = 1 then name :: repeated (name :: seen) names
    else repeated (name :: seen) names

/-- Names given to several records. -/
def repeatedRecords (db : Database) : List ContentFinding :=
  (repeated [] (db.records.map (·.name))).map .repeatedRecord

/-- The names of the fields that a record sets more than once, in ascending order. -/
def repeatedFieldNames (r : Record) : List String :=
  (repeated [] r.fieldNames).mergeSort fun a b => decide (a ≤ b)

/-- Records that set fields more than once. -/
def repeatedFields (db : Database) : List ContentFinding :=
  db.records.filterMap fun r =>
    match repeatedFieldNames r with
    | [] => none
    | names => some (.repeatedFields names r.name)

/-! ## Descriptions, units and access -/

/-- The records of interest, those left out that only switch something off. -/
def interestRecords (db : Database) : List Record :=
  db.records.filter fun r => r.isInterest && !r.isDisable

/-- Records of interest without a description. -/
def missingDescriptions (db : Database) : List ContentFinding :=
  ((interestRecords db).filter (!·.hasField "DESC")).map fun r => .descriptionMissing r.name

/-- The types of records that hold a number with a unit. -/
def unitTypes : List String :=
  ["longin", "longout", "ai", "ao"]

/-- Whether a record has no unit, or a blank one. -/
def lacksUnit (r : Record) : Bool :=
  match r.fieldValue? "EGU" with
  | none => true
  | some unit => Text.isBlank unit

/-- Records of interest that hold a number without a unit. -/
def missingUnits (db : Database) : List ContentFinding :=
  ((interestRecords db).filter fun r => unitTypes.contains r.type && lacksUnit r).map
    fun r => .unitMissing r.name

/-- Units that are given and not known. -/
def invalidUnits (db : Database) : List ContentFinding :=
  db.records.filterMap fun r =>
    match r.fieldValue? "EGU" with
    | none => none
    | some unit =>
      if Text.isBlank unit || EngineeringUnit.isAllowed unit then none
      else some (.unitInvalid unit r.name)

/-- How long a description may be. -/
def maxDescription : Nat :=
  40

/-- Whether the description of a record is too long, macros in round brackets left out. -/
def hasLongDescription (r : Record) : Bool :=
  match r.fieldValue? "DESC" with
  | none => false
  | some text => maxDescription < (Macro.erase text.toList).length

/-- Records with a long description. -/
def longDescriptions (db : Database) : List ContentFinding :=
  (db.records.filter hasLongDescription).map fun r => .descriptionTooLong r.name

/-- Calculations of interest that are not read-only. -/
def unrestrictedCalculations (db : Database) : List ContentFinding :=
  (db.records.filter fun r =>
    r.type == "calc" && r.isInterest && r.fieldValue? "ASG" != some "READONLY").map
    fun r => .accessUnrestricted r.name

/-! ## Logging -/

/-- The tag that the name of an info entry stands for: its case and quotes around it do not
count. -/
def tagOf (name : String) : String :=
  String.ofList (Text.stripEnds (· == '"') (Text.lower name.toList))

/-- Whether a tag is about logging. -/
def isLogTag (tag : String) : Bool :=
  "log".toList.isPrefixOf tag.toList

/-- Whether a tag sets the logging period. -/
def isPeriodTag (tag : String) : Bool :=
  tag == "log_period_seconds" || tag == "log_period_pv"

/-- The logging tags of a database, each with the name of its record. -/
def logTags (db : Database) : List (String × String) :=
  db.records.flatMap fun r =>
    ((r.infos.map fun info => tagOf info.name).filter isLogTag).map fun tag => (r.name, tag)

/-- The findings about logging tags, where `seen` holds the tags before and `periodSet` says
whether one of them sets the period. -/
def logFindings (seen : List String) (periodSet : Bool) :
    List (String × String) → List ContentFinding
  | [] => []
  | (record, tag) :: tags =>
    (if seen.contains tag then [.repeatedLogTag record tag] else []) ++
      (if isPeriodTag tag && periodSet then [.logPeriodChanged record] else []) ++
      logFindings (tag :: seen) (periodSet || isPeriodTag tag) tags

/-- Logging tags are given once in a file, and so is the logging period. -/
def inconsistentLogTags (db : Database) : List ContentFinding :=
  logFindings [] false (logTags db)

end Content

/-- The findings about contents that are tolerated. -/
def Database.contentWarnings (db : Database) : List ContentFinding :=
  Content.repeatedRecords db

/-- The findings about contents that are not tolerated. -/
def Database.contentErrors (db : Database) : List ContentFinding :=
  Content.missingDescriptions db ++ Content.invalidUnits db ++ Content.longDescriptions db ++
    Content.unrestrictedCalculations db ++ Content.missingUnits db ++ Content.repeatedFields db ++
    Content.inconsistentLogTags db

/-- The report on the contents of a database. -/
def Database.contentReport (db : Database) : Report :=
  ⟨db.contentWarnings.map (·.message), db.contentErrors.map (·.message)⟩

end EpicsDb
