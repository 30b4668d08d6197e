/-!
# Findings about the contents of records

Each constructor of `ContentFinding` is one way in which records can break the rules on their
contents.
-/

namespace EpicsDb

/-- A breach of the rules on the contents of records. -/
inductive ContentFinding
  /-- Several records have this name. -/
  | repeatedRecord (name : String)
  /-- A record of interest has no description. -/
  | descriptionMissing (record : String)
  /-- The unit of a record is not known. -/
  | unitInvalid (unit record : String)
  /-- The description of a record is too long. -/
  | descriptionTooLong (record : String)
  /-- A calculation of interest can be written to. -/
  | accessUnrestricted (record : String)
  /-- A record of interest has no unit. -/
  | unitMissing (record : String)
  /-- A record sets fields more than once. -/
  | repeatedFields (fields : List String) (record : String)
  /-- A logging tag has been given before. -/
  | repeatedLogTag (record tag : String)
  /-- The logging period has been given before. -/
  | logPeriodChanged (record : String)
  deriving DecidableEq, Repr

/-- The message of a finding. -/
def ContentFinding.message : ContentFinding → String
  | repeatedRecord name => "Multiple instances of " ++ name
  | descriptionMissing record => "Missing description on " ++ record
  | unitInvalid unit record => "Invalid unit '" ++ unit ++ "' on " ++ record
  | descriptionTooLong record => "Description too long on " ++ record
  | accessUnrestricted record => "Missing ASG on " ++ record
  | unitMissing record => "Missing units on " ++ record
  | repeatedFields fields record =>
    "Multiple instances of fields " ++ ",".intercalate fields ++ " on " ++ record
  | repeatedLogTag record tag =>
    "Invalid logging config: " ++ record ++ " repeats the log info tag " ++ tag
  | logPeriodChanged record =>
    "Invalid logging config: " ++ record ++ " alters the logging period type"

end EpicsDb
