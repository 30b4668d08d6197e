/-!
# Configurations

A configuration says which checks are made and how strict they are.  Everything has a default.
-/

namespace EpicsDb

/-- How a run tells about its progress. -/
structure Logging where
  level : String
  deriving DecidableEq, Repr

/-- The level is `info` unless it is given. -/
def Logging.default : Logging :=
  ⟨"info"⟩

/-- Which checks are made. -/
structure Config where
  /-- Whether small letters in names are errors. -/
  strict : Bool
  /-- Whether names are checked. -/
  names : Bool
  /-- Whether the contents of records are checked. -/
  contents : Bool
  logging : Logging
  deriving DecidableEq, Repr

/-- All checks are made, and small letters are tolerated. -/
def Config.default : Config :=
  ⟨false, true, true, .default⟩

end EpicsDb
