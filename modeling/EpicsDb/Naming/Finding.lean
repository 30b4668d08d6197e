import EpicsDb.Report

/-!
# Findings about names

Each constructor of `NamingFinding` is one way in which names can break the conventions.  Its
category says how much it matters and opens its message.
-/

namespace EpicsDb

/-- The kinds of problems with names. -/
inductive Category
  | casing
  | character
  | format
  | parameter
  | unspecified
  deriving DecidableEq, Repr

namespace Category

/-- All categories. -/
def all : List Category :=
  [casing, character, format, parameter, unspecified]

/-- The words that open a message. -/
def title : Category → String
  | casing => "CASING ERROR"
  | character => "CHARACTER ERROR"
  | format => "FORMAT ERROR"
  | parameter => "PARAMETER ERROR"
  | unspecified => "UNSPECIFIED ERROR"

/-- Small letters are tolerated unless the check is strict; nothing else is. -/
def severity (strict : Bool) : Category → Severity
  | casing => if strict then .error else .warning
  | _ => .error

end Category

/-- A breach of the naming conventions. -/
inductive NamingFinding
  /-- A name has a small letter. -/
  | smallLetter (name : String)
  /-- The part of a name after its macros has a character that names do not have. -/
  | illegalCharacter (part : String)
  /-- The first name of the file has a colon after its macro and this one has none. -/
  | colonMissing (name : String)
  /-- The first name of the file has no colon after its macro and this one has one. -/
  | colonUnwanted (name : String)
  /-- A setpoint comes without a readback. -/
  | readbackMissing (setpoint : String)
  /-- The readback of a setpoint is an alias of some other record. -/
  | readbackElsewhere (setpoint : String)
  /-- The main member of a family is a setpoint readback. -/
  | loneSetpointReadback (name : String)
  /-- A family has a setpoint readback and no setpoint. -/
  | setpointMissing (stem : String)
  /-- A family has a setpoint and no setpoint readback. -/
  | setpointReadbackMissing (stem : String)
  /-- The setpoint of a family does not end in `:SP`. -/
  | setpointMisspelled (stem : String)
  /-- The setpoint readback of a family does not end in `:SP:RBV`. -/
  | setpointReadbackMisspelled (stem : String)
  deriving DecidableEq, Repr

namespace NamingFinding

/-- The category of a finding. -/
def category : NamingFinding → Category
  | smallLetter _ => .casing
  | illegalCharacter _ => .character
  | colonMissing _ | colonUnwanted _ | readbackMissing _ | loneSetpointReadback _
  | setpointMisspelled _ | setpointReadbackMisspelled _ => .format
  | setpointMissing _ | setpointReadbackMissing _ => .parameter
  | readbackElsewhere _ => .unspecified

/-- The wording of a finding after its category. -/
def detail : NamingFinding → String
  | smallLetter name => name ++ " should be upper-case"
  | illegalCharacter part => part ++ " contains illegal characters"
  | colonMissing name => name ++ " should have a colon after the macro"
  | colonUnwanted name => name ++ " should not have a colon after the macro"
  | readbackMissing setpoint => setpoint ++ " does not have a correctly named readback alias"
  | readbackElsewhere setpoint => setpoint ++ " is not correct, please see the rules"
  | loneSetpointReadback name => "cannot have a SP:RBV on its own (" ++ name ++ ")"
  | setpointMissing stem => stem ++ " does not have a :SP"
  | setpointReadbackMissing stem => stem ++ " has a :SP but not a :SP:RBV"
  | setpointMisspelled stem => stem ++ " does not have a correctly formatted :SP"
  | setpointReadbackMisspelled stem => stem ++ " does not have a correctly formatted :SP:RBV"

/-- The message of a finding. -/
def message (f : NamingFinding) : String :=
  f.category.title ++ ": " ++ f.detail

end NamingFinding

end EpicsDb
