/-!
# Reports

A report lists what checks have found, warnings and errors apart.
-/

namespace EpicsDb

/-- How much a finding matters. -/
inductive Severity
  | warning
  | error
  deriving DecidableEq, Repr

/-- The heading of a list of findings. -/
def Severity.title : Severity → String
  | warning => "Warning"
  | error => "Error"

/-- The messages of checks, in the order in which they were found. -/
structure Report where
  warnings : List String
  errors : List String
  deriving DecidableEq, Repr

namespace Report

/-- A report without findings. -/
def empty : Report :=
  ⟨[], []⟩

/-- The report with one more message. -/
def push (r : Report) (severity : Severity) (message : String) : Report :=
  match severity with
  | .warning => { r with warnings := r.warnings ++ [message] }
  | .error => { r with errors := r.errors ++ [message] }

/-- The findings of both reports, those of the first one before those of the second. -/
def append (r s : Report) : Report :=
  ⟨r.warnings ++ s.warnings, r.errors ++ s.errors⟩

/-- The messages of one severity. -/
def messages (r : Report) : Severity → List String
  | .warning => r.warnings
  | .error => r.errors

/-- Whether there is an error. -/
def hasErrors (r : Report) : Bool :=
  !r.errors.isEmpty

/-- Whether there is no finding. -/
def isClean (r : Report) : Bool :=
  r.warnings.isEmpty && r.errors.isEmpty

end Report

/-- A headline, and below it a line for each finding. -/
def bulletList (headline : String) (findings : List String) : String :=
  findings.foldl (fun text finding => text ++ "\n   -> " ++ finding) headline

end EpicsDb
