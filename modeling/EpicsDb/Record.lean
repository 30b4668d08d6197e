import EpicsDb.Text.Search
import EpicsDb.Text.Space

/-!
# Records

A record declares a process variable.  It has a type such as `ai`, the name of the variable, entries
that set its fields, info entries, and further names by which the variable is known.
-/

namespace EpicsDb

/-- An entry of a record: a field or an info tag with its value. -/
structure Field where
  name : String
  value : String
  /-- Whether a macro stood directly before the entry. -/
  hasMacro : Bool
  deriving DecidableEq, Repr

namespace Field

/-- An entry whose name is freed of white space at its ends. -/
def of (name value : String) (hasMacro : Bool) : Field :=
  ⟨Text.trim name, value, hasMacro⟩

/-- The entry as text. -/
def describe (f : Field) : String :=
  f.name ++ ":" ++ f.value

end Field

/-- A process variable with its entries in the order of their declaration. -/
structure Record where
  type : String
  name : String
  fields : List Field
  infos : List Field
  aliases : List String
  deriving DecidableEq, Repr

namespace Record

/-- A record without entries. -/
def bare (type name : String) : Record :=
  ⟨type, name, [], [], []⟩

/-- Whether the record is known by `name`. -/
def answersTo (r : Record) (name : String) : Bool :=
  r.name == name || r.aliases.contains name

/-- The first field called `name`; later ones of that name have no say. -/
def field? (r : Record) (name : String) : Option Field :=
  r.fields.find? (·.name == name)

/-- The value of the first field called `name`. -/
def fieldValue? (r : Record) (name : String) : Option String :=
  (r.field? name).map (·.value)

/-- Whether some field is called `name`. -/
def hasField (r : Record) (name : String) : Bool :=
  (r.field? name).isSome

/-- The names of the fields. -/
def fieldNames (r : Record) : List String :=
  r.fields.map (·.name)

/-- The values of all info entries called `name`. -/
def infoValues (r : Record) (name : String) : List String :=
  (r.infos.filter (·.name == name)).map (·.value)

/-! ## What the name and the info entries say about a record -/

/-- Whether the text is `SIM`, or `SIM:` with a further character on the same line. -/
def isSimSegment : List Char → Bool
  | ['S', 'I', 'M'] => true
  | 'S' :: 'I' :: 'M' :: ':' :: c :: _ => c != '\n'
  | _ => false

/-- Whether a `SIM` segment follows some character other than a line feed. -/
def hasSimSegment : List Char → Bool
  | [] => false
  | c :: cs => (c != '\n' && isSimSegment cs) || hasSimSegment cs

/-- Whether the record simulates a device. -/
def isSim (r : Record) : Bool :=
  hasSimSegment r.name.toList

/-- Whether the record switches something off. -/
def isDisable (r : Record) : Bool :=
  Text.occursIn "DISABLE".toList r.name.toList

/-- Whether the record is marked as being of interest to users. -/
def isInterest (r : Record) : Bool :=
  r.infos.any (·.name == "INTEREST")

end Record

end EpicsDb
