import EpicsDb.Group
import EpicsDb.Naming.Finding
import EpicsDb.Text.Lowercase

/-!
# The naming conventions

Names are in capital letters, digits, underscores and colons; the names of a file agree on the
colon after their macros; and the members of a family are complete and spelled alike.
-/

namespace EpicsDb

namespace Naming

/-! ## Single names -/

/-- The name of every record has a colon after its macros if and only if the first one has. -/
def colonFindings (db : Database) : List NamingFinding :=
  match db.records with
  | [] => []
  | first :: _ =>
    db.records.filterMap fun r =>
      match PvName.hasColon first.name, PvName.hasColon r.name with
      | true, false => some (.colonMissing r.name)
      | false, true => some (.colonUnwanted r.name)
      | _, _ => none

/-- Whether the name has a small letter. -/
def hasSmallLetter (name : String) : Bool :=
  name.toList.any Text.isLowercase

/-- The characters that names are made of, apart from their macros. -/
def isLegal (c : Char) : Bool :=
  c.isAlphanum || c == '_' || c == ':'

/-- Whether the name has an illegal character after its macros. -/
def hasIllegalCharacter (name : String) : Bool :=
  (PvName.localPart name).toList.any (!isLegal ·)

/-- Members of a group are in capital letters. -/
def casingFindings (g : Group) : List NamingFinding :=
  (g.members.filter hasSmallLetter).map .smallLetter

/-- Members of a group are made of legal characters. -/
def characterFindings (g : Group) : List NamingFinding :=
  (g.members.filter hasIllegalCharacter).map fun name => .illegalCharacter (PvName.localPart name)

/-! ## Families -/

/-- Whether `newName` is an alias of the record called `name`. -/
def isAliasOf (records : List Record) (name newName : String) : Bool :=
  match records.find? (·.name == name) with
  | some r => r.aliases.contains newName
  | none => false

/-- A setpoint without a record for its readback has the readback as an alias, or its setpoint
readback has. -/
def setpointFindings (records : List Record) (g : Group) : List NamingFinding :=
  let setpoint := g.setpoint.getD ""
  match g.readback with
  | none => [.readbackMissing setpoint]
  | some readback =>
    if (g.main :: g.setpointReadback.toList).any (isAliasOf records · readback) then []
    else [.readbackElsewhere setpoint]

/-- A readback stands alone, or together with a setpoint and a setpoint readback. -/
def readbackFindings (g : Group) : List NamingFinding :=
  match g.setpoint, g.setpointReadback with
  | none, none => []
  | none, some _ => [.setpointMissing g.stem]
  | some _, none => [.setpointReadbackMissing g.stem]
  | some setpoint, some setpointReadback =>
    (if ":SP".toList.isSuffixOf setpoint.toList then [] else [.setpointMisspelled g.stem]) ++
      if ":SP:RBV".toList.isSuffixOf setpointReadback.toList then []
      else [.setpointReadbackMisspelled g.stem]

/-- The members of a group make up a family. -/
def familyFindings (records : List Record) (g : Group) : List NamingFinding :=
  match g.mainSuffix? with
  | some .setpoint => setpointFindings records g
  | some .setpointReadback => [.loneSetpointReadback (g.setpointReadback.getD "")]
  | none => readbackFindings g

/-- All findings about one group. -/
def groupFindings (records : List Record) (g : Group) : List NamingFinding :=
  casingFindings g ++ characterFindings g ++ familyFindings records g

end Naming

/-- All findings about the names of a database. -/
def Database.namingFindings (db : Database) : List NamingFinding :=
  Naming.colonFindings db ++ db.groups.flatMap (Naming.groupFindings db.byName)

/-- The report on the names of a database. -/
def Database.namingReport (db : Database) (strict : Bool) : Report :=
  db.namingFindings.foldl (fun r f => r.push (f.category.severity strict) f.message) .empty

end EpicsDb
