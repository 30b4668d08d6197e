/-!
# Names of process variables

A parameter is published as a family of variables that share a stem: the readback `STEM`, the
setpoint `STEM:SP` and the setpoint readback `STEM:SP:RBV`.  Other spellings of the endings are
recognised too, so that a family is found even where it is misspelled.  `PvName.split?` takes a name
apart into its stem and its place in the family.

The leading part of a name is often a macro that stands for a common start of all names.
-/

namespace EpicsDb

/-- The members of a family whose names have an ending. -/
inductive Suffix
  | setpoint
  | setpointReadback
  deriving DecidableEq, Repr

namespace PvName

/-! ## Endings -/

/-- The characters between the words of a name. -/
def isSeparator (c : Char) : Bool :=
  c == '_' || c == ':'

/-- The spellings of "setpoint". -/
def setpointWords : List String :=
  ["SP", "SETPOINT", "SETP", "SEP", "SETPT"]

/-- The spellings of "readback". -/
def readbackWords : List String :=
  ["RBV", "RB", "READBACK", "READ"]

/-- The name before its last separator and the word after it. -/
def cutLast? (name : String) : Option (String × String) :=
  let back := name.toList.reverse
  match back.dropWhile (!isSeparator ·) with
  | [] => none
  | _ :: front =>
    some (String.ofList front.reverse, String.ofList (back.takeWhile (!isSeparator ·)).reverse)

/-- A stem is never empty. -/
def withStem? (stem : String) (suffix : Suffix) : Option (String × Suffix) :=
  if stem.isEmpty then none else some (stem, suffix)

/-- The stem and the ending of a name that has one. -/
def split? (name : String) : Option (String × Suffix) :=
  match cutLast? name with
  | none => none
  | some (front, word) =>
    if setpointWords.contains word then withStem? front .setpoint
    else if readbackWords.contains word then
      match cutLast? front with
      | none => none
      | some (stem, middle) =>
        if setpointWords.contains middle then withStem? stem .setpointReadback else none
    else none

/-- The stem of the family that a name belongs to.  A name without an ending is its own stem. -/
def stem (name : String) : String :=
  match split? name with
  | some (stem, _) => stem
  | none => name

/-- The ending of a name in the family of the given stem. -/
def suffixIn? (family name : String) : Option Suffix :=
  match split? name with
  | some (stem, suffix) => if stem = family then some suffix else none
  | none => none

/-! ## Macros -/

/-- Whether the name holds a macro. -/
def usesMacro (name : String) : Bool :=
  name.toList.contains '$'

/-- The characters after the last closing bracket or brace. -/
def afterLastClose (cs : List Char) : List Char :=
  (cs.reverse.takeWhile (fun c => c != ')' && c != '\x7d')).reverse

/-- What stands after the last macro of a name. -/
def afterMacros (name : String) : String :=
  if usesMacro name then String.ofList (afterLastClose name.toList) else name

/-- What stands after the last macro of a name and the colon that may follow it. -/
def localPart (name : String) : String :=
  if usesMacro name then
    match afterLastClose name.toList with
    | ':' :: cs => String.ofList cs
    | cs => String.ofList cs
  else name

/-- Whether a colon follows the last macro, or leads a name without macros. -/
def hasColon (name : String) : Bool :=
  (afterMacros name).toList.head? == some ':'

end PvName

end EpicsDb
