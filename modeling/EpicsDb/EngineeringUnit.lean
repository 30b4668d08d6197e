import EpicsDb.Macro

/-!
# Engineering units

A unit is a quotient of atoms such as `km/(m s)`.  An atom is a known unit, which for most units may
have a scale such as `k` before it; the last atom may be raised to a power.  Spaces have no meaning,
brackets only separate, and a leading `1/` is left out.
-/

namespace EpicsDb.EngineeringUnit

/-- The units that may have a scale. -/
def scalable : List String :=
  ["A", "angstrom", "au", "bar", "B", "bit", "byte", "C", "count", "degree", "eV", "frame", "g",
    "G", "hour", "Hz", "H", "inch", "interrupt", "K", "L", "m", "min", "minute", "ohm", "Oersted",
    "%", "photon", "pixel", "radian", "s", "torr", "step", "T", "V", "Pa", "deg", "stp", "W", "N",
    "F", "event"]

/-- The scales. -/
def scales : List Char :=
  ['T', 'G', 'M', 'k', 'm', 'u', 'n', 'p', 'f']

/-- The units that have no scale. -/
def plain : List String :=
  ["cm", "cdeg", "rpm", "rps", "psig"]

/-- The texts that are accepted as they are. -/
def standalone : List String :=
  ["cdeg/ss", "uA hour"]

/-- Whether the atom is a scale and a unit that may have one. -/
def isScaled : List Char → Bool
  | [] => false
  | scale :: base => scales.contains scale && scalable.contains (String.ofList base)

/-- Whether the atom is a unit. -/
def isKnown (atom : List Char) : Bool :=
  plain.contains (String.ofList atom) || scalable.contains (String.ofList atom) || isScaled atom

/-- Whether the atom is a unit or a power of one. -/
def isPower (atom : List Char) : Bool :=
  let base := atom.takeWhile (· != '^')
  match atom.drop base.length with
  | [] => isKnown base
  | _ :: exponent => !exponent.isEmpty && exponent.all Char.isDigit && isKnown base

/-- The one of a quotient in brackets, which is left out. -/
def bracketedOne : Text.Pattern
  | '(', '1' :: '/' :: _ => some (['('], 2)
  | _, _ => none

/-- The text without spaces and without the one of a quotient. -/
def compact (cs : List Char) : List Char :=
  match Text.replaceAll bracketedOne (cs.filter (· != ' ')) with
  | '1' :: '/' :: rest => rest
  | text => text

/-- The atoms of a unit. -/
def atoms (cs : List Char) : List (List Char) :=
  Text.pieces (fun c => c == '/' || c == '(' || c == ')') (compact cs)

/-- Whether the text is a unit. -/
def isAllowed (text : String) : Bool :=
  standalone.contains text ||
    let parts := atoms (Macro.expand text.toList)
    match parts.getLast? with
    | none => false
    | some last => parts.dropLast.all isKnown && isPower last

end EpicsDb.EngineeringUnit
