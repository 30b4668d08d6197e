import EpicsDb.Json

/-!
# Printing JSON

A value is printed over several lines, with two blanks of indentation for each level.  Empty arrays
and objects stay on their line.
-/

namespace EpicsDb.Json

/-- The start of a line at a level of nesting. -/
def indent (level : Nat) : List Char :=
  '\n' :: List.replicate (2 * level) ' '

/-- A string with its quotes. -/
def quote (raw : List Char) : List Char :=
  '"' :: raw ++ ['"']

mutual

/-- The characters of a value that stands at a level of nesting. -/
def render (level : Nat) : Json → List Char
  | .null => "null".toList
  | .bool b => (if b then "true" else "false").toList
  | .number raw => raw
  | .string raw => quote raw
  | .array [] => ['[', ']']
  | .array (x :: xs) =>
    '[' :: indent (level + 1) ++ render (level + 1) x ++ renderItems (level + 1) xs ++
      indent level ++ [']']
  | .object [] => ['\x7b', '\x7d']
  | .object ((key, x) :: ms) =>
    '\x7b' :: indent (level + 1) ++ quote key ++ [':', ' '] ++ render (level + 1) x ++
      renderMembers (level + 1) ms ++ indent level ++ ['\x7d']

/-- The characters of the further items of an array. -/
def renderItems (level : Nat) : List Json → List Char
  | [] => []
  | x :: xs => ',' :: indent level ++ render level x ++ renderItems level xs

/-- The characters of the further members of an object. -/
def renderMembers (level : Nat) : List (List Char × Json) → List Char
  | [] => []
  | (key, x) :: ms =>
    ',' :: indent level ++ quote key ++ [':', ' '] ++ render level x ++ renderMembers level ms

end

/-- The text of a value. -/
def pretty (j : Json) : String :=
  String.ofList (render 0 j)

end EpicsDb.Json
