import EpicsDb.Text.Search

/-!
# Macros in values

A macro is written `$(NAME)` or with braces, and may bring a default as in `$(NAME=DEFAULT)`.  The
values of fields keep their macros as they are written.  A check either leaves the macros out or
puts something likely in their place.
-/

namespace EpicsDb.Macro

/-- The characters that open a macro after its dollar. -/
def isOpener (c : Char) : Bool :=
  c == '(' || c == '\x7b'

/-- The characters that close a macro. -/
def isCloser (c : Char) : Bool :=
  c == ')' || c == '\x7d'

/-- The text up to a character that satisfies `stop`, if there is one. -/
def upTo? (stop : Char → Bool) (cs : List Char) : Option (List Char) :=
  let text := cs.takeWhile (!stop ·)
  if text.length < cs.length then some text else none

/-- A pattern that matches at a dollar with a character of the given kind behind it. -/
def atDollar (opens : Char → Bool) (inside : List Char → Option (List Char × Nat)) : Text.Pattern
  | '$', o :: cs => if opens o then inside cs else none
  | _, _ => none

/-- A macro with a default, which replaces it. -/
def withDefault : Text.Pattern :=
  atDollar isOpener fun cs =>
    let name := cs.takeWhile (fun c => c != '=' && !isCloser c)
    match cs.drop name.length with
    | '=' :: rest =>
      (upTo? isCloser rest).map fun default => (default, name.length + default.length + 3)
    | _ => none

/-- Any macro, replaced by a metre. -/
def asMetre : Text.Pattern :=
  atDollar isOpener fun cs => (upTo? isCloser cs).map fun inner => (['m'], inner.length + 2)

/-- A macro in round brackets, replaced by nothing. -/
def asNothing : Text.Pattern :=
  atDollar (· == '(') fun cs => (upTo? (· == ')') cs).map fun inner => ([], inner.length + 2)

/-- The text with every macro replaced by its default, or by `m` where it has none. -/
def expand (cs : List Char) : List Char :=
  Text.replaceAll asMetre (Text.replaceAll withDefault cs)

/-- The text without its macros in round brackets. -/
def erase (cs : List Char) : List Char :=
  Text.replaceAll asNothing cs

end EpicsDb.Macro
