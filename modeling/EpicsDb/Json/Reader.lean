import EpicsDb.Json
import EpicsDb.Text.Enclosed

/-!
# Reading JSON

`Json.parse` reads a text that holds one value with nothing but blanks around it.
-/

namespace EpicsDb.Json

/-- The characters that may stand between the parts of a value. -/
def isBlank (c : Char) : Bool :=
  c == ' ' || c == '\t' || c == '\n' || c == '\r'

/-- The text without the blanks at its head. -/
def skipBlanks (cs : List Char) : List Char :=
  cs.dropWhile isBlank

/-! ## Strings and numbers -/

/-- Puts a run of characters before the inside of a string. -/
def consRaw (head : List Char) :
    Option (List Char × List Char) → Option (List Char × List Char)
  | some (raw, rest) => some (head ++ raw, rest)
  | none => none

/-- The inside of a string, up to its closing quote.  Control characters have to be escaped. -/
def stringBody : Text.Reader (List Char)
  | [] => none
  | '"' :: cs => some ([], cs)
  | '\\' :: 'u' :: a :: b :: c :: d :: cs =>
    if [a, b, c, d].all (Text.isDigitOf 16) then
      consRaw ['\\', 'u', a, b, c, d] (stringBody cs)
    else none
  | '\\' :: c :: cs =>
    if (shortEscape? c).isSome then consRaw ['\\', c] (stringBody cs) else none
  | c :: cs =>
    if c.toNat < 0x20 ∨ c = '\\' then none else consRaw [c] (stringBody cs)

/-- What follows a run of one or more digits. -/
def afterDigits? (cs : List Char) : Option (List Char) :=
  if (cs.head?.map Char.isDigit).getD false then some (cs.dropWhile Char.isDigit) else none

/-- What follows the digits before the point.  They do not start with a needless zero. -/
def afterWhole? : List Char → Option (List Char)
  | '0' :: cs => some cs
  | cs => afterDigits? cs

/-- What follows the point and the digits after it, if there is a point. -/
def afterFraction? : List Char → Option (List Char)
  | '.' :: cs => afterDigits? cs
  | cs => some cs

/-- What follows the exponent, if there is one. -/
def afterExponent? : List Char → Option (List Char)
  | [] => some []
  | c :: cs =>
    if c = 'e' ∨ c = 'E' then
      match cs with
      | '+' :: cs | '-' :: cs => afterDigits? cs
      | cs => afterDigits? cs
    else some (c :: cs)

/-- What follows a number. -/
def afterNumber? (cs : List Char) : Option (List Char) := do
  let cs ← afterWhole? (if cs.head? = some '-' then cs.tail else cs)
  let cs ← afterFraction? cs
  afterExponent? cs

/-- A number. -/
def numeral : Text.Reader Json := fun cs =>
  (afterNumber? cs).map fun rest => (.number (cs.take (cs.length - rest.length)), rest)

/-! ## Values -/

/-- How arrays are written. -/
def arrayStyle : Text.ListStyle :=
  ⟨skipBlanks, ']', false⟩

/-- How objects are written. -/
def objectStyle : Text.ListStyle :=
  ⟨skipBlanks, '\x7d', false⟩

/-- A key, a colon and a value. -/
def member (value : Text.Reader Json) : Text.Reader (List Char × Json)
  | '"' :: cs => do
    let (key, rest) ← stringBody cs
    match skipBlanks rest with
    | ':' :: rest =>
      let (v, rest) ← value (skipBlanks rest)
      some ((key, v), rest)
    | _ => none
  | _ => none

/-- A value that is nested at most `depth - 1` deep. -/
def value : Nat → Text.Reader Json
  | 0, _ => none
  | depth + 1, cs =>
    match cs with
    | '[' :: rest =>
      (Text.enclosed arrayStyle (value depth) rest).map fun (xs, rest) => (.array xs, rest)
    | '\x7b' :: rest =>
      (Text.enclosed objectStyle (member (value depth)) rest).map fun (ms, rest) =>
        (.object ms, rest)
    | '"' :: rest => (stringBody rest).map fun (raw, rest) => (.string raw, rest)
    | 't' :: 'r' :: 'u' :: 'e' :: rest => some (.bool true, rest)
    | 'f' :: 'a' :: 'l' :: 's' :: 'e' :: rest => some (.bool false, rest)
    | 'n' :: 'u' :: 'l' :: 'l' :: rest => some (.null, rest)
    | cs => numeral cs

/-- The value that a text holds.  No value is nested deeper than its text is long. -/
def parse (text : String) : Option Json :=
  let cs := text.toList
  match value cs.length (skipBlanks cs) with
  | some (v, rest) => if (skipBlanks rest).isEmpty then some v else none
  | none => none

end EpicsDb.Json
