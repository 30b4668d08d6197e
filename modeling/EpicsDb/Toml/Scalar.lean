import EpicsDb.Text.Digits
import EpicsDb.Text.Enclosed
import EpicsDb.Toml

/-!
# Strings, numbers and dates in TOML

Strings are written in one of four ways: on one line or over several, with escapes or without.
Of numbers and dates only their form and their range are read.
-/

namespace EpicsDb.Toml

/-! ## Gaps -/

/-- The blanks within a line. -/
def isBlank (c : Char) : Bool :=
  c == ' ' || c == '\t'

/-- The text without the blanks at its head. -/
def skipBlanks (cs : List Char) : List Char :=
  cs.dropWhile isBlank

/-- The characters that comments and strings may hold: all but control characters, the tab
excepted. -/
def isPrintable (c : Char) : Bool :=
  c == '\t' || (0x20 ≤ c.toNat && c.toNat != 0x7f)

/-- What follows a line break. -/
def afterBreak? : List Char → Option (List Char)
  | '\n' :: cs => some cs
  | '\r' :: '\n' :: cs => some cs
  | _ => none

/-- The text without the blanks and line breaks at its head. -/
def skipBlankLines : List Char → List Char
  | '\r' :: '\n' :: cs => skipBlankLines cs
  | c :: cs => if c = '\n' || isBlank c then skipBlankLines cs else c :: cs
  | [] => []

/-! ## Strings -/

/-- The character that an escape stands for, and how long the escape is after its backslash. -/
def escape? : List Char → Option (Char × Nat)
  | 'b' :: _ => some ('\x08', 1)
  | 't' :: _ => some ('\t', 1)
  | 'n' :: _ => some ('\n', 1)
  | 'f' :: _ => some ('\x0c', 1)
  | 'r' :: _ => some ('\r', 1)
  | '"' :: _ => some ('"', 1)
  | '\\' :: _ => some ('\\', 1)
  | 'u' :: cs => scalar? 4 cs
  | 'U' :: cs => scalar? 8 cs
  | _ => none
where
  /-- The character whose code point is written with `n` digits. -/
  scalar? (n : Nat) (cs : List Char) : Option (Char × Nat) :=
    match Text.fixedDigits? 16 n cs with
    | some (code, _) => if code.isValidChar then some (Char.ofNat code, n + 1) else none
    | none => none

/-- Puts characters before a text that has been read. -/
def before (head : List Char) : Option (List Char × List Char) → Option (List Char × List Char)
  | some (text, rest) => some (head ++ text, rest)
  | none => none

/-- A string with escapes, after its opening quote. -/
def basicBody : Text.Reader (List Char)
  | [] => none
  | c :: cs =>
    if c = '"' then some ([], cs)
    else if c = '\\' then
      match escape? cs with
      | some (e, n) => before [e] (basicBody (cs.drop n))
      | none => none
    else if isPrintable c then before [c] (basicBody cs)
    else none
termination_by cs => cs.length
decreasing_by all_goals simp only [List.length_drop, List.length_cons]; omega

/-- A string without escapes, after its opening quote. -/
def literalBody : Text.Reader (List Char)
  | [] => none
  | c :: cs =>
    if c = '\x27' then some ([], cs)
    else if isPrintable c then before [c] (literalBody cs)
    else none

/-- After three closing quotes up to two more may follow, which belong to the string. -/
def extraQuotes (quote : Char) : List Char → List Char × List Char
  | a :: b :: cs =>
    if a = quote then if b = quote then ([a, b], cs) else ([a], b :: cs) else ([], a :: b :: cs)
  | [a] => if a = quote then ([a], []) else ([], [a])
  | [] => ([], [])

/-- A string with escapes over several lines, after its opening quotes.  A backslash at the end of a
line joins it to the next text, whatever blanks stand between. -/
def basicLines : Text.Reader (List Char)
  | '"' :: '"' :: '"' :: cs => some (extraQuotes '"' cs)
  | '\r' :: '\n' :: cs => before ['\n'] (basicLines cs)
  | c :: cs =>
    if c = '\n' || (c != '\\' && isPrintable c) then before [c] (basicLines cs)
    else if c = '\\' then
      match escape? cs with
      | some (e, n) => before [e] (basicLines (cs.drop n))
      | none =>
        match afterBreak? (skipBlanks cs) with
        | some rest =>
          let next := skipBlankLines rest
          if next.length < (c :: cs).length then basicLines next else none
        | none => none
    else none
  | [] => none
termination_by cs => cs.length
decreasing_by all_goals simp only [List.length_drop, List.length_cons] at *; omega

/-- A string without escapes over several lines, after its opening quotes. -/
def literalLines : Text.Reader (List Char)
  | '\x27' :: '\x27' :: '\x27' :: cs => some (extraQuotes '\x27' cs)
  | '\r' :: '\n' :: cs => before ['\n'] (literalLines cs)
  | c :: cs => if c = '\n' || isPrintable c then before [c] (literalLines cs) else none
  | [] => none

/-- A string over several lines starts on the line after its quotes if that is where they end. -/
def skipFirstBreak (cs : List Char) : List Char :=
  (afterBreak? cs).getD cs

/-- A string in any of the four forms. -/
def quotedText : Text.Reader (List Char)
  | '"' :: '"' :: '"' :: cs => basicLines (skipFirstBreak cs)
  | '\x27' :: '\x27' :: '\x27' :: cs => literalLines (skipFirstBreak cs)
  | '"' :: cs => basicBody cs
  | '\x27' :: cs => literalBody cs
  | _ => none

/-! ## Numbers -/

/-- One or more digits, which underscores may separate. -/
def digits (base : Nat) : Text.Reader (List Char)
  | c :: cs => if Text.isDigitOf base c then before [c] (more cs) else none
  | [] => none
where
  /-- The digits after the first one. -/
  more : Text.Reader (List Char)
    | '_' :: c :: cs =>
      if Text.isDigitOf base c then before [c] (more cs) else some ([], '_' :: c :: cs)
    | c :: cs => if Text.isDigitOf base c then before [c] (more cs) else some ([], c :: cs)
    | [] => some ([], [])

/-- A sign, if there is one, and whether it is a minus. -/
def sign : List Char → Bool × List Char
  | '-' :: cs => (true, cs)
  | '+' :: cs => (false, cs)
  | cs => (false, cs)

/-- Digits in base ten that do not start with a needless zero. -/
def wholeDigits : Text.Reader (List Char)
  | '0' :: cs => some (['0'], cs)
  | cs => digits 10 cs

/-- How large an integer may be: it has to fit in 64 bits. -/
def isInRange (negative : Bool) (n : Nat) : Bool :=
  if negative then n ≤ Nat.pow 2 63 else n < Nat.pow 2 63

/-- What follows an integer. -/
def afterInteger? (cs : List Char) : Option (List Char) :=
  match cs with
  | '0' :: 'x' :: cs => inBase 16 cs
  | '0' :: 'o' :: cs => inBase 8 cs
  | '0' :: 'b' :: cs => inBase 2 cs
  | cs =>
    let (negative, cs) := sign cs
    match wholeDigits cs with
    | some (ds, rest) => if isInRange negative (Text.ofDigits 10 ds) then some rest else none
    | none => none
where
  /-- What follows an integer in another base than ten, after the mark of its base. -/
  inBase (base : Nat) (cs : List Char) : Option (List Char) :=
    match digits base cs with
    | some (ds, rest) => if isInRange false (Text.ofDigits base ds) then some rest else none
    | none => none

/-- The digits after a point, if there is a point. -/
def fraction : Text.Reader (Option (List Char))
  | '.' :: cs => (digits 10 cs).map fun (ds, rest) => (some ds, rest)
  | cs => some (none, cs)

/-- The exponent, if there is one. -/
def exponent : Text.Reader (Option Int)
  | [] => some (none, [])
  | c :: cs =>
    if c = 'e' || c = 'E' then
      let (negative, cs) := sign cs
      (digits 10 cs).map fun (ds, rest) =>
        let n : Int := Text.ofDigits 10 ds
        (some (if negative then -n else n), rest)
    else some (none, c :: cs)

/-- Whether `mantissa * 10 ^ scale` lies beyond the numbers of double precision: it would be
rounded up to `2 ^ 1024`. -/
def isTooLarge (mantissa : List Char) (scale : Int) : Bool :=
  let ds := mantissa.dropWhile (· == '0')
  let size : Int := ds.length + scale
  if ds.isEmpty || size < 309 then false
  else if 309 < size then true
  else
    let n := Text.ofDigits 10 ds
    let bound := Nat.pow 2 1024 - Nat.pow 2 970
    bound * Nat.pow 10 (-scale).toNat ≤ n * Nat.pow 10 scale.toNat

/-- What follows a number with a point or an exponent.  A number that is too large is refused unless
it is negative. -/
def afterFloat? (cs : List Char) : Option (List Char) := do
  let (negative, cs) := sign cs
  let (whole, cs) ← wholeDigits cs
  let (decimals, cs) ← fraction cs
  let (power, cs) ← exponent cs
  guard (decimals.isSome || power.isSome)
  let decimals := decimals.getD []
  guard (negative || !isTooLarge (whole ++ decimals) (power.getD 0 - decimals.length))
  some cs

/-- What follows an infinity or a not-a-number. -/
def afterSpecial? (cs : List Char) : Option (List Char) :=
  match (sign cs).2 with
  | 'i' :: 'n' :: 'f' :: cs => some cs
  | 'n' :: 'a' :: 'n' :: cs => some cs
  | _ => none

/-! ## Dates and times -/

/-- What follows a number of two digits that is at most `max`. -/
def twoDigits? (max : Nat) (cs : List Char) : Option (List Char) :=
  match Text.fixedDigits? 10 2 cs with
  | some (n, rest) => if n ≤ max then some rest else none
  | none => none

/-- How many days a month has. -/
def daysIn (year month : Nat) : Nat :=
  if month = 2 then
    if year % 4 = 0 ∧ (year % 100 ≠ 0 ∨ year % 400 = 0) then 29 else 28
  else if month = 4 ∨ month = 6 ∨ month = 9 ∨ month = 11 then 30
  else 31

/-- What follows a date. -/
def afterDate? (cs : List Char) : Option (List Char) := do
  let (year, cs) ← Text.fixedDigits? 10 4 cs
  guard (cs.head? = some '-')
  let (month, cs) ← Text.fixedDigits? 10 2 cs.tail
  guard (1 ≤ month ∧ month ≤ 12 ∧ cs.head? = some '-')
  let (day, cs) ← Text.fixedDigits? 10 2 cs.tail
  guard (1 ≤ day ∧ day ≤ daysIn year month)
  some cs

/-- What follows a time of day.  The last second of a day may be a leap second. -/
def afterTime? (cs : List Char) : Option (List Char) := do
  let cs ← twoDigits? 23 cs
  guard (cs.head? = some ':')
  let cs ← twoDigits? 59 cs.tail
  guard (cs.head? = some ':')
  let cs ← twoDigits? 60 cs.tail
  match cs with
  | '.' :: c :: rest =>
    if c.isDigit then some (rest.dropWhile Char.isDigit) else some cs
  | _ => some cs

/-- What follows the offset of a time from universal time, if there is one. -/
def afterOffset (cs : List Char) : List Char :=
  match cs with
  | 'Z' :: rest | 'z' :: rest => rest
  | '+' :: rest | '-' :: rest =>
    (do
      let rest ← twoDigits? 23 rest
      guard (rest.head? = some ':')
      twoDigits? 59 rest.tail).getD cs
  | _ => cs

/-- What follows a date, a time, or both. -/
def afterDateTime? (cs : List Char) : Option (List Char) :=
  match afterDate? cs with
  | none => afterTime? cs
  | some rest =>
    match rest with
    | c :: time =>
      if c = 'T' || c = 't' || c = ' ' then
        match afterTime? time with
        | some rest => some (afterOffset rest)
        | none => some (c :: time)
      else some (c :: time)
    | [] => some []

/-! ## Scalars -/

/-- A value that holds no other values. -/
def scalar : Text.Reader Toml
  | 't' :: 'r' :: 'u' :: 'e' :: rest => some (.bool true, rest)
  | 'f' :: 'a' :: 'l' :: 's' :: 'e' :: rest => some (.bool false, rest)
  | cs =>
    if cs.head? = some '"' ∨ cs.head? = some '\x27' then
      (quotedText cs).map fun (text, rest) => (.string (String.ofList text), rest)
    else
      match afterDateTime? cs with
      | some rest => some (.dateTime, rest)
      | none =>
        ((afterFloat? cs <|> afterSpecial? cs) <|> afterInteger? cs).map fun rest => (.number, rest)

end EpicsDb.Toml
