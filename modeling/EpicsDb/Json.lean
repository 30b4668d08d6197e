import EpicsDb.Text.Digits

/-!
# JSON values

A value keeps its numbers and strings as they are written: a number may exceed every range, and the
escapes of a string may name half of a surrogate pair, which stands for no character.
`Json.escape` writes a text as the inside of a string and `Json.unescape?` reads it back.
-/

namespace EpicsDb

/-- A JSON value. -/
inductive Json
  | null
  | bool (b : Bool)
  /-- A number as it is written. -/
  | number (raw : List Char)
  /-- A string as it is written between its quotes. -/
  | string (raw : List Char)
  | array (items : List Json)
  /-- An object; its keys are as they are written between their quotes. -/
  | object (members : List (List Char × Json))

namespace Json

/-! ## The insides of strings -/

/-- How a character is written inside a string. -/
def escapeChar (c : Char) : List Char :=
  if c = '"' then ['\\', '"']
  else if c = '\\' then ['\\', '\\']
  else if c = '\x08' then ['\\', 'b']
  else if c = '\x0c' then ['\\', 'f']
  else if c = '\n' then ['\\', 'n']
  else if c = '\r' then ['\\', 'r']
  else if c = '\t' then ['\\', 't']
  else if c.toNat < 0x20 then
    ['\\', 'u', '0', '0', Text.hexDigit (c.toNat / 16), Text.hexDigit (c.toNat % 16)]
  else [c]

/-- How a text is written inside a string. -/
def escape (text : List Char) : List Char :=
  text.flatMap escapeChar

/-- The character that a backslash and this one stand for. -/
def shortEscape? (c : Char) : Option Char :=
  match c with
  | '"' => some '"'
  | '\\' => some '\\'
  | '/' => some '/'
  | 'b' => some '\x08'
  | 'f' => some '\x0c'
  | 'n' => some '\n'
  | 'r' => some '\r'
  | 't' => some '\t'
  | _ => none

/-- Whether a code unit is the first half of a surrogate pair. -/
def isHighSurrogate (n : Nat) : Bool :=
  0xd800 ≤ n && n < 0xdc00

/-- Whether a code unit is the second half of a surrogate pair. -/
def isLowSurrogate (n : Nat) : Bool :=
  0xdc00 ≤ n && n < 0xe000

/-- The character of a surrogate pair. -/
def ofSurrogates (high low : Nat) : Char :=
  Char.ofNat (0x10000 + (high - 0xd800) * 0x400 + (low - 0xdc00))

/-- Puts a character before a text. -/
def consText (c : Char) : Option (List Char) → Option (List Char)
  | some text => some (c :: text)
  | none => none

/-- The text that the inside of a string stands for, where `high` is a surrogate that waits for
its second half. -/
def unescapeFrom (high : Option Nat) : List Char → Option (List Char)
  | [] => if high.isNone then some [] else none
  | '\\' :: 'u' :: a :: b :: c :: d :: cs =>
    match Text.fixedDigits? 16 4 [a, b, c, d], high with
    | none, _ => none
    | some (n, _), some h =>
      if isLowSurrogate n then consText (ofSurrogates h n) (unescapeFrom none cs) else none
    | some (n, _), none =>
      if isHighSurrogate n then unescapeFrom (some n) cs
      else if isLowSurrogate n then none
      else consText (Char.ofNat n) (unescapeFrom none cs)
  | '\\' :: c :: cs =>
    match shortEscape? c, high with
    | some c, none => consText c (unescapeFrom none cs)
    | _, _ => none
  | c :: cs =>
    if high.isNone ∧ c ≠ '\\' then consText c (unescapeFrom none cs) else none

/-- The text that the inside of a string stands for, if it stands for one. -/
def unescape? (raw : List Char) : Option (List Char) :=
  unescapeFrom none raw

/-- The string with the given text. -/
def ofText (s : String) : Json :=
  .string (escape s.toList)

/-- The object with the given keys and values. -/
def ofMembers (members : List (String × Json)) : Json :=
  .object (members.map fun (key, value) => (escape key.toList, value))

end Json

end EpicsDb
