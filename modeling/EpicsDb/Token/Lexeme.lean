import EpicsDb.Token

/-!
# Lexemes

The text of a database file is cut into lexemes, each as long as its class allows:

* a run of blanks;
* a word, which is a keyword if the whole word is one and a literal otherwise;
* a quoted text on one line, in which a backslash escapes the next character;
* the start of a macro, `$(` or `$` with an open brace;
* a mark such as a bracket or a comma.

What fits no class is an unknown lexeme: a dollar that opens no macro, a quote that is not closed
on its line together with what follows it there, or any other single character.  So every text can
be cut, and nothing of it is lost.

`Lexeme.first` says how the next lexeme is chosen and `lexemes` cuts the whole text.
-/

namespace EpicsDb

/-- A piece of text with its kind. -/
structure Lexeme where
  kind : Kind
  text : List Char
  deriving DecidableEq, Repr

namespace Lexeme

/-! ## Classes of characters -/

/-- The characters that only separate tokens. -/
def isBlank (c : Char) : Bool :=
  c == ' ' || c == '\t' || c == '\r' || c == '\n' || c == '\x0c'

/-- The characters that words are made of. -/
def isWordChar (c : Char) : Bool :=
  c.isAlphanum || c == '_' || c == '.' || c == ':' || c == '-'

/-- A word is a keyword only as a whole. -/
def wordKind (word : List Char) : Kind :=
  if word = "record".toList || word = "grecord".toList then .recordWord
  else if word = "field".toList then .fieldWord
  else if word = "info".toList then .infoWord
  else if word = "alias".toList then .aliasWord
  else .literal

/-- The kind of a character that is a lexeme on its own. -/
def markKind (c : Char) : Kind :=
  if c = '(' then .openBracket
  else if c = ')' then .closeBracket
  else if c = '\x7b' then .openBrace
  else if c = '\x7d' then .closeBrace
  else if c = ',' then .comma
  else if c = '=' then .equals
  else if c = '#' then .hash
  else .unknown

/-! ## Quoted text -/

/-- How many characters at the head can stand between quotes: any but a quote, a backslash or a
line break, and a backslash together with the character after it on its line. -/
def quotableLength : List Char → Nat
  | [] => 0
  | '\\' :: c :: cs => if c = '\n' then 0 else quotableLength cs + 2
  | c :: cs => if c = '"' || c = '\\' || c = '\n' then 0 else quotableLength cs + 1

/-! ## The next lexeme -/

/-- The kind of the lexeme that starts with `c`, where `cs` follows, and how many characters of
`cs` belong to it. -/
def first (c : Char) (cs : List Char) : Kind × Nat :=
  if isBlank c then
    (.blank, (cs.takeWhile isBlank).length)
  else if isWordChar c then
    let word := cs.takeWhile isWordChar
    (wordKind (c :: word), word.length)
  else if c = '"' then
    let n := quotableLength cs
    if (cs.drop n).head? = some '"' then (.quoted, n + 1) else (.unknown, n)
  else if c = '$' then
    if cs.head? = some '(' then (.bracketMacro, 1)
    else if cs.head? = some '\x7b' then (.braceMacro, 1)
    else (.unknown, 0)
  else
    (markKind c, 0)

end Lexeme

/-- The lexemes of a text, blanks included. -/
def lexemes : List Char → List Lexeme
  | [] => []
  | c :: cs =>
    let (kind, n) := Lexeme.first c cs
    ⟨kind, c :: cs.take n⟩ :: lexemes (cs.drop n)
termination_by cs => cs.length
decreasing_by simp only [List.length_drop, List.length_cons]; omega

end EpicsDb
