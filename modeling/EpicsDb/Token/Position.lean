import EpicsDb.Token.Lexeme

/-!
# Places in a text

Only a line feed starts a new line.  `tokenize` gives each lexeme its place, leaves the blanks out
and puts one end-of-file token at the very end of the text.
-/

namespace EpicsDb

/-- A place in a text. -/
structure Position where
  line : Nat
  column : Nat
  deriving DecidableEq, Repr

namespace Position

/-- The place of the first character. -/
def start : Position :=
  ⟨1, 0⟩

/-- The place after one character. -/
def next (p : Position) (c : Char) : Position :=
  if c = '\n' then ⟨p.line + 1, 0⟩ else ⟨p.line, p.column + 1⟩

/-- The place after a run of characters. -/
def after (p : Position) (cs : List Char) : Position :=
  cs.foldl next p

end Position

/-- The tokens of the lexemes that start at `p`. -/
def placeLexemes (p : Position) : List Lexeme → List Token
  | [] => [⟨.endOfFile, p.line, p.column, ""⟩]
  | l :: ls =>
    let later := placeLexemes (p.after l.text) ls
    if l.kind = .blank then later
    else ⟨l.kind, p.line, p.column, String.ofList l.text⟩ :: later

/-- The tokens of a text. -/
def tokenize (s : String) : List Token :=
  placeLexemes .start (lexemes s.toList)

end EpicsDb
