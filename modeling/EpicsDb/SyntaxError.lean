import EpicsDb.Token

/-!
# Syntax errors

A database file is refused at its first token that cannot stand where it stands.  The error keeps
that token and what would have been accepted; `SyntaxError.message` words it.
-/

namespace EpicsDb

/-- What could have stood at the place of an unexpected token. -/
inductive Expectation
  /-- A declaration outside of a record body. -/
  | declaration
  /-- An entry of a record body. -/
  | bodyEntry
  /-- The value of an argument. -/
  | value
  /-- A piece of a macro. -/
  | macroPiece
  /-- A token of one kind. -/
  | kind (kind : Kind)
  /-- Any token at all, after the last one. -/
  | furtherToken
  deriving DecidableEq, Repr

/-- The wording of an expectation. -/
def Expectation.message : Expectation → String
  | declaration => "Expected record or alias"
  | bodyEntry => "Expected info, field or alias"
  | value => "Expected either a literal or a string literal."
  | macroPiece => "Expected macro or literal"
  | kind k => "Expected '" ++ k.name ++ "'."
  | furtherToken => "Next token was requested, but none exists."

/-- Why a list of tokens is not a database. -/
inductive SyntaxError
  /-- There is not even an end-of-file token. -/
  | noTokens
  /-- A token cannot stand where it stands. -/
  | unexpected (found : Token) (wanted : Expectation)
  /-- The source of the tokens failed to give one. -/
  | reported (message : String) (line column : Nat)
  deriving DecidableEq, Repr

namespace SyntaxError

/-- The line at which the error is reported. -/
def line : SyntaxError → Nat
  | noTokens => 0
  | unexpected found _ => found.line
  | reported _ line _ => line

/-- The column at which the error is reported. -/
def column : SyntaxError → Nat
  | noTokens => 0
  | unexpected found _ => found.column
  | reported _ _ column => column

/-- The wording of the error. -/
def message : SyntaxError → String
  | noTokens => "No tokens found."
  | unexpected found wanted =>
    "Unexpected token '" ++ found.describe ++ "' encountered at " ++ toString found.line ++ ":" ++
      toString found.column ++ ": " ++ wanted.message
  | reported message _ _ => message

end SyntaxError

end EpicsDb
