/-!
# Tokens of a database file

A database file is read as a list of tokens.  A token has a kind, the text it was written with, and
the place where it starts: lines are counted from one, columns from zero in characters.
-/

namespace EpicsDb

/-- What a token is.  Round brackets are called brackets and curly ones braces. -/
inductive Kind
  | recordWord
  | fieldWord
  | infoWord
  | aliasWord
  | openBracket
  | closeBracket
  | openBrace
  | closeBrace
  | comma
  | equals
  | quoted
  | literal
  | hash
  | braceMacro
  | bracketMacro
  | blank
  | unknown
  | endOfFile
  deriving DecidableEq, Repr

namespace Kind

/-- The name of the kind in messages. -/
def name : Kind → String
  | recordWord => "RECORD"
  | fieldWord => "FIELD"
  | infoWord => "INFO"
  | aliasWord => "ALIAS"
  | openBracket => "L_BRACKET"
  | closeBracket => "R_BRACKET"
  | openBrace => "L_BRACE"
  | closeBrace => "R_BRACE"
  | comma => "COMMA"
  | equals => "EQUALS"
  | quoted => "QUOTED_STRING"
  | literal => "LITERAL"
  | hash => "HASH"
  | braceMacro => "BRACE_MACRO_START"
  | bracketMacro => "BRACKET_MACRO_START"
  | blank => "WHITESPACE"
  | unknown => "UNKNOWN"
  | endOfFile => "EOF"

/-- Every kind, once. -/
def all : List Kind :=
  [recordWord, fieldWord, infoWord, aliasWord, openBracket, closeBracket, openBrace, closeBrace,
    comma, equals, quoted, literal, hash, braceMacro, bracketMacro, blank, unknown, endOfFile]

/-- The kind with the given name. -/
def ofName? (s : String) : Option Kind :=
  all.find? (·.name == s)

/-- The kind that closes a macro opened by this kind, if this kind opens one. -/
def macroClose? : Kind → Option Kind
  | bracketMacro => some closeBracket
  | braceMacro => some closeBrace
  | _ => none

/-- Whether a token of this kind opens a macro. -/
def opensMacro (k : Kind) : Bool :=
  k.macroClose?.isSome

end Kind

/-- A token and the place where it starts. -/
structure Token where
  kind : Kind
  line : Nat
  column : Nat
  text : String
  deriving DecidableEq, Repr

namespace Token

/-- A token that stands nowhere and holds no text. -/
def ofKind (kind : Kind) : Token :=
  ⟨kind, 0, 0, ""⟩

/-- The token as messages show it. -/
def describe (t : Token) : String :=
  t.kind.name ++ " (contents=" ++ t.text ++ ")"

end Token

end EpicsDb
