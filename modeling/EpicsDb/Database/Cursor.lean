import EpicsDb.Database.State
import EpicsDb.Token.Position

/-!
# Reading databases from a source of tokens

A source gives tokens one after another, and may fail to give one.  A `Cursor` stands at the current
token of such a source.  Reading a database moves it to an end-of-file token, or leaves it where the
reading failed; it can be used again in either case.

`Database.parse` reads a text.
-/

namespace EpicsDb

/-- What a source of tokens gives when asked for one. -/
abbrev Item := Except SyntaxError Token

/-- Whether two items are alike: tokens if they are of one kind, failures if they are reported
alike. -/
def Item.alike : Item → Item → Bool
  | .ok t, .ok u => t.kind == u.kind
  | .error e, .error f => e.message == f.message && e.line == f.line && e.column == f.column
  | _, _ => false

/-- A token of a source and the items behind it. -/
structure Cursor where
  current : Token
  pending : List Item

namespace Cursor

/-- The cursor at the first item of a source. -/
def ofItems : List Item → Except SyntaxError Cursor
  | [] => .error .noTokens
  | .error e :: _ => .error e
  | .ok t :: items => .ok ⟨t, items⟩

/-- Reads on from a state, and gives the result with the cursor that is left. -/
def run (s : State) (current : Token) (pending : List Item) :
    Except SyntaxError Database × Cursor :=
  match s.move current with
  | .finish db => (.ok db, ⟨current, pending⟩)
  | .refuse wanted => (.error (.unexpected current wanted), ⟨current, pending⟩)
  | .take next =>
    match pending with
    | [] => (.error (.unexpected current .furtherToken), ⟨current, []⟩)
    | .error e :: items => (.error e, ⟨current, items⟩)
    | .ok t :: items => run next t items

/-- Reads one database. -/
def read (c : Cursor) : Except SyntaxError Database × Cursor :=
  run .initial c.current c.pending

/-- Reads `n` databases one after another, whether or not a reading fails. -/
def readMany (c : Cursor) : Nat → List (Except SyntaxError Database)
  | 0 => []
  | n + 1 =>
    let (result, rest) := c.read
    result :: rest.readMany n

end Cursor

/-- The database that a list of tokens describes. -/
def Database.ofTokens (tokens : List Token) : Except SyntaxError Database := do
  let cursor ← Cursor.ofItems (tokens.map .ok)
  cursor.read.1

/-- The database that a text describes. -/
def Database.parse (text : String) : Except SyntaxError Database :=
  Database.ofTokens (tokenize text)

end EpicsDb
