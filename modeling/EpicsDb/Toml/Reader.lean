import EpicsDb.Toml.Scalar

/-!
# Reading TOML

A document is a list of lines: key and value, a header, or nothing, each with a comment after it if
need be.  `Toml.parse` reads a document.
-/

namespace EpicsDb.Toml

/-! ## Keys -/

/-- The characters of a key without quotes. -/
def isBareChar (c : Char) : Bool :=
  c.isAlphanum || c == '_' || c == '-'

/-- A key without dots. -/
def simpleKey : Text.Reader String
  | '"' :: cs => (basicBody cs).map fun (text, rest) => (String.ofList text, rest)
  | '\x27' :: cs => (literalBody cs).map fun (text, rest) => (String.ofList text, rest)
  | cs =>
    let word := cs.takeWhile isBareChar
    if word.isEmpty then none else some (String.ofList word, cs.drop word.length)

/-- The parts of a key with dots between them.  Blanks may stand around every part. -/
def keyParts (cs : List Char) : Option (List String × List Char) :=
  match simpleKey (skipBlanks cs) with
  | none => none
  | some (key, rest) =>
    match skipBlanks rest with
    | '.' :: rest =>
      if rest.length < cs.length then
        match keyParts rest with
        | some (keys, rest) => some (key :: keys, rest)
        | none => none
      else none
    | rest => some ([key], rest)
termination_by cs.length

/-- How deep values may be nested, and how many parts a key may have. -/
def maxDepth : Nat :=
  79

/-- A key: the path to its table, and its last part. -/
def key (cs : List Char) : Option ((List String × String) × List Char) :=
  match keyParts cs with
  | none => none
  | some (parts, rest) =>
    if parts.length ≤ maxDepth then
      parts.getLast?.map fun last => ((parts.dropLast, last), rest)
    else none

/-! ## Values -/

/-- Skips blanks, line breaks and comments, where the flag says whether a comment has started. -/
def skipGap : Bool → List Char → List Char
  | _, [] => []
  | _, '\r' :: '\n' :: cs => skipGap false cs
  | true, c :: cs =>
    if c = '\n' then skipGap false cs
    else if isPrintable c then skipGap true cs
    else c :: cs
  | false, c :: cs =>
    if c = '\n' || isBlank c then skipGap false cs
    else if c = '#' then skipGap true cs
    else c :: cs

/-- How arrays are written. -/
def arrayStyle : Text.ListStyle :=
  ⟨skipGap false, ']', true⟩

/-- How tables in braces are written. -/
def tableStyle : Text.ListStyle :=
  ⟨skipBlanks, '\x7d', false⟩

/-- A key, an equals sign and a value. -/
def keyValue (value : Text.Reader Toml) (cs : List Char) :
    Option (((List String × String) × Toml) × List Char) := do
  let (k, rest) ← key cs
  guard (rest.head? = some '=')
  let (v, rest) ← value (skipBlanks rest.tail)
  some ((k, v), rest)

/-- The table in braces with the given keys and values. -/
def tableOf (pairs : List ((List String × String) × Toml)) : Option Toml :=
  (pairs.foldlM (fun entries ((path, key), v) => define key v path entries) []).map
    (.table .braces ·)

/-- A value that is nested at most `depth` deep. -/
def value : Nat → Text.Reader Toml
  | 0, cs => scalar cs
  | depth + 1, cs =>
    match cs with
    | '[' :: rest =>
      (Text.enclosed arrayStyle (value depth) rest).map fun (xs, rest) => (.array xs, rest)
    | '\x7b' :: rest => do
      let (pairs, rest) ← Text.enclosed tableStyle (keyValue (value depth)) rest
      let table ← tableOf pairs
      some (table, rest)
    | cs => scalar cs

/-! ## Lines -/

/-- What follows the end of a line, before which blanks and a comment may stand. -/
def afterLine? (cs : List Char) : Option (List Char) :=
  let cs := skipBlanks cs
  let cs := if cs.head? = some '#' then cs.dropWhile isPrintable else cs
  if cs.isEmpty then some [] else afterBreak? cs

/-- A document that is being read: its entries, and the path of the last header. -/
structure Draft where
  entries : Entries
  path : List String

/-- What follows the path and the closing brackets of a header. -/
def header (close : List Char) (cs : List Char) : Option (List String × List Char) := do
  let ((path, last), rest) ← key cs
  guard (close.isPrefixOf rest)
  some (path ++ [last], rest.drop close.length)

/-- Reads what stands on a line. -/
def line (draft : Draft) (cs : List Char) : Option (Draft × List Char) :=
  match cs with
  | '[' :: '[' :: rest => do
    let (path, rest) ← header [']', ']'] rest
    let entries ← openItem path draft.entries
    some (⟨entries, path⟩, rest)
  | '[' :: rest => do
    let (path, rest) ← header [']'] rest
    let entries ← openTable path draft.entries
    some (⟨entries, path⟩, rest)
  | c :: _ =>
    if c = '#' || c = '\n' || c = '\r' then some (draft, cs)
    else do
      let (((path, key), v), rest) ← keyValue (value maxDepth) cs
      let entries ← update (define key v path) draft.path draft.entries
      some ({ draft with entries := entries }, rest)
  | [] => some (draft, [])

/-- Reads the lines of a document. -/
def lines (draft : Draft) (cs : List Char) : Option Entries :=
  match cs with
  | [] => some draft.entries
  | cs =>
    match line draft (skipBlanks cs) with
    | none => none
    | some (draft, rest) =>
      match afterLine? rest with
      | none => none
      | some rest => if rest.length < cs.length then lines draft rest else none
termination_by cs.length

/-- The document that a text holds.  A byte order mark at its start does not count. -/
def parse (text : String) : Option Toml :=
  let cs := text.toList
  let cs := if cs.head? = some '\ufeff' then cs.tail else cs
  (lines ⟨[], []⟩ cs).map (.table .header ·)

end EpicsDb.Toml
