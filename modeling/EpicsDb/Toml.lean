/-!
# TOML documents

A document is a table of values.  The same table may be mentioned at several places of a document,
but it is defined at one of them only, so every table remembers how it came to be.

* `Toml.define` gives a dotted key its value.
* `Toml.openTable` and `Toml.openItem` are the headers of a table and of an item of an array of
  tables.
-/

namespace EpicsDb

/-- How a table came to be. -/
inductive Toml.Origin
  /-- It was written in braces, and is complete. -/
  | braces
  /-- It has a header. -/
  | header
  /-- It is mentioned in the header of a table inside it. -/
  | outer
  /-- It is mentioned in a dotted key. -/
  | dotted
  deriving DecidableEq, Repr

/-- A TOML value.  What a number or a date is does not matter to anyone here. -/
inductive Toml
  | bool (b : Bool)
  | string (s : String)
  | number
  | dateTime
  | array (items : List Toml)
  | table (origin : Toml.Origin) (entries : List (String × Toml))
  /-- An array of tables made by headers: the tables before the last one, and the last one. -/
  | tables (earlier : List (List (String × Toml))) (last : List (String × Toml))

namespace Toml

/-- The keys and values of a table. -/
abbrev Entries := List (String × Toml)

/-- The entries with another value for a key that they have. -/
def replace (entries : Entries) (key : String) (v : Toml) : Entries :=
  entries.map fun (k, w) => if k = key then (k, v) else (k, w)

/-- Changes the table that a header path leads to.  In an array of tables that is the last one. -/
def update (change : Entries → Option Entries) : List String → Entries → Option Entries
  | [], entries => change entries
  | key :: path, entries =>
    match entries.lookup key with
    | some (.table origin inner) =>
      (update change path inner).map fun inner => replace entries key (.table origin inner)
    | some (.tables earlier last) =>
      (update change path last).map fun last => replace entries key (.tables earlier last)
    | _ => none

/-- Gives the key at the end of a dotted path its value.  A key has one value, and a dotted path
adds to no table that was defined in another way. -/
def define (key : String) (v : Toml) : List String → Entries → Option Entries
  | [], entries =>
    match entries.lookup key with
    | none => some (entries ++ [(key, v)])
    | some _ => none
  | k :: path, entries =>
    match entries.lookup k with
    | none => (define key v path []).map fun inner => entries ++ [(k, .table .dotted inner)]
    | some (.table .dotted inner) =>
      (define key v path inner).map fun inner => replace entries k (.table .dotted inner)
    | some (.table .outer inner) =>
      if path.isEmpty then none
      else (define key v path inner).map fun inner => replace entries k (.table .outer inner)
    | some (.tables earlier last) =>
      if path.isEmpty then none
      else (define key v path last).map fun last => replace entries k (.tables earlier last)
    | some _ => none

/-- Follows the path of a header up to its last key, where `change` is made. -/
def descend (change : String → Entries → Option Entries) : List String → Entries → Option Entries
  | [], _ => none
  | [key], entries => change key entries
  | k :: path, entries =>
    match entries.lookup k with
    | none => (descend change path []).map fun inner => entries ++ [(k, .table .outer inner)]
    | some (.table .braces _) => none
    | some (.table origin inner) =>
      (descend change path inner).map fun inner => replace entries k (.table origin inner)
    | some (.tables earlier last) =>
      (descend change path last).map fun last => replace entries k (.tables earlier last)
    | some _ => none

/-- Gives a table its header.  Only a table that was merely mentioned around another one may be
there already. -/
def openTable (path : List String) (entries : Entries) : Option Entries :=
  descend (fun key entries =>
    match entries.lookup key with
    | none => some (entries ++ [(key, .table .header [])])
    | some (.table .outer inner) => some (replace entries key (.table .header inner))
    | some _ => none) path entries

/-- Adds an item to an array of tables. -/
def openItem (path : List String) (entries : Entries) : Option Entries :=
  descend (fun key entries =>
    match entries.lookup key with
    | none => some (entries ++ [(key, .tables [] [])])
    | some (.tables earlier last) => some (replace entries key (.tables (earlier ++ [last]) []))
    | some _ => none) path entries

end Toml

end EpicsDb
