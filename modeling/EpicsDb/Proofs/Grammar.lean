import EpicsDb.Database.Cursor

/-!
# The grammar of database files

The grammar is written as relations on lists of tokens.  A `Production` relates the tokens before
it, the value that it stands for and the tokens that it leaves.  The tokens that are left are part
of the relation because a comment ends where the next line starts: what belongs to it depends on
what follows.

```text
file        := declaration* EOF
declaration := record | aliasOf | filler
record      := RECORD pair filler* (OPEN_BRACE bodyItem* CLOSE_BRACE)?
bodyItem    := FIELD pair | INFO pair | ALIAS OPEN_BRACKET value CLOSE_BRACKET | filler
aliasOf     := ALIAS pair
pair        := OPEN_BRACKET value COMMA value CLOSE_BRACKET
value       := QUOTED | fragment+
fragment    := LITERAL | macro
filler      := macro | comment
macro       := open piece* (EQUALS (piece | HASH)*)? the close of open
piece       := LITERAL | macro
comment     := HASH and every further token of its line
```

The grammar is not shaped like a reader.  It is ambiguous (a macro after a record without a body is
a filler of the record or of the file), and it says nothing about which alternative to try.

* `Derives` relates the tokens of a whole file to the database that they describe.
* `Leaves` says that a production takes at least one token from the front; the lemmas named
  `leaves` establish it for each production.
-/

namespace EpicsDb.Grammar

/-- What a nonterminal relates: the tokens before it, its value, and the tokens that it leaves. -/
abbrev Production (α : Type) := List Token → α → List Token → Prop

/-- A production any number of times. -/
inductive Many {α : Type} (p : Production α) : List Token → List α → List Token → Prop where
  | done {ts : List Token} : Many p ts [] ts
  | more {ts us rest : List Token} {a : α} {as : List α}
      (first : p ts a us) (later : Many p us as rest) : Many p ts (a :: as) rest

/-! ## Macros and comments -/

/-- The kinds of token that open a macro, each with the kind that closes it. -/
inductive Encloses : Kind → Kind → Prop where
  | brackets : Encloses .bracketMacro .closeBracket
  | braces : Encloses .braceMacro .closeBrace

theorem macroClose?_eq_some_iff {kind close : Kind} :
    kind.macroClose? = some close ↔ Encloses kind close := by
  constructor
  · intro h
    cases kind <;> cases h
    · exact .braces
    · exact .brackets
  · rintro (_ | _) <;> rfl

mutual

/-- A macro: the token that opens it, the pieces of its name, the pieces of its default if there is
one, and the token that closes what was opened. -/
inductive Macro : List Token → List Token → Prop where
  | bare {opener closer : Token} {ts rest : List Token}
      (hclose : Encloses opener.kind closer.kind)
      (name : Pieces false ts (closer :: rest)) :
      Macro (opener :: ts) rest
  | withDefault {opener sign closer : Token} {ts us rest : List Token}
      (hclose : Encloses opener.kind closer.kind)
      (name : Pieces false ts (sign :: us)) (hsign : sign.kind = .equals)
      (default : Pieces true us (closer :: rest)) :
      Macro (opener :: ts) rest

/-- Pieces of the name of a macro or, if `inDefault`, of its default, where hashes may stand. -/
inductive Pieces : Bool → List Token → List Token → Prop where
  | done {inDefault : Bool} {ts : List Token} : Pieces inDefault ts ts
  | literal {inDefault : Bool} {t : Token} {ts rest : List Token} (ht : t.kind = .literal)
      (later : Pieces inDefault ts rest) : Pieces inDefault (t :: ts) rest
  | hash {t : Token} {ts rest : List Token} (ht : t.kind = .hash)
      (later : Pieces true ts rest) : Pieces true (t :: ts) rest
  | nested {inDefault : Bool} {ts us rest : List Token} (inner : Macro ts us)
      (later : Pieces inDefault us rest) : Pieces inDefault ts rest

end

/-- Whether a token after a hash on the given line belongs to the comment. -/
def inComment (line : Nat) (t : Token) : Bool :=
  t.line = line && t.kind ≠ .endOfFile

/-- What contributes nothing to a database. -/
inductive Filler
  | ofMacro
  | comment
  deriving DecidableEq, Repr

/-- A macro, or a hash with every further token of its line. -/
inductive FillerAt : List Token → Filler → List Token → Prop where
  | ofMacro {ts rest : List Token} (inner : Macro ts rest) : FillerAt ts .ofMacro rest
  | comment {hash : Token} {ts : List Token} (hhash : hash.kind = .hash) :
      FillerAt (hash :: ts) .comment (ts.dropWhile (inComment hash.line))

/-! ## Values -/

/-- What a quoted text stands for: the text between its outer quotes.  A text without them stands
for itself. -/
inductive Unquoted : String → String → Prop where
  | quotes (value : String) : Unquoted ("\"" ++ value ++ "\"") value
  | plain {text : String} (h : ∀ value, text ≠ "\"" ++ value ++ "\"") : Unquoted text text

/-- A part of an unquoted value.  A macro adds nothing to the text. -/
inductive Fragment : List Token → String → List Token → Prop where
  | literal {t : Token} {ts : List Token} (ht : t.kind = .literal) : Fragment (t :: ts) t.text ts
  | ofMacro {ts rest : List Token} (inner : Macro ts rest) : Fragment ts "" rest

/-- A value: a quoted text, or fragments whose texts are put together. -/
inductive Value : List Token → String → List Token → Prop where
  | quoted {t : Token} {ts : List Token} {value : String} (ht : t.kind = .quoted)
      (hvalue : Unquoted t.text value) : Value (t :: ts) value ts
  | unquoted {ts rest : List Token} {texts : List String}
      (fragments : Many Fragment ts texts rest) (hne : texts ≠ []) :
      Value ts (String.join texts) rest

/-- Two values in brackets. -/
inductive Pair : List Token → String × String → List Token → Prop where
  | mk {opener comma closer : Token} {ts us rest : List Token} {key value : String}
      (hopen : opener.kind = .openBracket) (first : Value ts key (comma :: us))
      (hcomma : comma.kind = .comma) (second : Value us value (closer :: rest))
      (hclose : closer.kind = .closeBracket) : Pair (opener :: ts) (key, value) rest

/-! ## Records -/

/-- What can stand in the body of a record. -/
inductive BodyItem
  | filler (f : Filler)
  | field (name value : String)
  | info (name value : String)
  | ownAlias (name : String)
  deriving DecidableEq, Repr

/-- An item of a body. -/
inductive BodyItemAt : List Token → BodyItem → List Token → Prop where
  | filler {ts rest : List Token} {f : Filler} (inner : FillerAt ts f rest) :
      BodyItemAt ts (.filler f) rest
  | field {word : Token} {ts rest : List Token} {name value : String}
      (hword : word.kind = .fieldWord) (arguments : Pair ts (name, value) rest) :
      BodyItemAt (word :: ts) (.field name value) rest
  | info {word : Token} {ts rest : List Token} {name value : String}
      (hword : word.kind = .infoWord) (arguments : Pair ts (name, value) rest) :
      BodyItemAt (word :: ts) (.info name value) rest
  | ownAlias {word opener closer : Token} {ts rest : List Token} {name : String}
      (hword : word.kind = .aliasWord) (hopen : opener.kind = .openBracket)
      (argument : Value ts name (closer :: rest)) (hclose : closer.kind = .closeBracket) :
      BodyItemAt (word :: opener :: ts) (.ownAlias name) rest

namespace BodyItem

/-- The fields among the items.  A field has a macro if and only if the item directly before it is a
macro; `afterMacro` says this of the first item. -/
def fields : Bool → List BodyItem → List Field
  | _, [] => []
  | afterMacro, .field name value :: items => .of name value afterMacro :: fields false items
  | _, item :: items => fields (item = .filler .ofMacro) items

/-- The info entry that the item is, if it is one. -/
def info? : BodyItem → Option Field
  | .info name value => some (.of name value false)
  | _ => none

/-- The further name of the record that the item is, if it is one. -/
def ownAlias? : BodyItem → Option String
  | .ownAlias name => some name
  | _ => none

end BodyItem

/-- The record with the given items in its body. -/
def recordOf (type name : String) (items : List BodyItem) : Record :=
  ⟨type, name, BodyItem.fields false items, items.filterMap BodyItem.info?,
    items.filterMap BodyItem.ownAlias?⟩

/-- A record with or without a body. -/
inductive RecordAt : List Token → Record → List Token → Prop where
  | bare {word : Token} {ts us rest : List Token} {type name : String} {fillers : List Filler}
      (hword : word.kind = .recordWord) (arguments : Pair ts (type, name) us)
      (gap : Many FillerAt us fillers rest) : RecordAt (word :: ts) (recordOf type name []) rest
  | withBody {word opener closer : Token} {ts us vs rest : List Token} {type name : String}
      {fillers : List Filler} {items : List BodyItem}
      (hword : word.kind = .recordWord) (arguments : Pair ts (type, name) us)
      (gap : Many FillerAt us fillers (opener :: vs)) (hopen : opener.kind = .openBrace)
      (body : Many BodyItemAt vs items (closer :: rest)) (hclose : closer.kind = .closeBrace) :
      RecordAt (word :: ts) (recordOf type name items) rest

/-! ## Files -/

/-- What can stand in a file outside of records. -/
inductive Declaration
  | record (r : Record)
  | aliasOf (parent name : String)
  | filler (f : Filler)
  deriving DecidableEq, Repr

/-- A declaration. -/
inductive DeclarationAt : List Token → Declaration → List Token → Prop where
  | record {ts rest : List Token} {r : Record} (inner : RecordAt ts r rest) :
      DeclarationAt ts (.record r) rest
  | aliasOf {word : Token} {ts rest : List Token} {parent name : String}
      (hword : word.kind = .aliasWord) (arguments : Pair ts (parent, name) rest) :
      DeclarationAt (word :: ts) (.aliasOf parent name) rest
  | filler {ts rest : List Token} {f : Filler} (inner : FillerAt ts f rest) :
      DeclarationAt ts (.filler f) rest

/-- What a declaration does to the records before it.  A record comes after them.  An alias goes to
the first of them that is known by its parent, and is dropped if there is none. -/
inductive Adds : List Record → Declaration → List Record → Prop where
  | record (records : List Record) (r : Record) : Adds records (.record r) (records ++ [r])
  | attached {before after : List Record} {r : Record} {parent name : String}
      (hbefore : ∀ q ∈ before, q.answersTo parent = false) (hr : r.answersTo parent = true) :
      Adds (before ++ r :: after) (.aliasOf parent name)
        (before ++ { r with aliases := r.aliases ++ [name] } :: after)
  | dropped {records : List Record} {parent name : String}
      (hnone : ∀ q ∈ records, q.answersTo parent = false) :
      Adds records (.aliasOf parent name) records
  | filler (records : List Record) (f : Filler) : Adds records (.filler f) records

/-- What declarations do to the records before them, one after another. -/
inductive AddsAll : List Record → List Declaration → List Record → Prop where
  | done (records : List Record) : AddsAll records [] records
  | more {records middle last : List Record} {d : Declaration} {ds : List Declaration}
      (first : Adds records d middle) (later : AddsAll middle ds last) :
      AddsAll records (d :: ds) last

/-- The tokens are declarations and an end of file, and the declarations describe the database. -/
def Derives (tokens : List Token) (db : Database) : Prop :=
  ∃ declarations last, Many DeclarationAt tokens declarations [last] ∧ last.kind = .endOfFile ∧
    db.source = "" ∧ AddsAll [] declarations db.records

/-! ## What productions leave

Every production takes at least one token from the front and leaves a suffix of the tokens before
it.  Loops over a production end because of this. -/

/-- `rest` is left of `ts` once at least one token has been taken from the front. -/
def Leaves (ts rest : List Token) : Prop :=
  ∃ t us, ts = t :: us ∧ rest <:+ us

namespace Leaves

variable {t : Token} {ts us rest : List Token}

theorem suffix (h : Leaves ts rest) : rest <:+ ts := by
  obtain ⟨t, us, rfl, hrest⟩ := h
  exact hrest.trans (List.suffix_cons t us)

theorem length_lt (h : Leaves ts rest) : rest.length < ts.length := by
  obtain ⟨t, us, rfl, hrest⟩ := h
  exact Nat.lt_succ_of_le hrest.length_le

theorem trans_suffix (h : Leaves ts us) (hrest : rest <:+ us) : Leaves ts rest := by
  obtain ⟨t, vs, rfl, hus⟩ := h
  exact ⟨t, vs, rfl, hrest.trans hus⟩

theorem cons (h : rest <:+ ts) : Leaves (t :: ts) rest :=
  ⟨t, ts, rfl, h⟩

end Leaves

/-- A suffix that starts with a token has the suffix after that token. -/
theorem suffix_of_cons_suffix {t : Token} {ts rest : List Token} (h : t :: rest <:+ ts) :
    rest <:+ ts :=
  (List.suffix_cons t rest).trans h

mutual

theorem Macro.leaves {ts rest : List Token} : Macro ts rest → Leaves ts rest
  | .bare _ name => .cons (suffix_of_cons_suffix name.suffix)
  | .withDefault _ name _ default =>
    .cons ((suffix_of_cons_suffix default.suffix).trans (suffix_of_cons_suffix name.suffix))

theorem Pieces.suffix {inDefault : Bool} {ts rest : List Token} :
    Pieces inDefault ts rest → rest <:+ ts
  | .done => List.suffix_refl _
  | .literal _ later => later.suffix.trans (List.suffix_cons _ _)
  | .hash _ later => later.suffix.trans (List.suffix_cons _ _)
  | .nested inner later => later.suffix.trans inner.leaves.suffix

end

theorem FillerAt.leaves {ts rest : List Token} {f : Filler} (h : FillerAt ts f rest) :
    Leaves ts rest := by
  cases h with
  | ofMacro inner => exact inner.leaves
  | comment hhash => exact .cons (List.dropWhile_suffix _)

theorem Fragment.leaves {ts rest : List Token} {text : String} (h : Fragment ts text rest) :
    Leaves ts rest := by
  cases h with
  | literal ht => exact .cons (List.suffix_refl _)
  | ofMacro inner => exact inner.leaves

theorem Many.suffix {α : Type} {p : Production α} {ts rest : List Token} {as : List α}
    (hp : ∀ {ts a us}, p ts a us → Leaves ts us) (h : Many p ts as rest) : rest <:+ ts := by
  induction h with
  | done => exact List.suffix_refl _
  | more first later ih => exact ih.trans (hp first).suffix

theorem Value.leaves {ts rest : List Token} {value : String} (h : Value ts value rest) :
    Leaves ts rest := by
  cases h with
  | quoted ht hvalue => exact .cons (List.suffix_refl _)
  | unquoted fragments hne =>
    cases fragments with
    | done => exact absurd rfl hne
    | more first later => exact first.leaves.trans_suffix (later.suffix Fragment.leaves)

theorem Pair.leaves {ts rest : List Token} {pair : String × String} (h : Pair ts pair rest) :
    Leaves ts rest := by
  cases h with
  | mk hopen first hcomma second hclose =>
    exact .cons ((suffix_of_cons_suffix second.leaves.suffix).trans
      (suffix_of_cons_suffix first.leaves.suffix))

theorem BodyItemAt.leaves {ts rest : List Token} {item : BodyItem}
    (h : BodyItemAt ts item rest) : Leaves ts rest := by
  cases h with
  | filler inner => exact inner.leaves
  | field hword arguments => exact .cons arguments.leaves.suffix
  | info hword arguments => exact .cons arguments.leaves.suffix
  | ownAlias hword hopen argument hclose =>
    exact .cons ((suffix_of_cons_suffix argument.leaves.suffix).trans (List.suffix_cons _ _))

theorem RecordAt.leaves {ts rest : List Token} {r : Record} (h : RecordAt ts r rest) :
    Leaves ts rest := by
  cases h with
  | bare hword arguments gap =>
    exact .cons ((gap.suffix FillerAt.leaves).trans arguments.leaves.suffix)
  | withBody hword arguments gap hopen body hclose =>
    have hbody := suffix_of_cons_suffix (body.suffix BodyItemAt.leaves)
    have hgap := suffix_of_cons_suffix (gap.suffix FillerAt.leaves)
    exact .cons ((hbody.trans hgap).trans arguments.leaves.suffix)

theorem DeclarationAt.leaves {ts rest : List Token} {d : Declaration}
    (h : DeclarationAt ts d rest) : Leaves ts rest := by
  cases h with
  | record inner => exact inner.leaves
  | aliasOf hword arguments => exact .cons arguments.leaves.suffix
  | filler inner => exact inner.leaves

end EpicsDb.Grammar
