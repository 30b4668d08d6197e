import EpicsDb.Database
import EpicsDb.SyntaxError

/-!
# Reading a database token by token

While a file is read, a `State` keeps the records that are complete, the place that the reading has
reached, and the macro or comment that is being skipped there.  `State.move` is the grammar: given
the next token it takes the token and goes to another state, refuses the token, or ends.

A file is a list of records and aliases.  A record has a type and a name in brackets and may have a
body in braces with fields, infos and aliases.  A value is a quoted text or a run of literals.
Macros contribute nothing: they may stand between declarations, before and in a body, and in an
unquoted value.  A comment runs from a hash to the end of its line.
-/

namespace EpicsDb

/-! ## Places -/

/-- The entries of a body that have a name and a value. -/
inductive Entry
  | field (hasMacro : Bool)
  | info
  deriving DecidableEq, Repr

/-- A value to be read, together with what has been read before it in the same declaration. -/
inductive Slot
  | recordType
  | recordName (type : String)
  | aliasParent
  | aliasName (parent : String)
  | entryName (r : Record) (entry : Entry)
  | entryValue (r : Record) (entry : Entry) (name : String)
  /-- The only argument of an alias inside the body of the record. -/
  | ownAlias (r : Record)
  deriving DecidableEq, Repr

/-- Where the reading stands. -/
inductive Place
  /-- Between declarations. -/
  | top
  /-- After the arguments of a record, where its body may open. -/
  | header (r : Record)
  /-- Between the entries of a body. -/
  | body (r : Record) (afterMacro : Bool)
  /-- Before the bracket that opens the arguments. -/
  | opening (slot : Slot)
  /-- Before a value. -/
  | value (slot : Slot)
  /-- In an unquoted value, of which `text` has been read. -/
  | unquoted (slot : Slot) (text : String)
  /-- After a quoted value. -/
  | ended (slot : Slot) (value : String)
  deriving DecidableEq, Repr

/-- A macro that has been opened. -/
structure OpenMacro where
  /-- The kind of token that ends it. -/
  close : Kind
  /-- Whether its equals sign has been read. -/
  inDefault : Bool
  deriving DecidableEq, Repr

/-- What is being skipped. -/
inductive Skipped
  /-- A macro, and the macros around it from the inside out. -/
  | nested (inner : OpenMacro) (outer : List OpenMacro)
  /-- A comment on the given line. -/
  | comment (line : Nat)
  deriving DecidableEq, Repr

/-- How far a file has been read. -/
structure State where
  db : Database
  place : Place
  skipped : Option Skipped
  deriving DecidableEq, Repr

/-- What a state does with the next token. -/
inductive Move
  /-- The file ends before the token. -/
  | finish (db : Database)
  /-- The token cannot stand here. -/
  | refuse (wanted : Expectation)
  /-- The token is read. -/
  | take (next : State)
  deriving DecidableEq, Repr

/-! ## Values -/

/-- The text without the quotes around it. -/
def unquote (text : String) : String :=
  match text.toList with
  | '"' :: cs => if cs.getLast? = some '"' then String.ofList cs.dropLast else text
  | _ => text

/-- The kind of token that follows the value of a slot. -/
def Slot.closer : Slot → Kind
  | recordType | aliasParent | entryName .. => .comma
  | recordName _ | aliasName _ | entryValue .. | ownAlias _ => .closeBracket

/-- The state once the value of a slot and the token after it have been read. -/
def Slot.fill (db : Database) (value : String) : Slot → State
  | recordType => ⟨db, .value (.recordName value), none⟩
  | recordName type => ⟨db, .header (.bare type value), none⟩
  | aliasParent => ⟨db, .value (.aliasName value), none⟩
  | aliasName parent => ⟨db.attach parent value, .top, none⟩
  | entryName r entry => ⟨db, .value (.entryValue r entry value), none⟩
  | entryValue r (.field hasMacro) name =>
    ⟨db, .body { r with fields := r.fields ++ [.of name value hasMacro] } false, none⟩
  | entryValue r .info name =>
    ⟨db, .body { r with infos := r.infos ++ [.of name value false] } false, none⟩
  | ownAlias r => ⟨db, .body { r with aliases := r.aliases ++ [value] } false, none⟩

/-! ## Moves -/

namespace State

/-- The state before the first token. -/
def initial : State :=
  ⟨.empty, .top, none⟩

/-- Takes the start of a macro, after which the reading goes on at `place`. -/
def enterMacro (db : Database) (place : Place) (close : Kind) : Move :=
  .take ⟨db, place, some (.nested ⟨close, false⟩ [])⟩

/-- Takes a hash, after which the reading goes on at `place` on another line. -/
def enterComment (db : Database) (place : Place) (t : Token) : Move :=
  .take ⟨db, place, some (.comment t.line)⟩

/-- The move between declarations. -/
def moveTop (db : Database) (t : Token) : Move :=
  match t.kind.macroClose? with
  | some close => enterMacro db .top close
  | none =>
    match t.kind with
    | .endOfFile => .finish db
    | .recordWord => .take ⟨db, .opening .recordType, none⟩
    | .aliasWord => .take ⟨db, .opening .aliasParent, none⟩
    | .hash => enterComment db .top t
    | _ => .refuse .declaration

/-- The move after the arguments of a record.  What does not open a body ends the record. -/
def moveHeader (db : Database) (r : Record) (t : Token) : Move :=
  match t.kind.macroClose? with
  | some close => enterMacro db (.header r) close
  | none =>
    match t.kind with
    | .hash => enterComment db (.header r) t
    | .openBrace => .take ⟨db, .body r false, none⟩
    | _ => moveTop (db.push r) t

/-- The move between the entries of a body. -/
def moveBody (db : Database) (r : Record) (afterMacro : Bool) (t : Token) : Move :=
  match t.kind.macroClose? with
  | some close => enterMacro db (.body r true) close
  | none =>
    match t.kind with
    | .closeBrace => .take ⟨db.push r, .top, none⟩
    | .fieldWord => .take ⟨db, .opening (.entryName r (.field afterMacro)), none⟩
    | .infoWord => .take ⟨db, .opening (.entryName r .info), none⟩
    | .aliasWord => .take ⟨db, .opening (.ownAlias r), none⟩
    | .hash => enterComment db (.body r false) t
    | _ => .refuse .bodyEntry

/-- The move after a value: the token that closes the slot is due. -/
def moveEnded (db : Database) (slot : Slot) (value : String) (t : Token) : Move :=
  if t.kind = slot.closer then .take (slot.fill db value) else .refuse (.kind slot.closer)

/-- The move before a value. -/
def moveValue (db : Database) (slot : Slot) (t : Token) : Move :=
  match t.kind.macroClose? with
  | some close => enterMacro db (.unquoted slot "") close
  | none =>
    match t.kind with
    | .quoted => .take ⟨db, .ended slot (unquote t.text), none⟩
    | .literal => .take ⟨db, .unquoted slot t.text, none⟩
    | _ => .refuse .value

/-- The move in an unquoted value.  What does not continue the value ends it. -/
def moveUnquoted (db : Database) (slot : Slot) (text : String) (t : Token) : Move :=
  match t.kind.macroClose? with
  | some close => enterMacro db (.unquoted slot text) close
  | none =>
    match t.kind with
    | .literal => .take ⟨db, .unquoted slot (text ++ t.text), none⟩
    | _ => moveEnded db slot text t

/-- The move where nothing is being skipped. -/
def movePlace (db : Database) (place : Place) (t : Token) : Move :=
  match place with
  | .top => moveTop db t
  | .header r => moveHeader db r t
  | .body r afterMacro => moveBody db r afterMacro t
  | .opening slot =>
    if t.kind = .openBracket then .take ⟨db, .value slot, none⟩
    else .refuse (.kind .openBracket)
  | .value slot => moveValue db slot t
  | .unquoted slot text => moveUnquoted db slot text t
  | .ended slot value => moveEnded db slot value t

/-- What is left to skip after a token of the innermost macro, unless it cannot stand there.  The
name of a macro is made of literals and macros; its default may also hold hashes. -/
def skipToken (inner : OpenMacro) (outer : List OpenMacro) (kind : Kind) :
    Except Expectation (Option Skipped) :=
  if kind = inner.close then
    match outer with
    | [] => .ok none
    | m :: ms => .ok (some (.nested m ms))
  else if kind = .literal then
    .ok (some (.nested inner outer))
  else if kind = .equals ∧ inner.inDefault = false then
    .ok (some (.nested { inner with inDefault := true } outer))
  else if kind = .hash ∧ inner.inDefault = true then
    .ok (some (.nested inner outer))
  else
    match kind.macroClose? with
    | some close => .ok (some (.nested ⟨close, false⟩ (inner :: outer)))
    | none => .error .macroPiece

/-- The move with the next token. -/
def move (s : State) (t : Token) : Move :=
  match s.skipped with
  | none => movePlace s.db s.place t
  | some (.nested inner outer) =>
    match skipToken inner outer t.kind with
    | .ok skipped => .take { s with skipped := skipped }
    | .error wanted => .refuse wanted
  | some (.comment line) =>
    if t.line = line ∧ t.kind ≠ .endOfFile then .take s
    else movePlace s.db s.place t

end State

end EpicsDb
