import EpicsDb.Proofs.Grammar.ViablePrefix

/-!
# Only the lines that tokens share matter

A token is read for its kind and its text.  Its place matters in a comment alone, which goes on as
long as tokens share its line.  So two lists of tokens are read alike if they agree on kinds and
texts, and on which tokens share a line.

* `MatchesLines R` says that the relation `R` matches lines one to one; `Token.Alike`, `State.Alike`
  and `Move.Alike` relate what is the same up to such a match.
* `alike_movePlace` and `alike_move` are the lemmas about one move, and `reads_alike` is the
  induction along the tokens.
-/

namespace EpicsDb

variable {R : Nat → Nat → Prop} {s u : State} {t v : Token}

/-! ## What is the same up to its lines -/

/-- The relation matches lines one to one. -/
def MatchesLines (R : Nat → Nat → Prop) : Prop :=
  ∀ {k l m n}, R k l → R m n → (k = m ↔ l = n)

/-- The tokens differ in their places at most, and their lines match. -/
structure Token.Alike (R : Nat → Nat → Prop) (t v : Token) : Prop where
  kind : v.kind = t.kind
  text : v.text = t.text
  line : R t.line v.line

/-- The same macros are being skipped, or comments on lines that match. -/
inductive Skipped.Alike (R : Nat → Nat → Prop) : Skipped → Skipped → Prop where
  | nested (inner : OpenMacro) (outer : List OpenMacro) :
      Alike R (.nested inner outer) (.nested inner outer)
  | comment {k l : Nat} (h : R k l) : Alike R (.comment k) (.comment l)

/-- The states differ in the line of a comment at most. -/
structure State.Alike (R : Nat → Nat → Prop) (s u : State) : Prop where
  db : u.db = s.db
  place : u.place = s.place
  skipped : Option.Rel (Skipped.Alike R) s.skipped u.skipped

/-- The moves decide the same and lead to states that are alike. -/
inductive Move.Alike (R : Nat → Nat → Prop) : Move → Move → Prop where
  | finish (db : Database) : Alike R (.finish db) (.finish db)
  | refuse (wanted : Expectation) : Alike R (.refuse wanted) (.refuse wanted)
  | take {s u : State} (h : s.Alike R u) : Alike R (.take s) (.take u)

/-! ## One move -/

namespace Grammar

theorem alike_take_none (db : Database) (place : Place) :
    Move.Alike R (.take ⟨db, place, none⟩) (.take ⟨db, place, none⟩) :=
  .take ⟨rfl, rfl, .none⟩

theorem alike_enterMacro (db : Database) (place : Place) (close : Kind) :
    Move.Alike R (State.enterMacro db place close) (State.enterMacro db place close) :=
  .take ⟨rfl, rfl, .some (.nested _ _)⟩

theorem alike_enterComment (h : t.Alike R v) (db : Database) (place : Place) :
    Move.Alike R (State.enterComment db place t) (State.enterComment db place v) :=
  .take ⟨rfl, rfl, .some (.comment h.line)⟩

theorem alike_moveTop (h : t.Alike R v) (db : Database) :
    Move.Alike R (State.moveTop db t) (State.moveTop db v) := by
  unfold State.moveTop
  rw [h.kind]
  split
  · exact alike_enterMacro ..
  · split
    · exact .finish db
    · exact alike_take_none ..
    · exact alike_take_none ..
    · exact alike_enterComment h ..
    · exact .refuse _

theorem alike_moveHeader (h : t.Alike R v) (db : Database) (r : Record) :
    Move.Alike R (State.moveHeader db r t) (State.moveHeader db r v) := by
  unfold State.moveHeader
  rw [h.kind]
  split
  · exact alike_enterMacro ..
  · split
    · exact alike_enterComment h ..
    · exact alike_take_none ..
    · exact alike_moveTop h _

theorem alike_moveBody (h : t.Alike R v) (db : Database) (r : Record) (afterMacro : Bool) :
    Move.Alike R (State.moveBody db r afterMacro t) (State.moveBody db r afterMacro v) := by
  unfold State.moveBody
  rw [h.kind]
  split
  · exact alike_enterMacro ..
  · split
    · exact alike_take_none ..
    · exact alike_take_none ..
    · exact alike_take_none ..
    · exact alike_take_none ..
    · exact alike_enterComment h ..
    · exact .refuse _

theorem alike_moveEnded (h : t.Alike R v) (db : Database) (slot : Slot) (value : String) :
    Move.Alike R (State.moveEnded db slot value t) (State.moveEnded db slot value v) := by
  unfold State.moveEnded
  rw [h.kind]
  split
  · have hskipped : (slot.fill db value).skipped = none := fill_skipped db value slot
    exact .take ⟨rfl, rfl, by rw [hskipped]; exact .none⟩
  · exact .refuse _

theorem alike_moveValue (h : t.Alike R v) (db : Database) (slot : Slot) :
    Move.Alike R (State.moveValue db slot t) (State.moveValue db slot v) := by
  unfold State.moveValue
  rw [h.kind, h.text]
  split
  · exact alike_enterMacro ..
  · split
    · exact alike_take_none ..
    · exact alike_take_none ..
    · exact .refuse _

theorem alike_moveUnquoted (h : t.Alike R v) (db : Database) (slot : Slot) (text : String) :
    Move.Alike R (State.moveUnquoted db slot text t) (State.moveUnquoted db slot text v) := by
  unfold State.moveUnquoted
  rw [h.kind, h.text]
  split
  · exact alike_enterMacro ..
  · split
    · exact alike_take_none ..
    · exact alike_moveEnded h ..

theorem alike_movePlace (h : t.Alike R v) (db : Database) (place : Place) :
    Move.Alike R (State.movePlace db place t) (State.movePlace db place v) := by
  cases place with
  | top => exact alike_moveTop h db
  | header r => exact alike_moveHeader h db r
  | body r afterMacro => exact alike_moveBody h db r afterMacro
  | opening slot =>
    simp only [State.movePlace, h.kind]
    split
    · exact alike_take_none ..
    · exact .refuse _
  | value slot => exact alike_moveValue h db slot
  | unquoted slot text => exact alike_moveUnquoted h db slot text
  | ended slot value => exact alike_moveEnded h db slot value

/-- What is left to skip of macros has no line. -/
theorem alike_skipToken {m : OpenMacro} {ms : List OpenMacro} {kind : Kind}
    {skipped : Option Skipped} (h : State.skipToken m ms kind = .ok skipped) :
    Option.Rel (Skipped.Alike R) skipped skipped := by
  unfold State.skipToken at h
  split_ifs at h
  · split at h
    · cases h
      exact .none
    · cases h
      exact .some (.nested _ _)
  · cases h
    exact .some (.nested _ _)
  · cases h
    exact .some (.nested _ _)
  · cases h
    exact .some (.nested _ _)
  · split at h
    · cases h
      exact .some (.nested _ _)
    · simp at h

/-- Moves with tokens that are alike, from states that are alike. -/
theorem alike_move (hR : MatchesLines R) (hs : s.Alike R u) (ht : t.Alike R v) :
    Move.Alike R (s.move t) (u.move v) := by
  obtain ⟨db, place, skipped⟩ := s
  obtain ⟨db', place', skipped'⟩ := u
  obtain ⟨rfl, rfl, hskipped⟩ := hs
  cases hskipped with
  | none => exact alike_movePlace ht _ _
  | some hskipped =>
    cases hskipped with
    | nested inner outer =>
      simp only [State.move, ht.kind]
      cases hskip : State.skipToken inner outer t.kind with
      | error wanted => exact .refuse wanted
      | ok left => exact .take ⟨rfl, rfl, alike_skipToken hskip⟩
    | @comment k l hline =>
      -- the line of the comment goes on in one text if and only if it does in the other
      have hiff : t.line = k ∧ t.kind ≠ .endOfFile ↔ v.line = l ∧ v.kind ≠ .endOfFile := by
        rw [hR ht.line hline, ht.kind]
      simp only [State.move, hiff]
      split
      · exact .take ⟨rfl, rfl, .some (.comment hline)⟩
      · exact alike_movePlace ht _ _

/-! ## Whole lists -/

/-- Lists of tokens that are alike are read alike. -/
theorem reads_alike {ts vs : List Token} {out : Database} (hR : MatchesLines R)
    (hs : s.Alike R u) (hts : List.Forall₂ (Token.Alike R) ts vs) :
    Reads s ts out ↔ Reads u vs out := by
  induction hts generalizing s u with
  | nil => exact Iff.rfl
  | @cons t v ts vs ht hts ih =>
    have hmove := alike_move hR hs ht
    rw [reads_cons, reads_cons]
    generalize s.move t = m at hmove ⊢
    generalize u.move v = n at hmove ⊢
    cases hmove with
    | finish db => exact Iff.rfl
    | refuse wanted => exact Iff.rfl
    | take hnext => exact ih hnext

end Grammar

end EpicsDb
