import EpicsDb.Proofs.Coverage
import EpicsDb.Proofs.Grammar.Layout
import Mathlib.Data.List.Forall2

/-!
# Databases one below the other

Two texts that are databases make up a database if one is put below the other.  The first one may
end in a record whose body could still open, in a comment or in a run of macros; whatever it ends
in, the second one is read as if it stood alone, except that its aliases may go to records of the
first one.

* `line_of_reaches` says that a comment that has been entered is on the line of a token that has
  been read, and `line_lt_of_mem` that no token of the lower text is on such a line.
* `exists_place_of_parse` puts the two runs together: the lower text is read between declarations,
  or where the body of the last record of the upper one could open.
* `parse_append_eq` says what comes of it: the declarations of the lower text are added to the
  database of the upper one.
* `map_withoutAliases_foldl_declare` says what becomes of the records apart from their aliases, and
  `foldl_declare_append` what becomes of them if the aliases of the lower text pass by the records
  of the upper one.
-/

namespace EpicsDb

variable {a b : String} {da db out : Database} {t v : Token}

/-! ## Lines of two texts -/

namespace Tiles

variable {before rest : List Char} {ts : List Token}

theorem le_line (h : Tiles before rest ts) (ht : t ∈ ts) : 1 + before.count '\n' ≤ t.line := by
  obtain ⟨further, hline, -⟩ := h.exists_standsBehind ht
  rw [List.count_append] at hline
  omega

theorem line_le (h : Tiles before rest ts) (ht : t ∈ ts) :
    t.line ≤ 1 + (before ++ rest).count '\n' := by
  induction h with
  | @last before gap last hgap hkind htext hplace =>
    obtain rfl := List.mem_singleton.mp ht
    exact hplace.1.le
  | @more before gap rest first ts hgap hkind htext hline hplace later ih =>
    rcases List.mem_cons.mp ht with rfl | ht
    · have hfirst : t.line = 1 + (before ++ gap).count '\n' := hplace.1
      simp only [List.count_append] at hfirst ⊢
      omega
    · have hlater := ih ht
      simp only [List.count_append] at hlater ⊢
      omega

end Tiles

/-- The tokens of the upper text are on lines above those of the lower one. -/
theorem line_lt_of_mem (ht : t ∈ tokenize a)
    (hv : v ∈ (tokenize b).map (Token.moveDown (1 + a.toList.count '\n'))) : t.line < v.line := by
  obtain ⟨w, hw, rfl⟩ := List.mem_map.mp hv
  have hupper : t.line ≤ 1 + a.toList.count '\n' := (tiles_tokensAt [] a.toList).line_le ht
  have hlower : 1 ≤ w.line := (tiles_tokensAt [] b.toList).le_line hw
  change t.line < w.line + (1 + a.toList.count '\n')
  omega

/-! ## Where a text may end -/

namespace Grammar

variable {s last : State} {place : Place} {ts rest before : List Token}

/-- A comment that has been entered is on the line of a token that has been read. -/
theorem line_of_reaches {P : Nat → Prop} {line : Nat} (h : Reaches s before last)
    (hs : s.Alike (fun k l => k = l ∧ P k) s) (hP : ∀ t ∈ before, P t.line)
    (hlast : last.skipped = some (.comment line)) : P line := by
  have hR : MatchesLines fun k l => k = l ∧ P k := by
    rintro k l m n ⟨rfl, -⟩ ⟨rfl, -⟩
    exact Iff.rfl
  induction h with
  | done s =>
    have hskipped := hs.skipped
    rw [hlast] at hskipped
    cases hskipped with
    | some hskipped =>
      cases hskipped with
      | comment hline => exact hline.2
  | @take s next last t ts hmove later ih =>
    have ht : t.Alike (fun k l => k = l ∧ P k) t := ⟨rfl, rfl, rfl, hP t List.mem_cons_self⟩
    have hnext := alike_move hR hs ht
    rw [hmove] at hnext
    cases hnext with
    | take hnext => exact ih hnext (fun u hu => hP u (List.mem_cons_of_mem t hu)) hlast

/-- No file ends in a macro. -/
theorem movePlace_of_finish (h : s.move t = .finish out) :
    State.movePlace s.db s.place t = .finish out ∧ ∀ m ms, s.skipped ≠ some (.nested m ms) := by
  obtain ⟨db, place, skipped⟩ := s
  cases skipped with
  | none => exact ⟨h, by simp⟩
  | some skipped =>
    cases skipped with
    | nested m ms =>
      simp only [State.move] at h
      split at h <;> simp at h
    | comment line =>
      simp only [State.move] at h
      split at h
      · simp at h
      · exact ⟨h, by simp⟩

theorem kind_of_finish (h : State.movePlace db place t = .finish out) : t.kind = .endOfFile := by
  have hproper := proper_movePlace db place t
  rwa [h] at hproper

/-- A file ends between declarations, or where the body of its last record could open. -/
theorem movePlace_eq_finish (h : State.movePlace db place t = .finish out) :
    place = .top ∧ db = out ∨ ∃ r, place = .header r ∧ db.push r = out := by
  have hkind : t.kind = .endOfFile := kind_of_finish h
  cases place with
  | top =>
    simp only [State.movePlace, State.moveTop, hkind, Kind.macroClose?, Move.finish.injEq] at h
    exact .inl ⟨rfl, h⟩
  | header r =>
    simp only [State.movePlace, State.moveHeader, State.moveTop, hkind, Kind.macroClose?,
      Move.finish.injEq] at h
    exact .inr ⟨r, rfl, h⟩
  | body r afterMacro =>
    simp [State.movePlace, State.moveBody, hkind, Kind.macroClose?] at h
  | opening slot => simp [State.movePlace, hkind] at h
  | value slot => simp [State.movePlace, State.moveValue, hkind, Kind.macroClose?] at h
  | unquoted slot text =>
    rcases closer_cases slot with hslot | hslot <;>
      simp [State.movePlace, State.moveUnquoted, State.moveEnded, hkind, hslot,
        Kind.macroClose?] at h
  | ended slot value =>
    rcases closer_cases slot with hslot | hslot <;>
      simp [State.movePlace, State.moveEnded, hkind, hslot] at h

/-- A comment ends before tokens on other lines. -/
theorem dropWhile_inComment {line : Nat} (h : ∀ u ∈ rest, u.line ≠ line) :
    rest.dropWhile (inComment line) = rest := by
  cases rest with
  | nil => rfl
  | cons u us =>
    have hu : u.line ≠ line := h u List.mem_cons_self
    exact List.dropWhile_cons_of_neg (by simp [inComment, hu])

/-- Tokens on other lines than a comment are read as if there was no comment. -/
theorem reads_below_comment (hskipped : ∀ m ms, s.skipped ≠ some (.nested m ms))
    (hline : ∀ line, s.skipped = some (.comment line) → ∀ u ∈ rest, u.line ≠ line) :
    Reads s rest out ↔ Reads ⟨s.db, s.place, none⟩ rest out := by
  obtain ⟨db, place, skipped⟩ := s
  cases skipped with
  | none => exact Iff.rfl
  | some skipped =>
    cases skipped with
    | nested m ms => exact absurd rfl (hskipped m ms)
    | comment line => rw [reads_comment, dropWhile_inComment (hline line rfl)]

/-- Tokens further down are read alike. -/
theorem reads_moveDown (n : Nat) :
    Reads ⟨db, place, none⟩ (ts.map (Token.moveDown n)) out ↔ Reads ⟨db, place, none⟩ ts out := by
  have hR : MatchesLines fun k l => l = k + n := by
    rintro k l m n rfl rfl
    omega
  have hs : State.Alike (fun k l => l = k + n) ⟨db, place, none⟩ ⟨db, place, none⟩ :=
    ⟨rfl, rfl, .none⟩
  have hts : List.Forall₂ (Token.Alike fun k l => l = k + n) ts (ts.map (Token.moveDown n)) := by
    rw [List.forall₂_map_right_iff, List.forall₂_same]
    intro t _
    exact ⟨rfl, rfl, rfl⟩
  exact (reads_alike hR hs hts).symm

/-! ## Two runs in one -/

/-- The tokens are the declarations and an end of file. -/
def Declares (tokens : List Token) (ds : List Declaration) : Prop :=
  ∃ last, Many DeclarationAt tokens ds [last] ∧ last.kind = .endOfFile

theorem exists_declares (h : Database.parse b = .ok db) :
    ∃ ds, Declares (tokenize b) ds ∧ ds.foldl declare .empty = db := by
  obtain ⟨ds, last, us, hmany, hlast, hdb⟩ := reads_top.mp (ofTokens_eq_ok_iff.mp h)
  obtain rfl : us = [] :=
    (endsOnce_tokenize b).eq_nil_of_suffix (hmany.suffix DeclarationAt.leaves) hlast
  exact ⟨ds, ⟨last, hmany, hlast⟩, hdb⟩

theorem foldl_declare_of_declares {ds : List Declaration} (hds : Declares (tokenize b) ds)
    (h : Database.parse b = .ok db) : ds.foldl declare .empty = db := by
  obtain ⟨last, hmany, hlast⟩ := hds
  have hreads : Reads .initial (tokenize b) (ds.foldl declare .empty) :=
    reads_top.mpr ⟨ds, last, [], hmany, hlast, rfl⟩
  have hparse : Database.parse b = .ok (ds.foldl declare .empty) :=
    ofTokens_eq_ok_iff.mpr hreads
  rw [h] at hparse
  exact (Except.ok.inj hparse).symm

/-- The tokens of a database lead to a state in which the database may end. -/
theorem exists_reaches_finish (h : Database.parse a = .ok da) :
    ∃ s last, Reaches .initial (tokenize a).dropLast s ∧ s.move last = .finish da := by
  have hends : EndsOnce (tokenize a) := endsOnce_tokenize a
  have hend : ∃ t ∈ tokenize a, t.kind = .endOfFile := by
    obtain ⟨front, eof, htokens, heof, -⟩ := hends
    exact ⟨eof, by simp [htokens], heof⟩
  have hinitial : Closes .initial := closes_of_none rfl
  obtain ⟨before, found, after, s, hsplit, hreach, hdecision⟩ := exists_decision hinitial hend
  rw [Database.parse, ofTokens_eq_result, hsplit, hreach.result (by simp)] at h
  rcases hdecision with ⟨out, hfinish⟩ | ⟨wanted, hrefuse, -⟩
  · rw [result_of_finish hfinish] at h
    obtain rfl : out = da := Except.ok.inj h
    have hkind : found.kind = .endOfFile := kind_of_finish (movePlace_of_finish hfinish).1
    obtain rfl : after = [] := hends.eq_nil_of_suffix ⟨before, hsplit.symm⟩ hkind
    refine ⟨s, found, ?_, hfinish⟩
    rwa [hsplit, List.dropLast_concat]
  · rw [result_of_refuse hrefuse] at h
    simp at h

/-- A text below a database is read as it stands, from the place where the database ends. -/
theorem exists_place_of_parse (ha : Database.parse a = .ok da) :
    ∃ db place, (place = .top ∧ db = da ∨ ∃ r, place = .header r ∧ db.push r = da) ∧
      ∀ b out, Database.parse (a ++ "\n" ++ b) = .ok out ↔
        Reads ⟨db, place, none⟩ (tokenize b) out := by
  obtain ⟨s, last, hreach, hfinish⟩ := exists_reaches_finish ha
  obtain ⟨hplace, hskipped⟩ := movePlace_of_finish hfinish
  refine ⟨s.db, s.place, movePlace_eq_finish hplace, ?_⟩
  intro b out
  let lower := (tokenize b).map (Token.moveDown (1 + a.toList.count '\n'))
  have hcomment : ∀ line, s.skipped = some (.comment line) → ∀ u ∈ lower, u.line ≠ line := by
    intro line hline u hu
    have hbelow : ∀ t ∈ (tokenize a).dropLast, t.line < u.line :=
      fun t ht => line_lt_of_mem ((List.dropLast_sublist _).subset ht) hu
    have hlt : line < u.line :=
      line_of_reaches (P := (· < u.line)) hreach ⟨rfl, rfl, .none⟩ hbelow hline
    omega
  have hne : lower ≠ [] := mt List.map_eq_nil_iff.mp (tokensAt_ne_nil .start b.toList)
  calc Database.parse (a ++ "\n" ++ b) = .ok out
      ↔ result s lower = .ok out := by
        rw [Database.parse, tokenize_append, ofTokens_eq_result, hreach.result hne]
    _ ↔ Reads s lower out := reads_iff_result.symm
    _ ↔ Reads ⟨s.db, s.place, none⟩ lower out := reads_below_comment hskipped hcomment
    _ ↔ Reads ⟨s.db, s.place, none⟩ (tokenize b) out := reads_moveDown _

/-- The declarations of the lower text are added to the database of the upper one. -/
theorem parse_append_eq {ds : List Declaration} (ha : Database.parse a = .ok da)
    (hds : Declares (tokenize b) ds) :
    Database.parse (a ++ "\n" ++ b) = .ok (ds.foldl declare da) := by
  obtain ⟨db, place, hplace, hparse⟩ := exists_place_of_parse ha
  obtain ⟨eof, hmany, heof⟩ := hds
  have hlower : Reads ⟨da, .top, none⟩ (tokenize b) (ds.foldl declare da) :=
    reads_top.mpr ⟨ds, eof, [], hmany, heof, rfl⟩
  apply (hparse b _).mpr
  rcases hplace with ⟨rfl, rfl⟩ | ⟨r, rfl, rfl⟩
  · exact hlower
  · exact reads_header_of_top hlower

/-! ## What becomes of the records -/

/-- The record that a declaration is, if it is one. -/
def Declaration.record? : Declaration → Option Record
  | .record r => some r
  | _ => none

end Grammar

/-- The record without its further names. -/
def Record.withoutAliases (r : Record) : Record :=
  { r with aliases := [] }

theorem map_withoutAliases_addAlias (records : List Record) (parent name : String) :
    (Database.addAlias records parent name).map Record.withoutAliases =
      records.map Record.withoutAliases := by
  induction records with
  | nil => rfl
  | cons r rs ih =>
    rw [Database.addAlias]
    split
    · rfl
    · rw [List.map_cons, List.map_cons, ih]

namespace Grammar

/-- Apart from aliases, declarations only add records. -/
theorem map_withoutAliases_foldl_declare (ds : List Declaration) (db : Database) :
    (ds.foldl declare db).records.map Record.withoutAliases =
      (db.records ++ ds.filterMap Declaration.record?).map Record.withoutAliases := by
  induction ds generalizing db with
  | nil => simp
  | cons d ds ih =>
    rw [List.foldl_cons, ih, List.map_append, List.map_append]
    cases d with
    | record r => simp [declare, Database.push, Declaration.record?]
    | aliasOf parent name =>
      have hadd := map_withoutAliases_addAlias db.records parent name
      simp [declare, Database.attach, Declaration.record?, List.filterMap_cons, hadd]
    | filler f => simp [declare, Declaration.record?, List.filterMap_cons]

/-- Records that answer to no parent stay as they are, and the others do not notice them. -/
theorem addAlias_append {upper : List Record} {parent : String}
    (h : ∀ r ∈ upper, r.answersTo parent = false) (lower : List Record) (name : String) :
    Database.addAlias (upper ++ lower) parent name =
      upper ++ Database.addAlias lower parent name := by
  induction upper with
  | nil => rfl
  | cons r rs ih =>
    have hr : r.answersTo parent = false := h r List.mem_cons_self
    have hrs : ∀ q ∈ rs, q.answersTo parent = false := fun q hq => h q (List.mem_cons_of_mem r hq)
    rw [List.cons_append, Database.addAlias, hr, ih hrs]
    rfl

theorem foldl_declare_append {ds : List Declaration} {upper : List Record}
    (h : ∀ parent name, .aliasOf parent name ∈ ds → ∀ r ∈ upper, r.answersTo parent = false)
    (source source' : String) (lower : List Record) :
    (ds.foldl declare ⟨source, upper ++ lower⟩).records =
      upper ++ (ds.foldl declare ⟨source', lower⟩).records := by
  induction ds generalizing lower with
  | nil => rfl
  | cons d ds ih =>
    have hds : ∀ parent name, .aliasOf parent name ∈ ds → ∀ r ∈ upper, r.answersTo parent = false :=
      fun parent name hmem => h parent name (List.mem_cons_of_mem d hmem)
    rw [List.foldl_cons, List.foldl_cons]
    cases d with
    | record r =>
      simp only [declare, Database.push, List.append_assoc]
      exact ih hds _
    | aliasOf parent name =>
      simp only [declare, Database.attach, addAlias_append (h parent name List.mem_cons_self)]
      exact ih hds _
    | filler f => exact ih hds lower

end Grammar

/-! ## Both databases -/

open Grammar

/-- The records have the same type, name, fields and infos. -/
def Record.Agrees (r s : Record) : Prop :=
  r.type = s.type ∧ r.name = s.name ∧ r.fields = s.fields ∧ r.infos = s.infos

theorem forall₂_agrees_iff {rs ss : List Record} :
    List.Forall₂ Record.Agrees rs ss ↔
      rs.map Record.withoutAliases = ss.map Record.withoutAliases := by
  rw [← List.forall₂_eq_eq_eq, List.forall₂_map_left_iff, List.forall₂_map_right_iff]
  simp only [Record.withoutAliases, Record.mk.injEq, and_true]
  rfl

/-- A database below another one makes up a database with it.  Its records are those of both, apart
from aliases; it is exactly the records of both if no alias that is declared outside of the records
of the lower one names a record of the upper one. -/
theorem parse_append_newline (a b : String) (da db : Database) (ha : Database.parse a = .ok da)
    (hb : Database.parse b = .ok db) :
    ∃ both, Database.parse (a ++ "\n" ++ b) = .ok both ∧
      List.Forall₂ Record.Agrees both.records (da.records ++ db.records) ∧
      (∃ ds, Declares (tokenize b) ds) ∧
      ∀ ds, Declares (tokenize b) ds →
        (∀ parent name, .aliasOf parent name ∈ ds → ∀ r ∈ da.records, r.answersTo parent = false) →
        both.records = da.records ++ db.records := by
  obtain ⟨ds, hds, hdb⟩ := exists_declares hb
  refine ⟨ds.foldl declare da, parse_append_eq ha hds, ?_, ⟨ds, hds⟩, ?_⟩
  · have hlower := map_withoutAliases_foldl_declare ds .empty
    rw [hdb] at hlower
    rw [forall₂_agrees_iff, map_withoutAliases_foldl_declare, List.map_append, List.map_append,
      hlower]
    rfl
  · -- the grammar is ambiguous, but all readings of the lower text give the same database
    intro es hes hparents
    have hsame : ds.foldl declare da = es.foldl declare da :=
      Except.ok.inj ((parse_append_eq ha hds).symm.trans (parse_append_eq ha hes))
    have hlower : es.foldl declare .empty = db := foldl_declare_of_declares hes hb
    have hrecords := foldl_declare_append hparents da.source "" []
    rw [List.append_nil] at hrecords
    rw [hsame, ← hlower]
    exact hrecords

/-- The theorem at a text that ends in a comment after a record without a body, above one that
declares an alias outside of its record. -/
theorem parse_append_bodyless_record :
    let a := "record(ai, A) # note"
    let b := "record(\"ao\", \"B\") alias(\"B\", \"C\")"
    let da : Database := ⟨"", [.bare "ai" "A"]⟩
    let db : Database := ⟨"", [⟨"ao", "B", [], [], ["C"]⟩]⟩
    (Database.parse a = .ok da ∧ Database.parse b = .ok db) ∧
      ∃ both, Database.parse (a ++ "\n" ++ b) = .ok both ∧
        List.Forall₂ Record.Agrees both.records (da.records ++ db.records) ∧
        both.records = da.records ++ db.records := by
  intro a b da db
  have ha : Database.parse a = .ok da := by decide +kernel
  have hb : Database.parse b = .ok db := by decide +kernel
  obtain ⟨both, hparse, hagree, -, hexact⟩ := parse_append_newline a b da db ha hb
  have htokens : tokenize b =
      [⟨.recordWord, 1, 0, "record"⟩, ⟨.openBracket, 1, 6, "("⟩, ⟨.quoted, 1, 7, "\"ao\""⟩,
        ⟨.comma, 1, 11, ","⟩, ⟨.quoted, 1, 13, "\"B\""⟩, ⟨.closeBracket, 1, 16, ")"⟩,
        ⟨.aliasWord, 1, 18, "alias"⟩, ⟨.openBracket, 1, 23, "("⟩, ⟨.quoted, 1, 24, "\"B\""⟩,
        ⟨.comma, 1, 27, ","⟩, ⟨.quoted, 1, 29, "\"C\""⟩, ⟨.closeBracket, 1, 32, ")"⟩,
        ⟨.endOfFile, 1, 33, ""⟩] := by
    decide +kernel
  have hds : Declares (tokenize b) [.record (recordOf "ao" "B" []), .aliasOf "B" "C"] := by
    rw [htokens]
    have hvalue (value : String) (line column : Nat) (rest : List Token) :
        Value (⟨.quoted, line, column, "\"" ++ value ++ "\""⟩ :: rest) value rest :=
      .quoted rfl (.quotes value)
    exact ⟨⟨.endOfFile, 1, 33, ""⟩,
      .more (.record (.bare rfl (.mk rfl (hvalue "ao" ..) rfl (hvalue "B" ..) rfl) .done))
        (.more (.aliasOf rfl (.mk rfl (hvalue "B" ..) rfl (hvalue "C" ..) rfl)) .done), rfl⟩
  refine ⟨⟨ha, hb⟩, both, hparse, hagree, hexact _ hds ?_⟩
  intro parent name hmem r hr
  obtain ⟨rfl, rfl⟩ : parent = "B" ∧ name = "C" := by simpa using hmem
  obtain rfl := List.mem_singleton.mp hr
  decide +kernel

-- an alias that is declared below goes to the record above that answers to its parent
example :
    Database.parse ("record(ai, A)" ++ "\n" ++ "record(ai, B) alias(A, C)") =
      .ok ⟨"", [⟨"ai", "A", [], [], ["C"]⟩, .bare "ai" "B"]⟩ := by
  decide +kernel

end EpicsDb
