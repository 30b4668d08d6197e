import EpicsDb.Proofs.Grammar.Parsing

/-!
# Files are refused at the first token that cannot stand

What is read before a file is refused can always be completed to a file, so that the token at which
it is refused is the first one that is wrong.

* `Reaches` follows the states that the tokens of a file lead through, and `result` is what reading
  gives; `Reaches.result` says that reading goes on from the state that has been reached.
* `Proper` says what a single move may do, and `proper_move` that every move is one: an end of file
  is never taken, the reading never asks for more tokens than there are, and every macro that has
  been opened can be closed.  `exists_decision` is the induction over the tokens.
* `Completable` says that a state can be read on to the end of a file, starting on any line.
  `completable_place` finds the way out of every place, and `exists_reads` out of every state.
-/

namespace EpicsDb.Grammar

variable {db : Database} {place : Place} {slot : Slot} {r : Record} {s next : State} {t : Token}
  {ts before after : List Token}

/-! ## Following the tokens -/

/-- Taking the tokens leads from the first state to the second one. -/
inductive Reaches : State → List Token → State → Prop where
  | done (s : State) : Reaches s [] s
  | take {s next last : State} {t : Token} {ts : List Token} (hmove : s.move t = .take next)
      (later : Reaches next ts last) : Reaches s (t :: ts) last

/-- What reading the tokens from the state gives. -/
def result (s : State) : List Token → Except SyntaxError Database
  | [] => .error .noTokens
  | t :: ts => (Cursor.run s t (ts.map .ok)).1

theorem ofTokens_eq_result (tokens : List Token) :
    Database.ofTokens tokens = result .initial tokens := by
  cases tokens <;> rfl

theorem reads_iff_result {out : Database} : Reads s ts out ↔ result s ts = .ok out := by
  cases ts with
  | nil => simp [Reads, result]
  | cons t ts => exact Iff.rfl

theorem result_of_finish (h : s.move t = .finish db) : result s (t :: ts) = .ok db := by
  rw [result, Cursor.run, h]

theorem result_of_refuse {wanted : Expectation} (h : s.move t = .refuse wanted) :
    result s (t :: ts) = .error (.unexpected t wanted) := by
  rw [result, Cursor.run, h]

theorem result_of_take (h : s.move t = .take next) (hts : ts ≠ []) :
    result s (t :: ts) = result next ts := by
  obtain ⟨u, us, rfl⟩ := List.exists_cons_of_ne_nil hts
  rw [result, Cursor.run, h]
  rfl

/-- Reading goes on from the state that has been reached. -/
theorem Reaches.result (h : Reaches s before next) (hafter : after ≠ []) :
    result s (before ++ after) = result next after := by
  induction h with
  | done => rfl
  | @take s mid last t ts hmove later ih =>
    have hne : ts ++ after ≠ [] := by simp [hafter]
    rw [List.cons_append, result_of_take hmove hne, ih]

/-! ## What a move may do -/

/-- All macros that are being skipped can be closed. -/
def Closes (s : State) : Prop :=
  ∀ m ms, s.skipped = some (.nested m ms) → ∀ x ∈ m :: ms, Closable x

/-- What a move with the token may do. -/
def Proper (t : Token) : Move → Prop
  | .finish _ => t.kind = .endOfFile
  | .refuse wanted => wanted ≠ .furtherToken
  | .take next => t.kind ≠ .endOfFile ∧ Closes next

theorem closes_of_none (h : s.skipped = none) : Closes s := by
  intro m ms hskipped
  simp [h] at hskipped

theorem proper_enterMacro {close : Kind} (h : t.kind.macroClose? = some close) :
    Proper t (State.enterMacro db place close) := by
  refine ⟨?_, ?_⟩
  · intro hkind
    simp [hkind, Kind.macroClose?] at h
  · rintro m ms ⟨⟩
    simpa using closable_of_macroClose? h

theorem proper_enterComment (h : t.kind = .hash) : Proper t (State.enterComment db place t) := by
  refine ⟨by simp [h], ?_⟩
  rintro m ms ⟨⟩

theorem proper_take {kind : Kind} (ht : t.kind = kind) (hkind : kind ≠ .endOfFile)
    (hnext : next.skipped = none) : Proper t (.take next) :=
  ⟨ht ▸ hkind, closes_of_none hnext⟩

theorem proper_refuse {wanted : Expectation} (h : wanted ≠ .furtherToken) :
    Proper t (.refuse wanted) :=
  h

theorem fill_skipped (db : Database) (value : String) (slot : Slot) :
    (slot.fill db value).skipped = none := by
  cases slot with
  | entryValue r entry name => cases entry <;> rfl
  | _ => rfl

theorem proper_moveTop (db : Database) (t : Token) : Proper t (State.moveTop db t) := by
  unfold State.moveTop
  split
  · next close hclose => exact proper_enterMacro hclose
  · split
    · next ht => exact ht
    · next ht => exact proper_take ht (by decide) rfl
    · next ht => exact proper_take ht (by decide) rfl
    · next ht => exact proper_enterComment ht
    · exact proper_refuse (by decide)

theorem proper_moveHeader (db : Database) (r : Record) (t : Token) :
    Proper t (State.moveHeader db r t) := by
  unfold State.moveHeader
  split
  · next close hclose => exact proper_enterMacro hclose
  · split
    · next ht => exact proper_enterComment ht
    · next ht => exact proper_take ht (by decide) rfl
    · exact proper_moveTop (db.push r) t

theorem proper_moveBody (db : Database) (r : Record) (afterMacro : Bool) (t : Token) :
    Proper t (State.moveBody db r afterMacro t) := by
  unfold State.moveBody
  split
  · next close hclose => exact proper_enterMacro hclose
  · split
    · next ht => exact proper_take ht (by decide) rfl
    · next ht => exact proper_take ht (by decide) rfl
    · next ht => exact proper_take ht (by decide) rfl
    · next ht => exact proper_take ht (by decide) rfl
    · next ht => exact proper_enterComment ht
    · exact proper_refuse (by decide)

theorem proper_moveEnded (db : Database) (slot : Slot) (value : String) (t : Token) :
    Proper t (State.moveEnded db slot value t) := by
  unfold State.moveEnded
  split
  · next ht =>
    have hkind : slot.closer ≠ .endOfFile := by
      rcases closer_cases slot with h | h <;> simp [h]
    exact proper_take ht hkind (fill_skipped db value slot)
  · exact proper_refuse (by simp)

theorem proper_moveValue (db : Database) (slot : Slot) (t : Token) :
    Proper t (State.moveValue db slot t) := by
  unfold State.moveValue
  split
  · next close hclose => exact proper_enterMacro hclose
  · split
    · next ht => exact proper_take ht (by decide) rfl
    · next ht => exact proper_take ht (by decide) rfl
    · exact proper_refuse (by decide)

theorem proper_moveUnquoted (db : Database) (slot : Slot) (text : String) (t : Token) :
    Proper t (State.moveUnquoted db slot text t) := by
  unfold State.moveUnquoted
  split
  · next close hclose => exact proper_enterMacro hclose
  · split
    · next ht => exact proper_take ht (by decide) rfl
    · exact proper_moveEnded db slot text t

theorem proper_movePlace (db : Database) (place : Place) (t : Token) :
    Proper t (State.movePlace db place t) := by
  cases place with
  | top => exact proper_moveTop db t
  | header r => exact proper_moveHeader db r t
  | body r afterMacro => exact proper_moveBody db r afterMacro t
  | opening slot =>
    rw [State.movePlace]
    split
    · next ht => exact proper_take ht (by decide) rfl
    · exact proper_refuse (by simp)
  | value slot => exact proper_moveValue db slot t
  | unquoted slot text => exact proper_moveUnquoted db slot text t
  | ended slot value => exact proper_moveEnded db slot value t

/-- Neither an end of file nor an unknown token belongs to a macro. -/
theorem skipToken_stray {m : OpenMacro} {kind : Kind} (hm : Closable m) (ms : List OpenMacro)
    (hkind : kind = .endOfFile ∨ kind = .unknown) :
    State.skipToken m ms kind = .error .macroPiece := by
  rcases hkind with rfl | rfl <;> rcases hm with h | h <;>
    simp [State.skipToken, h, Kind.macroClose?]

theorem eq_macroPiece_of_skipToken {m : OpenMacro} {ms : List OpenMacro} {kind : Kind}
    {wanted : Expectation} (h : State.skipToken m ms kind = .error wanted) :
    wanted = .macroPiece := by
  unfold State.skipToken at h
  split at h
  · split at h <;> simp at h
  · split_ifs at h
    split at h
    · simp at h
    · simpa using h.symm

/-- Every move does what a move may do. -/
theorem proper_move (hs : Closes s) (t : Token) : Proper t (s.move t) := by
  obtain ⟨db, place, skipped⟩ := s
  cases skipped with
  | none => exact proper_movePlace db place t
  | some skipped =>
    cases skipped with
    | nested m ms =>
      have hms : ∀ x ∈ m :: ms, Closable x := hs m ms rfl
      simp only [State.move]
      cases hskip : State.skipToken m ms t.kind with
      | error wanted =>
        rw [eq_macroPiece_of_skipToken hskip]
        exact proper_refuse (by decide)
      | ok left =>
        refine ⟨?_, ?_⟩
        · intro hkind
          rw [hkind, skipToken_stray (hms m List.mem_cons_self) ms (.inl rfl)] at hskip
          simp at hskip
        · rintro n ns hleft
          obtain rfl : left = some (.nested n ns) := hleft
          obtain ⟨n', ns', heq, hns⟩ := skipToken_eq_some hms hskip
          obtain ⟨rfl, rfl⟩ := Skipped.nested.inj heq
          exact hns
    | comment line =>
      simp only [State.move]
      split_ifs with ht
      · exact ⟨ht.2, hs⟩
      · exact proper_movePlace db place t

/-- A file that ends comes to a token with which the reading ends. -/
theorem exists_decision (hs : Closes s) (hend : ∃ t ∈ ts, t.kind = .endOfFile) :
    ∃ before found after last, ts = before ++ found :: after ∧ Reaches s before last ∧
      ((∃ db, last.move found = .finish db) ∨
        ∃ wanted, last.move found = .refuse wanted ∧ wanted ≠ .furtherToken) := by
  induction ts generalizing s with
  | nil => simp at hend
  | cons t ts ih =>
    have hproper := proper_move hs t
    cases hmove : s.move t with
    | finish db => exact ⟨[], t, ts, s, rfl, .done s, .inl ⟨db, hmove⟩⟩
    | refuse wanted =>
      rw [hmove] at hproper
      exact ⟨[], t, ts, s, rfl, .done s, .inr ⟨wanted, hmove, hproper⟩⟩
    | take next =>
      rw [hmove] at hproper
      obtain ⟨hkind, hnext⟩ := hproper
      -- the token that is taken is not the end of file, so the end of file is still to come
      have hlater : ∃ u ∈ ts, u.kind = .endOfFile := by
        obtain ⟨u, hu, hukind⟩ := hend
        rcases List.mem_cons.mp hu with rfl | hu
        · exact absurd hukind hkind
        · exact ⟨u, hu, hukind⟩
      obtain ⟨before, found, after, last, rfl, hreach, hdecision⟩ := ih hnext hlater
      exact ⟨t :: before, found, after, last, rfl, .take hmove hreach, hdecision⟩

/-! ## Ways to the end of a file -/

/-- The state can be read on to the end of a file, with the next token on any given line. -/
def Completable (s : State) : Prop :=
  ∀ line, ∃ t ts out, t.line = line ∧ Reads s (t :: ts) out

/-- A state is completable if a token of some kind leads to one that is. -/
theorem completable_of_take (kind : Kind)
    (h : ∀ t : Token, t.kind = kind → ∃ next, s.move t = .take next ∧ Completable next) :
    Completable s := by
  intro line
  obtain ⟨next, hmove, hnext⟩ := h ⟨kind, line, 0, ""⟩ rfl
  obtain ⟨t, ts, out, -, hreads⟩ := hnext line
  refine ⟨⟨kind, line, 0, ""⟩, t :: ts, out, rfl, reads_cons.mpr ?_⟩
  rw [hmove]
  exact hreads

theorem completable_top (db : Database) : Completable ⟨db, .top, none⟩ := by
  intro line
  exact ⟨⟨.endOfFile, line, 0, ""⟩, [], db, rfl, reads_cons.mpr rfl⟩

theorem completable_header (db : Database) (r : Record) : Completable ⟨db, .header r, none⟩ := by
  intro line
  exact ⟨⟨.endOfFile, line, 0, ""⟩, [], db.push r, rfl, reads_cons.mpr rfl⟩

theorem completable_body (db : Database) (r : Record) (afterMacro : Bool) :
    Completable ⟨db, .body r afterMacro, none⟩ := by
  refine completable_of_take .closeBrace fun t ht => ⟨_, ?_, completable_top (db.push r)⟩
  simp [State.move, State.movePlace, State.moveBody, ht, Kind.macroClose?]

section Slots

variable (h : ∀ value, Completable (slot.fill db value))
include h

theorem completable_ended (value : String) : Completable ⟨db, .ended slot value, none⟩ := by
  refine completable_of_take slot.closer fun t ht => ⟨_, ?_, h value⟩
  simp [State.move, State.movePlace, State.moveEnded, ht]

theorem completable_unquoted (text : String) : Completable ⟨db, .unquoted slot text, none⟩ := by
  refine completable_of_take slot.closer fun t ht => ⟨_, ?_, h text⟩
  rcases closer_cases slot with hslot | hslot <;>
    simp [State.move, State.movePlace, State.moveUnquoted, State.moveEnded, ht, hslot,
      Kind.macroClose?]

theorem completable_value : Completable ⟨db, .value slot, none⟩ := by
  refine completable_of_take .literal fun t ht => ⟨_, ?_, completable_unquoted h t.text⟩
  simp [State.move, State.movePlace, State.moveValue, ht, Kind.macroClose?]

theorem completable_opening : Completable ⟨db, .opening slot, none⟩ := by
  refine completable_of_take .openBracket fun t ht => ⟨_, ?_, completable_value h⟩
  simp [State.move, State.movePlace, ht]

end Slots

/-- After a first argument there is a second one to read, and after the last one a declaration or an
entry is complete. -/
theorem completable_fill (db : Database) (slot : Slot) (value : String) :
    Completable (slot.fill db value) := by
  cases slot with
  | recordName type => exact completable_header db _
  | aliasName parent => exact completable_top _
  | entryValue r entry name => cases entry <;> exact completable_body db _ false
  | ownAlias r => exact completable_body db _ false
  | recordType => exact completable_value fun name => completable_header db _
  | aliasParent => exact completable_value fun name => completable_top _
  | entryName r entry =>
    refine completable_value fun second => ?_
    cases entry <;> exact completable_body db _ false

theorem completable_place (db : Database) (place : Place) : Completable ⟨db, place, none⟩ := by
  cases place with
  | top => exact completable_top db
  | header r => exact completable_header db r
  | body r afterMacro => exact completable_body db r afterMacro
  | opening slot => exact completable_opening (completable_fill db slot)
  | value slot => exact completable_value (completable_fill db slot)
  | unquoted slot text => exact completable_unquoted (completable_fill db slot) text
  | ended slot value => exact completable_ended (completable_fill db slot) value

/-- Open macros are closed one after another. -/
theorem completable_nested (db : Database) (place : Place) (m : OpenMacro) (ms : List OpenMacro) :
    Completable ⟨db, place, some (.nested m ms)⟩ := by
  induction ms generalizing m with
  | nil =>
    refine completable_of_take m.close fun t ht => ⟨_, ?_, completable_place db place⟩
    simp [State.move, State.skipToken, ht]
  | cons n ns ih =>
    refine completable_of_take m.close fun t ht => ⟨_, ?_, ih n⟩
    simp [State.move, State.skipToken, ht]

/-- Every state can be read on to the end of a file. -/
theorem exists_reads (s : State) : ∃ ts out, Reads s ts out := by
  obtain ⟨db, place, skipped⟩ := s
  cases skipped with
  | none =>
    obtain ⟨t, ts, out, -, hreads⟩ := completable_place db place 0
    exact ⟨t :: ts, out, hreads⟩
  | some skipped =>
    cases skipped with
    | nested m ms =>
      obtain ⟨t, ts, out, -, hreads⟩ := completable_nested db place m ms 0
      exact ⟨t :: ts, out, hreads⟩
    | comment line =>
      -- a comment ends where the next line starts
      obtain ⟨t, ts, out, hline, hreads⟩ := completable_place db place (line + 1)
      have hstop : inComment line t = false := by simp [inComment, hline]
      refine ⟨t :: ts, out, reads_comment.mpr ?_⟩
      rwa [List.dropWhile_cons_of_neg (by simp [hstop])]

/-- What has been read can be completed to a file. -/
theorem Reaches.exists_ofTokens (h : Reaches .initial before s) :
    ∃ more db, Database.ofTokens (before ++ more) = .ok db := by
  obtain ⟨more, db, hreads⟩ := exists_reads s
  have hne : more ≠ [] := by
    rintro rfl
    exact hreads
  refine ⟨more, db, ?_⟩
  rw [ofTokens_eq_result, h.result hne]
  exact reads_iff_result.mp hreads

/-! ## The wording of refusals -/

theorem message_unexpected (t : Token) (wanted : Expectation) :
    (SyntaxError.unexpected t wanted).message =
      "Unexpected token '" ++ t.describe ++ "' encountered at " ++ toString t.line ++ ":" ++
        toString t.column ++ ": " ++ wanted.message :=
  rfl

theorem message_ne_noTokens (t : Token) (wanted : Expectation) :
    (SyntaxError.unexpected t wanted).message ≠ "No tokens found." := by
  have hfirst : "Unexpected token '".toList = 'U' :: "nexpected token '".toList := by
    decide +kernel
  have hother : "No tokens found.".toList.head? = some 'N' := by decide +kernel
  intro h
  rw [← h, message_unexpected] at hother
  simp only [String.toList_append, List.append_assoc, hfirst, List.cons_append, List.head?_cons,
    Option.some.injEq] at hother
  exact absurd hother (by decide)

/-- Only the wording for a missing token ends as that one does. -/
theorem message_ending {wanted : Expectation} (h : wanted ≠ .furtherToken) :
    "s.".toList.length ≤ wanted.message.toList.length ∧
      ¬"s.".toList <:+ wanted.message.toList := by
  cases wanted with
  | furtherToken => exact absurd rfl h
  | kind k => cases k <;> decide +kernel
  | _ => decide +kernel

theorem not_suffix_unexpected (t : Token) {wanted : Expectation} (h : wanted ≠ .furtherToken) :
    ¬"Next token was requested, but none exists.".toList <:+
      (SyntaxError.unexpected t wanted).message.toList := by
  intro hsuffix
  have hshort : "s.".toList <:+ "Next token was requested, but none exists.".toList := by
    decide +kernel
  have hwanted : wanted.message.toList <:+ (SyntaxError.unexpected t wanted).message.toList := by
    rw [message_unexpected, String.toList_append]
    exact List.suffix_append _ _
  obtain ⟨hlength, hnot⟩ := message_ending h
  exact hnot (List.suffix_of_suffix_length_le (hshort.trans hsuffix) hwanted hlength)

end EpicsDb.Grammar

namespace EpicsDb

open Grammar

/-- A text that is no database is refused at one of its tokens.  The error names this token and
nothing behind it matters; what stands before it is the start of some database. -/
theorem parse_refuses_first_bad_token (text : String) (e : SyntaxError)
    (h : Database.parse text = .error e) :
    (∃ i found wanted, (tokenize text)[i]? = some found ∧
      e.line = found.line ∧ e.column = found.column ∧
      e.message = "Unexpected token '" ++ found.describe ++ "' encountered at " ++
        toString found.line ++ ":" ++ toString found.column ++ ": " ++ Expectation.message wanted ∧
      (∀ tokens, tokens.take (i + 1) = (tokenize text).take (i + 1) →
        Database.ofTokens tokens = .error e) ∧
      ∃ more db, Database.ofTokens ((tokenize text).take i ++ more) = .ok db) ∧
    e.message ≠ "No tokens found." ∧
    ¬"Next token was requested, but none exists.".toList <:+ e.message.toList := by
  obtain ⟨front, last, htokens, hlast, -⟩ := endsOnce_tokenize text
  have hend : ∃ t ∈ tokenize text, t.kind = .endOfFile := ⟨last, by simp [htokens], hlast⟩
  have hinitial : Closes .initial := closes_of_none rfl
  obtain ⟨before, found, after, s, hsplit, hreach, hdecision⟩ := exists_decision hinitial hend
  rw [Database.parse, ofTokens_eq_result, hsplit, hreach.result (by simp)] at h
  rcases hdecision with ⟨db, hfinish⟩ | ⟨wanted, hrefuse, hwanted⟩
  · rw [result_of_finish hfinish] at h
    simp at h
  · obtain rfl : SyntaxError.unexpected found wanted = e := by
      rw [result_of_refuse hrefuse] at h
      simpa using h
    refine ⟨⟨before.length, found, wanted, ?_, rfl, rfl, message_unexpected found wanted, ?_, ?_⟩,
      message_ne_noTokens found wanted, not_suffix_unexpected found hwanted⟩
    · simp [hsplit]
    · intro tokens htake
      have hfront : (before ++ found :: after).take (before.length + 1) = before ++ [found] := by
        simp [List.take_append, List.take_of_length_le]
      have hmore : tokens = before ++ found :: tokens.drop (before.length + 1) := by
        nth_rewrite 1 [← List.take_append_drop (before.length + 1) tokens]
        rw [htake, hsplit, hfront, List.append_assoc, List.singleton_append]
      rw [hmore, ofTokens_eq_result, hreach.result (by simp), result_of_refuse hrefuse]
    · rw [hsplit, List.take_left]
      exact hreach.exists_ofTokens

/-- The theorem at a field without a comma, behind a comment and a macro. -/
theorem parse_refuses_missing_comma :
    let text := "record(ai, A) # note\n\x7b $(M=#) field(EGU \"K\") \x7d"
    let e := SyntaxError.unexpected ⟨.quoted, 2, 19, "\"K\""⟩ (.kind .comma)
    Database.parse text = .error e ∧
      ∃ i found, (tokenize text)[i]? = some found ∧ e.line = found.line ∧
        e.column = found.column ∧
        (∀ tokens, tokens.take (i + 1) = (tokenize text).take (i + 1) →
          Database.ofTokens tokens = .error e) ∧
        ∃ more db, Database.ofTokens ((tokenize text).take i ++ more) = .ok db := by
  intro text e
  have herror : Database.parse text = .error e := by decide +kernel
  obtain ⟨⟨i, found, wanted, hfound, hline, hcolumn, -, hsame, hmore⟩, -⟩ :=
    parse_refuses_first_bad_token text e herror
  exact ⟨herror, i, found, hfound, hline, hcolumn, hsame, hmore⟩

end EpicsDb
