import EpicsDb.Proofs.Concatenation
import Mathlib.Logic.Function.Iterate

/-!
# Reading again and again from one source

A cursor can be read from however the last reading ended: at an end of file, at a token that cannot
stand there, at an item that is no token, or where the source has run out.  The next reading starts
at the current token, which may be in the middle of a record.

* `Pulls` takes items from the front of a source one by one.  `exists_pulls_run` is the induction
  along the source: a reading only pulls, its last item may be a failure, and it accepts at an end of
  file.
* `read_of_endOfFile` says that an end of file is never passed.
* `read_eq_self_or` leaves two ways for a reading: the cursor stays as it is, or the source gets
  shorter.  `read_after_eq_self` counts how long the second one can go on.
-/

namespace EpicsDb.Cursor

variable {c d : Cursor} {items : List Item} {n : Nat}

/-! ## What a reading pulls -/

/-- Pulling the items leads from the first cursor to the second one.  A token that is pulled is the
current one from then on; a failure leaves the current token where it is. -/
inductive Pulls : Cursor → List Item → Cursor → Prop where
  | done (c : Cursor) : Pulls c [] c
  | token {t next : Token} {pending items : List Item} {d : Cursor}
      (later : Pulls ⟨next, pending⟩ items d) : Pulls ⟨t, .ok next :: pending⟩ (.ok next :: items) d
  | failure {t : Token} {error : SyntaxError} {pending items : List Item} {d : Cursor}
      (later : Pulls ⟨t, pending⟩ items d) :
      Pulls ⟨t, .error error :: pending⟩ (.error error :: items) d

theorem Pulls.pending_eq (h : Pulls c items d) : c.pending = items ++ d.pending := by
  induction h with
  | done => rfl
  | token later ih => exact congrArg _ ih
  | failure later ih => exact congrArg _ ih

/-- The cursor is left at the end of a file if a database has been read. -/
def StopsAtEnd (outcome : Except SyntaxError Database × Cursor) : Prop :=
  ∀ db, outcome.1 = .ok db → outcome.2.current.kind = .endOfFile

/-- The items are tokens, or tokens and a failure behind them that is the result. -/
def EndsAtFailure (items : List Item) (result : Except SyntaxError Database) : Prop :=
  ∀ error, .error error ∈ items →
    result = .error error ∧ ∃ tokens : List Token, items = tokens.map .ok ++ [.error error]

/-- A reading pulls items up to its end, which is at the first failure if there is one. -/
theorem exists_pulls_run (s : State) (t : Token) (pending : List Item) :
    ∃ items, Pulls ⟨t, pending⟩ items (run s t pending).2 ∧
      EndsAtFailure items (run s t pending).1 ∧ StopsAtEnd (run s t pending) := by
  fun_induction run s t pending with
  | case1 s t pending db hmove =>
    refine ⟨[], .done _, by simp [EndsAtFailure], ?_⟩
    intro _ _
    exact Grammar.kind_of_finish (Grammar.movePlace_of_finish hmove).1
  | case2 s t pending wanted hmove =>
    exact ⟨[], .done _, by simp [EndsAtFailure], by simp [StopsAtEnd]⟩
  | case3 s t next hmove =>
    exact ⟨[], .done _, by simp [EndsAtFailure], by simp [StopsAtEnd]⟩
  | case4 s t next hmove failed items =>
    refine ⟨[.error failed], .failure (.done _), ?_, by simp [StopsAtEnd]⟩
    intro error hmem
    obtain rfl : error = failed := by simpa using hmem
    exact ⟨rfl, [], rfl⟩
  | case5 s t next hmove u items ih =>
    obtain ⟨pulled, hpulls, herror, hstop⟩ := ih
    refine ⟨.ok u :: pulled, .token hpulls, ?_, hstop⟩
    intro error hmem
    obtain ⟨hresult, tokens, rfl⟩ := herror error (by simpa using hmem)
    exact ⟨hresult, u :: tokens, rfl⟩

theorem exists_pulls_read (c : Cursor) :
    ∃ items, Pulls c items c.read.2 ∧ EndsAtFailure items c.read.1 ∧ StopsAtEnd c.read :=
  exists_pulls_run .initial c.current c.pending

/-- An end of file is never passed. -/
theorem read_of_endOfFile (h : c.current.kind = .endOfFile) : c.read = (.ok .empty, c) := by
  have hmove : State.initial.move c.current = .finish .empty := by
    simp [State.initial, State.move, State.movePlace, State.moveTop, h, Kind.macroClose?]
  rw [read, run, hmove]

/-- A reading that pulls nothing leaves the cursor as it is. -/
theorem read_eq_self (h : c.read.2.pending = c.pending) : c.read.2 = c := by
  obtain ⟨items, hpulls, -⟩ := exists_pulls_read c
  have hpending := hpulls.pending_eq
  rw [h, List.self_eq_append_left] at hpending
  subst hpending
  generalize c.read.2 = d at hpulls
  cases hpulls
  rfl

theorem read_eq_self_or (c : Cursor) :
    c.read.2 = c ∨ c.read.2.pending.length < c.pending.length := by
  obtain ⟨items, hpulls, -⟩ := exists_pulls_read c
  have hpending := hpulls.pending_eq
  cases items with
  | nil =>
    left
    apply read_eq_self
    rw [hpending, List.nil_append]
  | cons item items =>
    right
    rw [hpending, List.length_append, List.length_cons]
    omega

/-! ## One reading after another -/

/-- The cursor that is left after `n` readings. -/
def after (c : Cursor) (n : Nat) : Cursor :=
  (fun d : Cursor => d.read.2)^[n] c

/-- What a reading gives after `n` readings. -/
def reading (c : Cursor) (n : Nat) : Except SyntaxError Database :=
  (c.after n).read.1

theorem after_succ (c : Cursor) (n : Nat) : c.after (n + 1) = c.read.2.after n :=
  rfl

theorem read_after (c : Cursor) (n : Nat) : (c.after n).read.2 = c.after (n + 1) :=
  (Function.iterate_succ_apply' (fun d : Cursor => d.read.2) n c).symm

theorem after_add (c : Cursor) (m n : Nat) : c.after (m + n) = (c.after m).after n := by
  rw [Nat.add_comm]
  exact Function.iterate_add_apply _ n m c

theorem after_of_read_eq_self (h : c.read.2 = c) (n : Nat) : c.after n = c :=
  Function.iterate_fixed h n

theorem readMany_eq_map (c : Cursor) (n : Nat) : c.readMany n = (List.range n).map c.reading := by
  induction n generalizing c with
  | zero => rfl
  | succ n ih =>
    show c.read.1 :: c.read.2.readMany n = _
    rw [ih, List.range_succ_eq_map, List.map_cons, List.map_map]
    rfl

/-- A cursor stays as it is after as many readings as there were items. -/
theorem read_after_eq_self (h : c.pending.length ≤ n) : (c.after n).read.2 = c.after n := by
  induction n generalizing c with
  | zero =>
    rcases read_eq_self_or c with hself | hlt
    · exact hself
    · omega
  | succ n ih =>
    rcases read_eq_self_or c with hself | hlt
    · rw [after_of_read_eq_self hself, hself]
    · rw [after_succ]
      apply ih
      omega

theorem after_eq_of_le {k l : Nat} (h : (c.after k).read.2 = c.after k) (hkl : k ≤ l) :
    c.after l = c.after k := by
  obtain ⟨n, rfl⟩ := Nat.exists_eq_add_of_le hkl
  rw [after_add, after_of_read_eq_self h]

theorem reading_of_stopsAtEnd {k l : Nat} (h : (c.after (k + 1)).current.kind = .endOfFile)
    (hkl : k < l) : c.reading l = .ok .empty := by
  have hread := read_of_endOfFile h
  have hstays : (c.after (k + 1)).read.2 = c.after (k + 1) := congrArg Prod.snd hread
  rw [reading, after_eq_of_le hstays hkl, hread]

theorem eq_cons_of_ofItems (h : ofItems items = .ok c) : items = .ok c.current :: c.pending := by
  cases items with
  | nil => cases h
  | cons item items =>
    cases item with
    | error error => cases h
    | ok t =>
      cases h
      rfl

/-- What the first readings have pulled, one after the other, stands before what is left. -/
theorem pending_eq_flatMap {pulled : Nat → List Item}
    (h : ∀ k, Pulls (c.after k) (pulled k) (c.after (k + 1))) (n : Nat) :
    c.pending = (List.range n).flatMap pulled ++ (c.after n).pending := by
  induction n with
  | zero => rfl
  | succ n ih =>
    rw [ih, (h n).pending_eq, List.range_succ, List.flatMap_append, List.flatMap_singleton,
      List.append_assoc]

/-- What happens to a source when it is read again and again.  The readings pull its items in order,
each item once, and a failure among them ends a reading and is its result.  A reading accepts only at
an end of file, and all readings after it give the empty database.  A reading that pulls nothing is
repeated for ever, and as many readings as there are items left lead to such a one. -/
theorem readings_settle (items : List Item) (c : Cursor) (h : ofItems items = .ok c) :
    (∀ n, c.readMany n = (List.range n).map c.reading) ∧
    (∃ pulled : Nat → List Item,
      (∀ k, Pulls (c.after k) (pulled k) (c.after (k + 1))) ∧
      (∀ k, EndsAtFailure (pulled k) (c.reading k)) ∧
      ∀ n, items = .ok c.current :: ((List.range n).flatMap pulled ++ (c.after n).pending)) ∧
    (∀ k db, c.reading k = .ok db →
      (c.after (k + 1)).current.kind = .endOfFile ∧ ∀ l, k < l → c.reading l = .ok .empty) ∧
    (∀ k, (c.after (k + 1)).pending = (c.after k).pending →
      ∀ l, k ≤ l → c.after l = c.after k ∧ c.reading l = c.reading k) ∧
    ∀ k l, k + (c.after k).pending.length ≤ l →
      c.reading l = c.reading (k + (c.after k).pending.length) := by
  have hitems : items = .ok c.current :: c.pending := eq_cons_of_ofItems h
  refine ⟨readMany_eq_map c, ?_, ?_, ?_, ?_⟩
  · choose pulled hpulls herror _ using fun k => exists_pulls_read (c.after k)
    simp only [read_after] at hpulls
    refine ⟨pulled, hpulls, herror, ?_⟩
    intro n
    rw [← pending_eq_flatMap hpulls n]
    exact hitems
  · intro k db hdb
    obtain ⟨-, -, -, hstop⟩ := exists_pulls_read (c.after k)
    have hend : (c.after (k + 1)).current.kind = .endOfFile := by
      rw [← read_after]
      exact hstop db hdb
    exact ⟨hend, fun l => reading_of_stopsAtEnd hend⟩
  · intro k hpending l hkl
    rw [← read_after] at hpending
    have hsame : c.after l = c.after k := after_eq_of_le (read_eq_self hpending) hkl
    exact ⟨hsame, by rw [reading, hsame, reading]⟩
  · intro k l hkl
    have hstays : (c.after (k + (c.after k).pending.length)).read.2 =
        c.after (k + (c.after k).pending.length) := by
      rw [after_add]
      exact read_after_eq_self (Nat.le_refl _)
    rw [reading, after_eq_of_le hstays hkl, reading]

/-- The theorem at a source that fails after its first token.  The second reading starts at that
token again and reads a record, and all further ones are at the end of the file. -/
theorem readings_after_failure :
    let lost : SyntaxError := .reported "lost" 1 6
    let items : List Item := [.ok (.ofKind .recordWord), .error lost, .ok (.ofKind .openBracket),
      .ok ⟨.literal, 1, 7, "ai"⟩, .ok (.ofKind .comma), .ok ⟨.literal, 1, 11, "A"⟩,
      .ok (.ofKind .closeBracket), .ok (.ofKind .endOfFile)]
    let c : Cursor := ⟨.ofKind .recordWord, items.tail⟩
    ofItems items = .ok c ∧ c.reading 0 = .error lost ∧
      c.reading 1 = .ok ⟨"", [.bare "ai" "A"]⟩ ∧ (c.after 2).current.kind = .endOfFile ∧
      (∀ l, 1 < l → c.reading l = .ok .empty) ∧ ∀ l, 7 ≤ l → c.reading l = c.reading 7 := by
  intro lost items c
  have hitems : ofItems items = .ok c := rfl
  have hread : c.reading 1 = .ok ⟨"", [.bare "ai" "A"]⟩ := rfl
  obtain ⟨-, -, haccepts, -, hsettles⟩ := readings_settle items c hitems
  obtain ⟨hend, hempty⟩ := haccepts 1 _ hread
  exact ⟨hitems, rfl, hread, hend, hempty, hsettles 0⟩

end EpicsDb.Cursor
