import EpicsDb.Proofs.Grammar

/-!
# Skipping macros and comments

`Reads s ts db` says that reading the tokens `ts` from the state `s` gives `db`.  `reads_cons`
unfolds it by one move.  Everything else is stated with `Reads`, in one form: reading from a place
is a production of the grammar followed by reading from the next place.

This file does it for what contributes nothing to the database.

* `MacroRest` is what is left of an open macro, and `StackRest` what is left of a macro and of the
  macros around it.  `stackRest_cons` says that `State.skipToken` follows them token by token, and
  `reads_nested` is the induction over the tokens.
* `reads_comment` is the same for a comment, which goes to the end of its line.
* `TakesMacro` and `TakesFillers` describe the places where a macro or a comment may stand;
  `TakesMacro.reads_iff`, `TakesFillers.reads` and `TakesFillers.exists_of_reads` turn the two
  results above into statements about productions.
-/

namespace EpicsDb.Grammar

variable {db out : Database} {place : Place} {slot : Slot} {r : Record} {m : OpenMacro}
  {ms : List OpenMacro} {t : Token} {ts us rest : List Token}

/-! ## Reading one token -/

/-- Reading the tokens from the state gives the database. -/
def Reads (s : State) : List Token → Database → Prop
  | [], _ => False
  | t :: ts, out => (Cursor.run s t (ts.map .ok)).1 = .ok out

/-- One step of reading is one move of the state. -/
theorem reads_cons {s : State} :
    Reads s (t :: ts) out ↔
      match s.move t with
      | .finish db => db = out
      | .refuse _ => False
      | .take next => Reads next ts out := by
  rw [Reads, Cursor.run]
  cases hmove : s.move t with
  | finish db => simp
  | refuse wanted => simp
  | take next => cases ts <;> simp [Reads]

/-! ## What is left of open macros -/

/-- What is left to read of an open macro. -/
def MacroRest (m : OpenMacro) (ts rest : List Token) : Prop :=
  ∃ closer, closer.kind = m.close ∧
    (Pieces m.inDefault ts (closer :: rest) ∨
      m.inDefault = false ∧ ∃ sign us, Pieces false ts (sign :: us) ∧ sign.kind = .equals ∧
        Pieces true us (closer :: rest))

/-- What is left to read of open macros, from the inside out. -/
def StackRest : List OpenMacro → List Token → List Token → Prop
  | [], ts, rest => rest = ts
  | m :: ms, ts, rest => ∃ us, MacroRest m ts us ∧ StackRest ms us rest

/-- The token that closes the macro is a bracket or a brace, as for every macro that is read. -/
def Closable (m : OpenMacro) : Prop :=
  m.close = .closeBracket ∨ m.close = .closeBrace

theorem closable_of_macroClose? {kind close : Kind} {inDefault : Bool}
    (h : kind.macroClose? = some close) : Closable ⟨close, inDefault⟩ := by
  cases macroClose?_eq_some_iff.mp h with
  | brackets => exact .inl rfl
  | braces => exact .inr rfl

/-- A macro is the token that opens it and what is left then. -/
theorem macro_cons :
    Macro (t :: ts) rest ↔
      ∃ close, t.kind.macroClose? = some close ∧ MacroRest ⟨close, false⟩ ts rest := by
  constructor
  · intro h
    cases h with
    | bare hclose name => exact ⟨_, macroClose?_eq_some_iff.mpr hclose, _, rfl, .inl name⟩
    | withDefault hclose name hsign default =>
      exact ⟨_, macroClose?_eq_some_iff.mpr hclose, _, rfl,
        .inr ⟨rfl, _, _, name, hsign, default⟩⟩
  · rintro ⟨close, hclose, closer, rfl, name | ⟨-, sign, us, name, hsign, default⟩⟩
    · exact .bare (macroClose?_eq_some_iff.mp hclose) name
    · exact .withDefault (macroClose?_eq_some_iff.mp hclose) name hsign default

/-- Pieces that start with a token: they are over, or the token is one of them. -/
theorem pieces_cons {inDefault : Bool} :
    Pieces inDefault (t :: ts) rest ↔
      rest = t :: ts ∨ (t.kind = .literal ∧ Pieces inDefault ts rest) ∨
      (t.kind = .hash ∧ inDefault = true ∧ Pieces inDefault ts rest) ∨
      ∃ close us, t.kind.macroClose? = some close ∧ MacroRest ⟨close, false⟩ ts us ∧
        Pieces inDefault us rest := by
  constructor
  · intro h
    cases h with
    | done => exact .inl rfl
    | literal ht later => exact .inr (.inl ⟨ht, later⟩)
    | hash ht later => exact .inr (.inr (.inl ⟨ht, rfl, later⟩))
    | nested inner later =>
      obtain ⟨close, hclose, hrest⟩ := macro_cons.mp inner
      exact .inr (.inr (.inr ⟨close, _, hclose, hrest, later⟩))
  · rintro (rfl | ⟨ht, later⟩ | ⟨ht, rfl, later⟩ | ⟨close, us, hclose, hrest, later⟩)
    · exact .done
    · exact .literal ht later
    · exact .hash ht later
    · exact .nested (macro_cons.mpr ⟨close, hclose, hrest⟩) later

/-- The five things that a token can be in an open macro. -/
theorem macroRest_cons :
    MacroRest m (t :: ts) rest ↔
      (t.kind = m.close ∧ rest = ts) ∨ (t.kind = .literal ∧ MacroRest m ts rest) ∨
      (t.kind = .equals ∧ m.inDefault = false ∧ MacroRest { m with inDefault := true } ts rest) ∨
      (t.kind = .hash ∧ m.inDefault = true ∧ MacroRest m ts rest) ∨
      ∃ close us, t.kind.macroClose? = some close ∧ MacroRest ⟨close, false⟩ ts us ∧
        MacroRest m us rest := by
  constructor
  · rintro ⟨closer, hcloser, name | ⟨hname, sign, us, name, hsign, default⟩⟩
    · rcases pieces_cons.mp name with h | ⟨ht, later⟩ | ⟨ht, hd, later⟩ | ⟨close, us, hc, hr, later⟩
      · injection h with ht hts
        exact .inl ⟨ht ▸ hcloser, hts⟩
      · exact .inr (.inl ⟨ht, closer, hcloser, .inl later⟩)
      · exact .inr (.inr (.inr (.inl ⟨ht, hd, closer, hcloser, .inl later⟩)))
      · exact .inr (.inr (.inr (.inr ⟨close, us, hc, hr, closer, hcloser, .inl later⟩)))
    · rcases pieces_cons.mp name with h | ⟨ht, later⟩ | ⟨ht, hd, later⟩ | ⟨close, vs, hc, hr, later⟩
      · injection h with ht hts
        subst ht hts
        exact .inr (.inr (.inl ⟨hsign, hname, closer, hcloser, .inl default⟩))
      · exact .inr (.inl ⟨ht, closer, hcloser, .inr ⟨hname, sign, us, later, hsign, default⟩⟩)
      · exact absurd hd (by simp)
      · exact .inr (.inr (.inr (.inr
          ⟨close, vs, hc, hr, closer, hcloser, .inr ⟨hname, sign, us, later, hsign, default⟩⟩)))
  · rintro (⟨ht, rfl⟩ | ⟨ht, closer, hcloser, later⟩ | ⟨ht, hd, closer, hcloser, later⟩ |
      ⟨ht, hd, closer, hcloser, later⟩ | ⟨close, us, hc, hr, closer, hcloser, later⟩)
    · exact ⟨t, ht, .inl .done⟩
    · refine ⟨closer, hcloser, later.imp (.literal ht) ?_⟩
      rintro ⟨hname, sign, us, name, hsign, default⟩
      exact ⟨hname, sign, us, .literal ht name, hsign, default⟩
    · refine ⟨closer, hcloser, .inr ⟨hd, t, ts, .done, ht, ?_⟩⟩
      simpa using later
    · refine ⟨closer, hcloser, .inl ?_⟩
      simp only [hd, Bool.true_eq_false, false_and, or_false] at later ⊢
      exact .hash ht later
    · have inner : Macro (t :: ts) us := macro_cons.mpr ⟨close, hc, hr⟩
      refine ⟨closer, hcloser, later.imp (.nested inner) ?_⟩
      rintro ⟨hname, sign, vs, name, hsign, default⟩
      exact ⟨hname, sign, vs, .nested inner name, hsign, default⟩

/-- `State.skipToken` says of a token what the open macros demand of it. -/
theorem stackRest_cons (hm : Closable m) :
    StackRest (m :: ms) (t :: ts) rest ↔
      match State.skipToken m ms t.kind with
      | .ok none => rest = ts
      | .ok (some (.nested n ns)) => StackRest (n :: ns) ts rest
      | _ => False := by
  -- `skipToken` tries the closing token first, so no other alternative may apply to it.
  have hplain : ∀ kind, kind = m.close → kind ≠ .literal ∧ kind ≠ .equals ∧ kind ≠ .hash ∧
      kind.macroClose? = none := by
    rintro kind rfl
    rcases hm with h | h <;> simp [h, Kind.macroClose?]
  simp only [StackRest, macroRest_cons]
  unfold State.skipToken
  by_cases hclose : t.kind = m.close
  · obtain ⟨hliteral, hequals, hhash, hopen⟩ := hplain _ hclose
    cases ms <;> simp_all [StackRest]
  by_cases hliteral : t.kind = .literal
  · simp_all [Kind.macroClose?]
  by_cases hequals : t.kind = .equals
  · cases hd : m.inDefault <;> simp_all [Kind.macroClose?]
  by_cases hhash : t.kind = .hash
  · cases hd : m.inDefault <;> simp_all [Kind.macroClose?]
  cases hopen : t.kind.macroClose? with
  | none => simp_all
  | some close =>
    simp only [hclose, hliteral, hequals, hhash, false_and, false_or, if_false, Option.some.injEq,
      StackRest]
    constructor
    · rintro ⟨us, ⟨close', vs, rfl, hinner, houter⟩, hrest⟩
      exact ⟨vs, hinner, us, houter, hrest⟩
    · rintro ⟨vs, hinner, us, houter, hrest⟩
      exact ⟨us, ⟨close, vs, rfl, hinner, houter⟩, hrest⟩

/-- An open macro cannot end without a token. -/
theorem not_stackRest_nil : ¬StackRest (m :: ms) [] rest := by
  rintro ⟨us, ⟨closer, -, name | ⟨-, sign, vs, name, -⟩⟩, -⟩
  · simpa using name.suffix
  · simpa using name.suffix

/-- Inside macros a token leaves macros to skip, if it leaves anything. -/
theorem skipToken_eq_some {kind : Kind} {skipped : Skipped} (hms : ∀ x ∈ m :: ms, Closable x)
    (h : State.skipToken m ms kind = .ok (some skipped)) :
    ∃ n ns, skipped = .nested n ns ∧ ∀ x ∈ n :: ns, Closable x := by
  unfold State.skipToken at h
  split at h
  · cases ms with
    | nil => simp at h
    | cons n ns =>
      simp only [Except.ok.injEq, Option.some.injEq] at h
      exact ⟨n, ns, h.symm, fun x hx => hms x (List.mem_cons_of_mem m hx)⟩
  split at h
  · simp only [Except.ok.injEq, Option.some.injEq] at h
    exact ⟨m, ms, h.symm, hms⟩
  split at h
  · simp only [Except.ok.injEq, Option.some.injEq] at h
    refine ⟨_, ms, h.symm, ?_⟩
    simpa [Closable] using hms
  split at h
  · simp only [Except.ok.injEq, Option.some.injEq] at h
    exact ⟨m, ms, h.symm, hms⟩
  split at h
  · next close hclose =>
    simp only [Except.ok.injEq, Option.some.injEq] at h
    refine ⟨_, m :: ms, h.symm, ?_⟩
    rintro x (_ | ⟨_, hx⟩)
    · exact closable_of_macroClose? hclose
    · exact hms x hx
  · simp at h

/-! ## Reading what is skipped -/

/-- Reading from inside macros skips what is left of them. -/
theorem reads_nested (hms : ∀ x ∈ m :: ms, Closable x) :
    Reads ⟨db, place, some (.nested m ms)⟩ ts out ↔
      ∃ us, StackRest (m :: ms) ts us ∧ Reads ⟨db, place, none⟩ us out := by
  induction ts generalizing m ms with
  | nil => simp [Reads, not_stackRest_nil]
  | cons t ts ih =>
    rw [reads_cons]
    simp only [State.move, stackRest_cons (hms m List.mem_cons_self)]
    cases hskip : State.skipToken m ms t.kind with
    | error wanted => simp
    | ok skipped =>
      cases skipped with
      | none => simp
      | some skipped =>
        obtain ⟨n, ns, rfl, hns⟩ := skipToken_eq_some hms hskip
        simpa using ih hns

/-- Reading from inside a comment skips the rest of its line. -/
theorem reads_comment {line : Nat} :
    Reads ⟨db, place, some (.comment line)⟩ ts out ↔
      Reads ⟨db, place, none⟩ (ts.dropWhile (inComment line)) out := by
  induction ts with
  | nil => simp [Reads]
  | cons t ts ih =>
    rw [reads_cons]
    by_cases ht : t.line = line ∧ t.kind ≠ .endOfFile
    · simp [State.move, ht, inComment, ih]
    · have hstop : inComment line t = false := by simpa [inComment] using ht
      rw [List.dropWhile_cons_of_neg (by simp [hstop]), reads_cons]
      simp only [State.move, if_neg ht]

/-! ## Places for macros -/

/-- A macro may stand at the first place, and the reading goes on at the second one. -/
def TakesMacro (db : Database) (place after : Place) : Prop :=
  ∀ t close, t.kind.macroClose? = some close →
    State.movePlace db place t = State.enterMacro db after close

theorem takesMacro_value : TakesMacro db (.value slot) (.unquoted slot "") := by
  intro t close hclose
  simp [State.movePlace, State.moveValue, hclose]

theorem takesMacro_unquoted {text : String} :
    TakesMacro db (.unquoted slot text) (.unquoted slot text) := by
  intro t close hclose
  simp [State.movePlace, State.moveUnquoted, hclose]

/-- Reading from a place for macros, if the next token opens one. -/
theorem TakesMacro.reads_iff {after : Place} {close : Kind} (h : TakesMacro db place after)
    (hclose : t.kind.macroClose? = some close) :
    Reads ⟨db, place, none⟩ (t :: ts) out ↔
      ∃ us, Macro (t :: ts) us ∧ Reads ⟨db, after, none⟩ us out := by
  rw [reads_cons]
  simp only [State.move, h t close hclose, State.enterMacro]
  rw [reads_nested (by simpa using closable_of_macroClose? hclose)]
  simp [StackRest, macro_cons, hclose]

theorem TakesMacro.reads {after : Place} (h : TakesMacro db place after) (hinner : Macro ts us)
    (hus : Reads ⟨db, after, none⟩ us out) : Reads ⟨db, place, none⟩ ts out := by
  obtain ⟨t, vs, rfl, -⟩ := hinner.leaves
  obtain ⟨close, hclose, -⟩ := macro_cons.mp hinner
  exact (h.reads_iff hclose).mpr ⟨us, hinner, hus⟩

/-! ## Places for fillers -/

/-- Fillers may stand at the place, and `after` says where the reading goes on. -/
structure TakesFillers (db : Database) (place : Place) (after : Filler → Place) : Prop where
  ofMacro : TakesMacro db place (after .ofMacro)
  comment : ∀ t : Token, t.kind = .hash →
    State.movePlace db place t = State.enterComment db (after .comment) t

theorem takesFillers_top : TakesFillers db .top fun _ => .top where
  ofMacro t close hclose := by simp [State.movePlace, State.moveTop, hclose]
  comment t ht := by simp [State.movePlace, State.moveTop, ht, Kind.macroClose?]

theorem takesFillers_header : TakesFillers db (.header r) fun _ => .header r where
  ofMacro t close hclose := by simp [State.movePlace, State.moveHeader, hclose]
  comment t ht := by simp [State.movePlace, State.moveHeader, ht, Kind.macroClose?]

/-- In a body it matters afterwards whether the filler was a macro. -/
theorem takesFillers_body {afterMacro : Bool} :
    TakesFillers db (.body r afterMacro) fun f => .body r (f = .ofMacro) where
  ofMacro t close hclose := by simp [State.movePlace, State.moveBody, hclose]
  comment t ht := by simp [State.movePlace, State.moveBody, ht, Kind.macroClose?]

theorem TakesFillers.reads {after : Filler → Place} {f : Filler}
    (h : TakesFillers db place after) (hf : FillerAt ts f us)
    (hus : Reads ⟨db, after f, none⟩ us out) : Reads ⟨db, place, none⟩ ts out := by
  cases hf with
  | ofMacro inner => exact h.ofMacro.reads inner hus
  | comment hhash =>
    rw [reads_cons]
    simp only [State.move, h.comment _ hhash, State.enterComment]
    exact reads_comment.mpr hus

/-- Where fillers may stand, a token that can start a filler does start one. -/
theorem TakesFillers.exists_of_reads {after : Filler → Place} (h : TakesFillers db place after)
    (ht : t.kind.opensMacro = true ∨ t.kind = .hash)
    (hreads : Reads ⟨db, place, none⟩ (t :: ts) out) :
    ∃ f us, FillerAt (t :: ts) f us ∧ Reads ⟨db, after f, none⟩ us out := by
  rcases ht with ht | ht
  · obtain ⟨close, hclose⟩ := Option.isSome_iff_exists.mp ht
    obtain ⟨us, hinner, hus⟩ := (h.ofMacro.reads_iff hclose).mp hreads
    exact ⟨.ofMacro, us, .ofMacro hinner, hus⟩
  · rw [reads_cons] at hreads
    simp only [State.move, h.comment t ht, State.enterComment] at hreads
    exact ⟨.comment, _, .comment ht, reads_comment.mp hreads⟩

end EpicsDb.Grammar
