import EpicsDb.Proofs.Grammar.Skipping
import EpicsDb.Proofs.Lexing

/-!
# Files are read as the grammar says

One statement for each production: reading from its place is the production followed by reading from
the next place.  Each is an equivalence, so soundness and completeness go together, and each cites
only the ones before it.

* `loop_iff` is the induction behind every loop: a place where one production may be read again and
  again reads `Many` of it.
* `reads_value` and `reads_pair` are the arguments of a declaration, `reads_body` and `reads_record`
  the records, `reads_top` the files.
* `addsAll_iff` says that `Database.push` and `Database.attach` do to the records what the grammar
  says of declarations.
* `ofTokens_eq_ok_iff_derives` puts them together for complete lists of tokens.
-/

namespace EpicsDb.Grammar

variable {db out : Database} {slot : Slot} {r : Record} {t : Token} {ts us : List Token}

/-! ## Loops -/

/-- A loop over a production reads the production any number of times and then ends. -/
theorem loop_iff {σ α : Type} {p : Production α} {P E : σ → List Token → Prop} (next : σ → α → σ)
    (hp : ∀ {ts a us}, p ts a us → Leaves ts us)
    (hstep : ∀ s ts, P s ts ↔ E s ts ∨ ∃ a us, p ts a us ∧ P (next s a) us)
    (s : σ) (ts : List Token) :
    P s ts ↔ ∃ as us, Many p ts as us ∧ E (as.foldl next s) us := by
  constructor
  · intro h
    induction hn : ts.length using Nat.strongRecOn generalizing s ts with
    | ind n ih =>
      rcases (hstep s ts).mp h with hend | ⟨a, us, ha, hlater⟩
      · exact ⟨[], ts, .done, hend⟩
      · obtain ⟨as, vs, hmany, hend⟩ := ih us.length (hn ▸ (hp ha).length_lt) _ us hlater rfl
        exact ⟨a :: as, vs, .more ha hmany, hend⟩
  · rintro ⟨as, us, hmany, hend⟩
    induction hmany generalizing s with
    | done => exact (hstep s _).mpr (.inl hend)
    | more first later ih => exact (hstep s _).mpr (.inr ⟨_, _, first, ih _ hend⟩)

/-! ## Values -/

/-- After a value comes the token that closes its slot. -/
theorem reads_ended {value : String} :
    Reads ⟨db, .ended slot value, none⟩ (t :: ts) out ↔
      t.kind = slot.closer ∧ Reads (slot.fill db value) ts out := by
  rw [reads_cons]
  by_cases ht : t.kind = slot.closer <;> simp [State.move, State.movePlace, State.moveEnded, ht]

theorem reads_unquoted_of_literal {text : String} (ht : t.kind = .literal) :
    Reads ⟨db, .unquoted slot text, none⟩ (t :: ts) out ↔
      Reads ⟨db, .unquoted slot (text ++ t.text), none⟩ ts out := by
  simp [reads_cons, State.move, State.movePlace, State.moveUnquoted, ht, Kind.macroClose?]

/-- Neither a literal nor the start of a macro closes a slot. -/
theorem closer_cases (slot : Slot) : slot.closer = .comma ∨ slot.closer = .closeBracket := by
  cases slot <;> simp [Slot.closer]

/-- In an unquoted value, the value ends or a fragment follows. -/
theorem reads_unquoted_step (text : String) (ts : List Token) :
    Reads ⟨db, .unquoted slot text, none⟩ ts out ↔
      Reads ⟨db, .ended slot text, none⟩ ts out ∨
        ∃ fragment us, Fragment ts fragment us ∧
          Reads ⟨db, .unquoted slot (text ++ fragment), none⟩ us out := by
  constructor
  · intro h
    cases ts with
    | nil => exact h.elim
    | cons t ts =>
      cases hclose : t.kind.macroClose? with
      | some close =>
        obtain ⟨us, hinner, hlater⟩ := (takesMacro_unquoted.reads_iff hclose).mp h
        exact .inr ⟨"", us, .ofMacro hinner, by simpa using hlater⟩
      | none =>
        by_cases hliteral : t.kind = .literal
        · exact .inr ⟨t.text, ts, .literal hliteral, (reads_unquoted_of_literal hliteral).mp h⟩
        · refine .inl ?_
          rw [reads_cons] at h ⊢
          simpa [State.move, State.movePlace, State.moveUnquoted, hclose, hliteral] using h
  · rintro (h | ⟨fragment, us, hfragment, h⟩)
    · cases ts with
      | nil => exact h.elim
      | cons t ts =>
        obtain ⟨hcloser, hlater⟩ := reads_ended.mp h
        rw [reads_cons]
        rcases closer_cases slot with hslot | hslot <;>
          simpa [State.move, State.movePlace, State.moveUnquoted, State.moveEnded, hcloser, hslot,
            Kind.macroClose?] using hlater
    · cases hfragment with
      | literal ht => exact (reads_unquoted_of_literal ht).mpr h
      | ofMacro inner => exact takesMacro_unquoted.reads inner (by simpa using h)

/-- An unquoted value is read on to its end. -/
theorem reads_unquoted {text : String} :
    Reads ⟨db, .unquoted slot text, none⟩ ts out ↔
      ∃ texts us, Many Fragment ts texts us ∧
        Reads ⟨db, .ended slot (texts.foldl (· ++ ·) text), none⟩ us out :=
  loop_iff _ Fragment.leaves reads_unquoted_step text ts

theorem unquote_quotes (value : String) : unquote ("\"" ++ value ++ "\"") = value := by
  simp [unquote]

theorem unquote_of_ne {text : String} (h : ∀ value, text ≠ "\"" ++ value ++ "\"") :
    unquote text = text := by
  unfold unquote
  split
  · next cs hcs =>
    split
    · next hlast =>
      obtain ⟨ds, rfl⟩ := List.getLast?_eq_some_iff.mp hlast
      refine absurd ?_ (h (String.ofList ds))
      rw [← String.toList_inj, hcs]
      simp
    · rfl
  · rfl

/-- `unquote` takes the outer quotes away, where there are any. -/
theorem unquoted_iff {text value : String} : Unquoted text value ↔ unquote text = value := by
  constructor
  · intro h
    cases h with
    | quotes => exact unquote_quotes value
    | plain h => exact unquote_of_ne h
  · rintro rfl
    by_cases h : ∃ value, text = "\"" ++ value ++ "\""
    · obtain ⟨value, rfl⟩ := h
      rw [unquote_quotes]
      exact .quotes value
    · have hne : ∀ value, text ≠ "\"" ++ value ++ "\"" := fun value hv => h ⟨value, hv⟩
      rw [unquote_of_ne hne]
      exact .plain hne

theorem reads_value_of_literal (ht : t.kind = .literal) :
    Reads ⟨db, .value slot, none⟩ (t :: ts) out ↔
      Reads ⟨db, .unquoted slot t.text, none⟩ ts out := by
  simp [reads_cons, State.move, State.movePlace, State.moveValue, ht, Kind.macroClose?]

theorem reads_value_of_quoted (ht : t.kind = .quoted) :
    Reads ⟨db, .value slot, none⟩ (t :: ts) out ↔
      Reads ⟨db, .ended slot (unquote t.text), none⟩ ts out := by
  simp [reads_cons, State.move, State.movePlace, State.moveValue, ht, Kind.macroClose?]

/-- A value is read as the grammar says. -/
theorem reads_value :
    Reads ⟨db, .value slot, none⟩ ts out ↔
      ∃ value us, Value ts value us ∧ Reads ⟨db, .ended slot value, none⟩ us out := by
  constructor
  · intro h
    cases ts with
    | nil => exact h.elim
    | cons t ts =>
      cases hclose : t.kind.macroClose? with
      | some close =>
        obtain ⟨us, hinner, hlater⟩ := (takesMacro_value.reads_iff hclose).mp h
        obtain ⟨texts, vs, hmany, hend⟩ := reads_unquoted.mp hlater
        exact ⟨_, vs, .unquoted (.more (.ofMacro hinner) hmany) (by simp), hend⟩
      | none =>
        cases hkind : t.kind with
        | quoted =>
          have hend := (reads_value_of_quoted hkind).mp h
          exact ⟨unquote t.text, ts, .quoted hkind (unquoted_iff.mpr rfl), hend⟩
        | literal =>
          obtain ⟨texts, vs, hmany, hend⟩ :=
            reads_unquoted.mp ((reads_value_of_literal hkind).mp h)
          refine ⟨_, vs, .unquoted (.more (.literal hkind) hmany) (by simp), ?_⟩
          simpa [String.join] using hend
        | _ =>
          rw [reads_cons] at h
          simp_all [State.move, State.movePlace, State.moveValue, Kind.macroClose?]
  · rintro ⟨value, us, hvalue, h⟩
    cases hvalue with
    | quoted ht hvalue =>
      rw [reads_value_of_quoted ht, unquoted_iff.mp hvalue]
      exact h
    | unquoted fragments hne =>
      cases fragments with
      | done => exact absurd rfl hne
      | more first later =>
        cases first with
        | literal ht =>
          rw [reads_value_of_literal ht]
          exact reads_unquoted.mpr ⟨_, _, later, by simpa [String.join] using h⟩
        | ofMacro inner =>
          exact takesMacro_value.reads inner (reads_unquoted.mpr ⟨_, _, later, h⟩)

/-- The value of a slot is read together with the token after it. -/
theorem reads_slot :
    Reads ⟨db, .value slot, none⟩ ts out ↔
      ∃ value closer us, Value ts value (closer :: us) ∧ closer.kind = slot.closer ∧
        Reads (slot.fill db value) us out := by
  rw [reads_value]
  constructor
  · rintro ⟨value, us, hvalue, h⟩
    cases us with
    | nil => exact h.elim
    | cons closer us => exact ⟨value, closer, us, hvalue, reads_ended.mp h⟩
  · rintro ⟨value, closer, us, hvalue, h⟩
    exact ⟨value, closer :: us, hvalue, reads_ended.mpr h⟩

theorem reads_opening :
    Reads ⟨db, .opening slot, none⟩ ts out ↔
      ∃ opener us, ts = opener :: us ∧ opener.kind = .openBracket ∧
        Reads ⟨db, .value slot, none⟩ us out := by
  constructor
  · intro h
    cases ts with
    | nil => exact h.elim
    | cons t ts =>
      rw [reads_cons] at h
      by_cases ht : t.kind = .openBracket
      · simp only [State.move, State.movePlace, ht, if_true] at h
        exact ⟨t, ts, rfl, ht, h⟩
      · simp [State.move, State.movePlace, ht] at h
  · rintro ⟨opener, us, rfl, hopen, h⟩
    rw [reads_cons]
    simpa [State.move, State.movePlace, hopen] using h

/-- Two values in brackets are read one after the other; `second key` is the slot after `key`. -/
theorem reads_pair (first : Slot) (second : String → Slot)
    (hfirst : first.closer = .comma) (hsecond : ∀ key, (second key).closer = .closeBracket)
    (hfill : ∀ key, first.fill db key = ⟨db, .value (second key), none⟩) :
    Reads ⟨db, .opening first, none⟩ ts out ↔
      ∃ key value us, Pair ts (key, value) us ∧ Reads ((second key).fill db value) us out := by
  rw [reads_opening]
  constructor
  · rintro ⟨opener, us, rfl, hopen, h⟩
    obtain ⟨key, comma, vs, hkey, hcomma, h⟩ := reads_slot.mp h
    rw [hfill] at h
    obtain ⟨value, closer, ws, hvalue, hclose, h⟩ := reads_slot.mp h
    exact ⟨key, value, ws,
      .mk hopen hkey (hcomma.trans hfirst) hvalue (hclose.trans (hsecond key)), h⟩
  · rintro ⟨key, value, us, hpair, h⟩
    cases hpair with
    | mk hopen hkey hcomma hvalue hclose =>
      refine ⟨_, _, rfl, hopen, reads_slot.mpr ⟨key, _, _, hkey, hcomma.trans hfirst.symm, ?_⟩⟩
      rw [hfill]
      exact reads_slot.mpr ⟨value, _, _, hvalue, hclose.trans (hsecond key).symm, h⟩

/-! ## Records -/

theorem reads_closeBrace {afterMacro : Bool} (ht : t.kind = .closeBrace) :
    Reads ⟨db, .body r afterMacro, none⟩ (t :: ts) out ↔
      Reads ⟨db.push r, .top, none⟩ ts out := by
  simp [reads_cons, State.move, State.movePlace, State.moveBody, ht, Kind.macroClose?]

theorem reads_field {afterMacro : Bool} (ht : t.kind = .fieldWord) :
    Reads ⟨db, .body r afterMacro, none⟩ (t :: ts) out ↔
      ∃ name value us, Pair ts (name, value) us ∧
        Reads ⟨db, .body { r with fields := r.fields ++ [.of name value afterMacro] } false, none⟩
          us out := by
  rw [reads_cons]
  simp only [State.move, State.movePlace, State.moveBody, ht, Kind.macroClose?]
  exact reads_pair (.entryName r (.field afterMacro)) (.entryValue r (.field afterMacro)) rfl
    (fun _ => rfl) (fun _ => rfl)

theorem reads_info {afterMacro : Bool} (ht : t.kind = .infoWord) :
    Reads ⟨db, .body r afterMacro, none⟩ (t :: ts) out ↔
      ∃ name value us, Pair ts (name, value) us ∧
        Reads ⟨db, .body { r with infos := r.infos ++ [.of name value false] } false, none⟩
          us out := by
  rw [reads_cons]
  simp only [State.move, State.movePlace, State.moveBody, ht, Kind.macroClose?]
  exact reads_pair (.entryName r .info) (.entryValue r .info) rfl (fun _ => rfl) (fun _ => rfl)

theorem reads_ownAlias {afterMacro : Bool} (ht : t.kind = .aliasWord) :
    Reads ⟨db, .body r afterMacro, none⟩ (t :: ts) out ↔
      ∃ opener us name closer vs, ts = opener :: us ∧ opener.kind = .openBracket ∧
        Value us name (closer :: vs) ∧ closer.kind = .closeBracket ∧
        Reads ⟨db, .body { r with aliases := r.aliases ++ [name] } false, none⟩ vs out := by
  rw [reads_cons]
  simp only [State.move, State.movePlace, State.moveBody, ht, Kind.macroClose?]
  rw [reads_opening]
  simp only [reads_slot]
  constructor
  · rintro ⟨opener, us, rfl, hopen, name, closer, vs, hname, hclose, h⟩
    exact ⟨opener, us, name, closer, vs, rfl, hopen, hname, hclose, h⟩
  · rintro ⟨opener, us, name, closer, vs, rfl, hopen, hname, hclose, h⟩
    exact ⟨opener, us, rfl, hopen, name, closer, vs, hname, hclose, h⟩

/-- The record that has been read and whether a macro stands directly before, after an item. -/
def bodyNext : Record × Bool → BodyItem → Record × Bool
  | (r, _), .filler f => (r, f = .ofMacro)
  | (r, afterMacro), .field name value =>
    ({ r with fields := r.fields ++ [.of name value afterMacro] }, false)
  | (r, _), .info name value => ({ r with infos := r.infos ++ [.of name value false] }, false)
  | (r, _), .ownAlias name => ({ r with aliases := r.aliases ++ [name] }, false)

/-- In a body, the body closes or an item follows. -/
theorem reads_body_step (s : Record × Bool) (ts : List Token) :
    Reads ⟨db, .body s.1 s.2, none⟩ ts out ↔
      (∃ closer us, ts = closer :: us ∧ closer.kind = .closeBrace ∧
        Reads ⟨db.push s.1, .top, none⟩ us out) ∨
      ∃ item us, BodyItemAt ts item us ∧
        Reads ⟨db, .body (bodyNext s item).1 (bodyNext s item).2, none⟩ us out := by
  obtain ⟨r, afterMacro⟩ := s
  constructor
  · intro h
    cases ts with
    | nil => exact h.elim
    | cons t ts =>
      by_cases ht : t.kind.opensMacro = true ∨ t.kind = .hash
      · obtain ⟨f, us, hf, hus⟩ := takesFillers_body.exists_of_reads ht h
        exact .inr ⟨.filler f, us, .filler hf, hus⟩
      · cases hkind : t.kind with
        | closeBrace => exact .inl ⟨t, ts, rfl, hkind, (reads_closeBrace hkind).mp h⟩
        | fieldWord =>
          obtain ⟨name, value, us, hpair, hus⟩ := (reads_field hkind).mp h
          exact .inr ⟨_, us, .field hkind hpair, hus⟩
        | infoWord =>
          obtain ⟨name, value, us, hpair, hus⟩ := (reads_info hkind).mp h
          exact .inr ⟨_, us, .info hkind hpair, hus⟩
        | aliasWord =>
          obtain ⟨opener, us, name, closer, vs, rfl, hopen, hname, hclose, hvs⟩ :=
            (reads_ownAlias hkind).mp h
          exact .inr ⟨_, vs, .ownAlias hkind hopen hname hclose, hvs⟩
        | _ =>
          rw [reads_cons] at h
          simp_all [State.move, State.movePlace, State.moveBody, Kind.macroClose?,
            Kind.opensMacro]
  · rintro (⟨closer, us, rfl, hclose, h⟩ | ⟨item, us, hitem, h⟩)
    · exact (reads_closeBrace hclose).mpr h
    · cases hitem with
      | filler inner => exact takesFillers_body.reads inner h
      | field hword arguments => exact (reads_field hword).mpr ⟨_, _, us, arguments, h⟩
      | info hword arguments => exact (reads_info hword).mpr ⟨_, _, us, arguments, h⟩
      | ownAlias hword hopen argument hclose =>
        exact (reads_ownAlias hword).mpr ⟨_, _, _, _, us, rfl, hopen, argument, hclose, h⟩

/-- The items of a body are added to the record one after another. -/
theorem foldl_bodyNext (items : List BodyItem) (r : Record) (afterMacro : Bool) :
    (items.foldl bodyNext (r, afterMacro)).1 =
      { r with
        fields := r.fields ++ BodyItem.fields afterMacro items
        infos := r.infos ++ items.filterMap BodyItem.info?
        aliases := r.aliases ++ items.filterMap BodyItem.ownAlias? } := by
  induction items generalizing r afterMacro with
  | nil => simp [BodyItem.fields]
  | cons item items ih =>
    rw [List.foldl_cons, bodyNext.eq_def]
    cases item <;>
      simp [ih, BodyItem.fields, BodyItem.info?, BodyItem.ownAlias?, List.filterMap_cons]

/-- A body is read as the grammar says. -/
theorem reads_body {type name : String} :
    Reads ⟨db, .body (.bare type name) false, none⟩ ts out ↔
      ∃ items closer us, Many BodyItemAt ts items (closer :: us) ∧ closer.kind = .closeBrace ∧
        Reads ⟨db.push (recordOf type name items), .top, none⟩ us out := by
  rw [loop_iff bodyNext BodyItemAt.leaves reads_body_step (.bare type name, false) ts]
  simp only [foldl_bodyNext, Record.bare, List.nil_append, recordOf]
  constructor
  · rintro ⟨items, us, hmany, closer, vs, rfl, hclose, h⟩
    exact ⟨items, closer, vs, hmany, hclose, h⟩
  · rintro ⟨items, closer, us, hmany, hclose, h⟩
    exact ⟨items, closer :: us, hmany, closer, us, rfl, hclose, h⟩

/-- What ends a record without a body may also be read after the arguments of the record. -/
theorem reads_header_of_top (h : Reads ⟨db.push r, .top, none⟩ ts out) :
    Reads ⟨db, .header r, none⟩ ts out := by
  induction hn : ts.length using Nat.strongRecOn generalizing ts with
  | ind n ih =>
    cases ts with
    | nil => exact h.elim
    | cons t ts =>
      by_cases ht : t.kind.opensMacro = true ∨ t.kind = .hash
      · obtain ⟨f, us, hf, hus⟩ := takesFillers_top.exists_of_reads ht h
        exact takesFillers_header.reads hf (ih us.length (hn ▸ hf.leaves.length_lt) hus rfl)
      · rw [reads_cons] at h ⊢
        cases hkind : t.kind <;>
          simp_all [State.move, State.movePlace, State.moveHeader, State.moveTop,
            Kind.macroClose?, Kind.opensMacro]

theorem reads_openBrace (ht : t.kind = .openBrace) :
    Reads ⟨db, .header r, none⟩ (t :: ts) out ↔ Reads ⟨db, .body r false, none⟩ ts out := by
  simp [reads_cons, State.move, State.movePlace, State.moveHeader, ht, Kind.macroClose?]

/-- After the arguments of a record, the record ends, a body opens or a filler follows. -/
theorem reads_header_step (ts : List Token) :
    Reads ⟨db, .header r, none⟩ ts out ↔
      (Reads ⟨db.push r, .top, none⟩ ts out ∨
        ∃ opener us, ts = opener :: us ∧ opener.kind = .openBrace ∧
          Reads ⟨db, .body r false, none⟩ us out) ∨
      ∃ f us, FillerAt ts f us ∧ Reads ⟨db, .header r, none⟩ us out := by
  constructor
  · intro h
    cases ts with
    | nil => exact h.elim
    | cons t ts =>
      by_cases ht : t.kind.opensMacro = true ∨ t.kind = .hash
      · exact .inr (takesFillers_header.exists_of_reads ht h)
      · by_cases hopen : t.kind = .openBrace
        · exact .inl (.inr ⟨t, ts, rfl, hopen, (reads_openBrace hopen).mp h⟩)
        · refine .inl (.inl ?_)
          rw [reads_cons] at h ⊢
          cases hkind : t.kind <;>
            simp_all [State.move, State.movePlace, State.moveHeader, State.moveTop,
              Kind.macroClose?, Kind.opensMacro]
  · rintro ((h | ⟨opener, us, rfl, hopen, h⟩) | ⟨f, us, hf, h⟩)
    · exact reads_header_of_top h
    · exact (reads_openBrace hopen).mpr h
    · exact takesFillers_header.reads hf h

/-- Between the arguments of a record and its end or its body there are fillers. -/
theorem reads_header :
    Reads ⟨db, .header r, none⟩ ts out ↔
      ∃ fillers us, Many FillerAt ts fillers us ∧
        (Reads ⟨db.push r, .top, none⟩ us out ∨
          ∃ opener vs, us = opener :: vs ∧ opener.kind = .openBrace ∧
            Reads ⟨db, .body r false, none⟩ vs out) :=
  loop_iff (fun _ _ => ()) FillerAt.leaves (fun _ => reads_header_step) () ts

/-! ## Files -/

theorem reads_recordWord (ht : t.kind = .recordWord) :
    Reads ⟨db, .top, none⟩ (t :: ts) out ↔
      ∃ type name us, Pair ts (type, name) us ∧
        Reads ⟨db, .header (.bare type name), none⟩ us out := by
  rw [reads_cons]
  simp only [State.move, State.movePlace, State.moveTop, ht, Kind.macroClose?]
  exact reads_pair .recordType .recordName rfl (fun _ => rfl) (fun _ => rfl)

theorem reads_aliasWord (ht : t.kind = .aliasWord) :
    Reads ⟨db, .top, none⟩ (t :: ts) out ↔
      ∃ parent name us, Pair ts (parent, name) us ∧
        Reads ⟨db.attach parent name, .top, none⟩ us out := by
  rw [reads_cons]
  simp only [State.move, State.movePlace, State.moveTop, ht, Kind.macroClose?]
  exact reads_pair .aliasParent .aliasName rfl (fun _ => rfl) (fun _ => rfl)

/-- A record is read as the grammar says. -/
theorem reads_record (ht : t.kind = .recordWord) :
    Reads ⟨db, .top, none⟩ (t :: ts) out ↔
      ∃ r us, RecordAt (t :: ts) r us ∧ Reads ⟨db.push r, .top, none⟩ us out := by
  rw [reads_recordWord ht]
  constructor
  · rintro ⟨type, name, us, hpair, h⟩
    obtain ⟨fillers, vs, hgap, h | ⟨opener, ws, rfl, hopen, h⟩⟩ := reads_header.mp h
    · exact ⟨_, vs, .bare ht hpair hgap, h⟩
    · obtain ⟨items, closer, xs, hbody, hclose, h⟩ := reads_body.mp h
      exact ⟨_, xs, .withBody ht hpair hgap hopen hbody hclose, h⟩
  · rintro ⟨r, us, hrecord, h⟩
    cases hrecord with
    | bare hword arguments gap =>
      exact ⟨_, _, _, arguments, reads_header.mpr ⟨_, us, gap, .inl h⟩⟩
    | withBody hword arguments gap hopen body hclose =>
      refine ⟨_, _, _, arguments, reads_header.mpr ⟨_, _, gap, .inr ⟨_, _, rfl, hopen, ?_⟩⟩⟩
      exact reads_body.mpr ⟨_, _, us, body, hclose, h⟩

/-- The database after a declaration. -/
def declare (db : Database) : Declaration → Database
  | .record r => db.push r
  | .aliasOf parent name => db.attach parent name
  | .filler _ => db

/-- Between declarations, the file ends or a declaration follows. -/
theorem reads_top_step {out : Database} (db : Database) (ts : List Token) :
    Reads ⟨db, .top, none⟩ ts out ↔
      (∃ last us, ts = last :: us ∧ last.kind = .endOfFile ∧ db = out) ∨
      ∃ d us, DeclarationAt ts d us ∧ Reads ⟨declare db d, .top, none⟩ us out := by
  constructor
  · intro h
    cases ts with
    | nil => exact h.elim
    | cons t ts =>
      by_cases ht : t.kind.opensMacro = true ∨ t.kind = .hash
      · obtain ⟨f, us, hf, hus⟩ := takesFillers_top.exists_of_reads ht h
        exact .inr ⟨.filler f, us, .filler hf, hus⟩
      · cases hkind : t.kind with
        | endOfFile =>
          rw [reads_cons] at h
          simp only [State.move, State.movePlace, State.moveTop, hkind, Kind.macroClose?] at h
          exact .inl ⟨t, ts, rfl, hkind, h⟩
        | recordWord =>
          obtain ⟨r, us, hrecord, hus⟩ := (reads_record hkind).mp h
          exact .inr ⟨.record r, us, .record hrecord, hus⟩
        | aliasWord =>
          obtain ⟨parent, name, us, hpair, hus⟩ := (reads_aliasWord hkind).mp h
          exact .inr ⟨.aliasOf parent name, us, .aliasOf hkind hpair, hus⟩
        | _ =>
          rw [reads_cons] at h
          simp_all [State.move, State.movePlace, State.moveTop, Kind.macroClose?,
            Kind.opensMacro]
  · rintro (⟨last, us, rfl, hlast, rfl⟩ | ⟨d, us, hd, h⟩)
    · simp [reads_cons, State.move, State.movePlace, State.moveTop, hlast, Kind.macroClose?]
    · cases hd with
      | record inner =>
        obtain ⟨t, vs, rfl, ht⟩ : ∃ t vs, ts = t :: vs ∧ t.kind = .recordWord := by
          cases inner with
          | bare hword => exact ⟨_, _, rfl, hword⟩
          | withBody hword => exact ⟨_, _, rfl, hword⟩
        exact (reads_record ht).mpr ⟨_, us, inner, h⟩
      | aliasOf hword arguments => exact (reads_aliasWord hword).mpr ⟨_, _, us, arguments, h⟩
      | filler inner => exact takesFillers_top.reads inner h

/-- A file is read as the grammar says, up to its first end of file. -/
theorem reads_top :
    Reads ⟨db, .top, none⟩ ts out ↔
      ∃ ds last us, Many DeclarationAt ts ds (last :: us) ∧ last.kind = .endOfFile ∧
        ds.foldl declare db = out := by
  rw [loop_iff declare DeclarationAt.leaves reads_top_step db ts]
  constructor
  · rintro ⟨ds, us, hmany, last, vs, rfl, hlast, h⟩
    exact ⟨ds, last, vs, hmany, hlast, h⟩
  · rintro ⟨ds, last, us, hmany, hlast, h⟩
    exact ⟨ds, last :: us, hmany, last, us, rfl, hlast, h⟩

/-! ## What declarations do -/

theorem addAlias_of_none {records : List Record} {parent name : String}
    (h : ∀ q ∈ records, q.answersTo parent = false) :
    Database.addAlias records parent name = records := by
  induction records with
  | nil => rfl
  | cons q qs ih =>
    rw [Database.addAlias, h q List.mem_cons_self]
    simp [ih fun r hr => h r (List.mem_cons_of_mem q hr)]

theorem addAlias_of_first {before after : List Record} {r : Record} {parent name : String}
    (hbefore : ∀ q ∈ before, q.answersTo parent = false) (hr : r.answersTo parent = true) :
    Database.addAlias (before ++ r :: after) parent name =
      before ++ { r with aliases := r.aliases ++ [name] } :: after := by
  induction before with
  | nil => simp [Database.addAlias, hr]
  | cons q qs ih =>
    rw [List.cons_append, Database.addAlias, hbefore q List.mem_cons_self]
    simp [ih fun r hr => hbefore r (List.mem_cons_of_mem q hr)]

/-- Either no record answers to the parent and nothing changes, or the first one that does has one
more name. -/
theorem addAlias_cases (records : List Record) (parent name : String) :
    ((∀ q ∈ records, q.answersTo parent = false) ∧
      Database.addAlias records parent name = records) ∨
    ∃ before r after, records = before ++ r :: after ∧
      (∀ q ∈ before, q.answersTo parent = false) ∧ r.answersTo parent = true ∧
      Database.addAlias records parent name =
        before ++ { r with aliases := r.aliases ++ [name] } :: after := by
  cases hfind : records.find? (·.answersTo parent) with
  | none =>
    have hnone : ∀ q ∈ records, q.answersTo parent = false := by
      simpa using List.find?_eq_none.mp hfind
    exact .inl ⟨hnone, addAlias_of_none hnone⟩
  | some r =>
    obtain ⟨hr, before, after, rfl, hbefore⟩ := List.find?_eq_some_iff_append.mp hfind
    have hbefore : ∀ q ∈ before, q.answersTo parent = false := by simpa using hbefore
    exact .inr ⟨before, r, after, rfl, hbefore, hr, addAlias_of_first hbefore hr⟩

/-- `declare` does to the records what the grammar says of a declaration. -/
theorem adds_iff {d : Declaration} {records : List Record} :
    Adds db.records d records ↔ (declare db d).records = records := by
  constructor
  · intro h
    obtain ⟨source, before⟩ := db
    cases h with
    | record => rfl
    | attached hbefore hr => exact addAlias_of_first hbefore hr
    | dropped hnone => exact addAlias_of_none hnone
    | filler => rfl
  · rintro rfl
    cases d with
    | record r => exact .record db.records r
    | filler f => exact .filler db.records f
    | aliasOf parent name =>
      change Adds db.records _ (Database.addAlias db.records parent name)
      rcases addAlias_cases db.records parent name with
        ⟨hnone, hadd⟩ | ⟨before, r, after, hsplit, hbefore, hr, hadd⟩
      · rw [hadd]
        exact .dropped hnone
      · rw [hadd, hsplit]
        exact .attached hbefore hr

theorem addsAll_iff (db : Database) {ds : List Declaration} {records : List Record} :
    AddsAll db.records ds records ↔ (ds.foldl declare db).records = records := by
  induction ds generalizing db with
  | nil =>
    constructor
    · rintro ⟨⟩
      rfl
    · rintro rfl
      exact .done _
  | cons d ds ih =>
    rw [List.foldl_cons, ← ih]
    constructor
    · intro h
      cases h with
      | more first later => exact adds_iff.mp first ▸ later
    · exact fun later => .more (adds_iff.mpr rfl) later

theorem foldl_declare_source (ds : List Declaration) (db : Database) :
    (ds.foldl declare db).source = db.source := by
  induction ds generalizing db with
  | nil => rfl
  | cons d ds ih => cases d <;> exact ih _

/-! ## Whole files -/

theorem ofTokens_eq_ok_iff {tokens : List Token} :
    Database.ofTokens tokens = .ok db ↔ Reads .initial tokens db := by
  cases tokens with
  | nil => simp [Database.ofTokens, Cursor.ofItems, bind, Except.bind, Reads]
  | cons t ts => exact Iff.rfl

theorem eq_ok_of_toOption {result : Except SyntaxError Database} (h : result.toOption = some db) :
    result = .ok db := by
  cases result with
  | error e => simp [Except.toOption] at h
  | ok d => simpa [Except.toOption] using h

/-- What the grammar derives is read. -/
theorem ofTokens_of_derives {tokens : List Token} (h : Derives tokens db) :
    Database.ofTokens tokens = .ok db := by
  obtain ⟨ds, last, hmany, hlast, hsource, hrecords⟩ := h
  have hdeclared : (ds.foldl declare .empty).records = db.records :=
    (addsAll_iff .empty).mp hrecords
  have hlabel : (ds.foldl declare .empty).source = db.source := by
    rw [foldl_declare_source, hsource]
    rfl
  have hdb : ds.foldl declare .empty = db := by
    cases db
    cases hfold : ds.foldl declare .empty
    simp_all
  exact ofTokens_eq_ok_iff.mpr (reads_top.mpr ⟨ds, last, [], hmany, hlast, hdb⟩)

/-- What is read from a complete list of tokens is derived. -/
theorem derives_of_ofTokens {tokens : List Token} (hends : EndsOnce tokens)
    (h : Database.ofTokens tokens = .ok db) : Derives tokens db := by
  obtain ⟨ds, last, us, hmany, hlast, rfl⟩ := reads_top.mp (ofTokens_eq_ok_iff.mp h)
  obtain rfl : us = [] := hends.eq_nil_of_suffix (hmany.suffix DeclarationAt.leaves) hlast
  exact ⟨ds, last, hmany, hlast, foldl_declare_source ds .empty, (addsAll_iff .empty).mpr rfl⟩

/-- A complete list of tokens is read as a database if and only if the grammar derives the database
from it, and the tokens of a text are complete. -/
theorem ofTokens_eq_ok_iff_derives :
    (∀ text, EndsOnce (tokenize text)) ∧
      ∀ tokens, EndsOnce tokens → ∀ db, Database.ofTokens tokens = .ok db ↔ Derives tokens db :=
  ⟨endsOnce_tokenize, fun _ hends _ => ⟨derives_of_ofTokens hends, ofTokens_of_derives⟩⟩

/-- The theorem at a record with a comment before its body, a field after macros of both kinds, one
inside the other, and an alias that is declared outside. -/
theorem derives_commented_record :
    let text := "record(ai, A) # note\n\x7b $\x7bM=$(N)\x7d field(EGU, K) \x7d alias(A, B)"
    EndsOnce (tokenize text) ∧
      Derives (tokenize text) ⟨"", [⟨"ai", "A", [⟨"EGU", "K", true⟩], [], ["B"]⟩]⟩ := by
  intro text
  have hends := endsOnce_tokenize text
  refine ⟨hends, (ofTokens_eq_ok_iff_derives.2 _ hends _).mp ?_⟩
  exact eq_ok_of_toOption (by decide +kernel)

end EpicsDb.Grammar
