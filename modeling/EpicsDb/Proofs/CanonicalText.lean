import EpicsDb.Proofs.Grammar.Parsing
import Mathlib.Data.List.Forall2

/-!
# Canonical texts

Every database without a label can be written down, if its texts can stand between quotes.  Its
canonical text is a list of items with blanks between them; `layOut` puts the blanks in, and
`parse_canonicalText` says that reading gives the database back however this is done.

The proof builds a derivation of the grammar along the items.

* `Writes p text a` says that a production reads the text as `a`, wherever the text stands and
  whatever follows it.  There is one lemma for each kind of item.
* `many_layOut` goes through items with blanks between them.
* `recordOf_bodyItems` says that the items of a record make up the record: the name of an entry is
  not changed by trimming, and a macro stands before exactly the fields that have one.
-/

namespace EpicsDb

/-! ## Items -/

/-- The text between quotes. -/
def quote (s : String) : String :=
  "\"" ++ s ++ "\""

/-- Two quoted texts in brackets. -/
def quotedPair (key value : String) : String :=
  "(" ++ quote key ++ ", " ++ quote value ++ ")"

/-- The items of a field: a macro if the field has one, and the field itself. -/
def Field.items (f : Field) : List String :=
  (if f.hasMacro then ["$(M)"] else []) ++ ["field" ++ quotedPair f.name f.value]

/-- The item of an info entry. -/
def Field.infoItem (f : Field) : String :=
  "info" ++ quotedPair f.name f.value

/-- The item of an alias in the body of its record. -/
def aliasItem (name : String) : String :=
  "alias(" ++ quote name ++ ")"

/-- The items of the body of a record. -/
def Record.bodyTexts (r : Record) : List String :=
  r.fields.flatMap Field.items ++ r.infos.map Field.infoItem ++ r.aliases.map aliasItem

/-- The items of a record, its body in braces. -/
def Record.items (r : Record) : List String :=
  ("record" ++ quotedPair r.type r.name ++ " \x7b") :: (r.bodyTexts ++ ["\x7d"])

/-- The items of a database. -/
def Database.items (db : Database) : List String :=
  db.records.flatMap Record.items

/-! ## Blanks between items -/

/-- The items one after another, each with a gap before it, and a gap after the last one. -/
def layOut (gap : Nat → String) : List String → String
  | [] => gap 0
  | item :: items => gap 0 ++ item ++ layOut (fun n => gap (n + 1)) items

/-- The gaps are made of blanks. -/
def AreBlank (gap : Nat → String) : Prop :=
  ∀ n, ∀ c ∈ (gap n).toList, Lexeme.isBlank c = true

theorem AreBlank.tail {gap : Nat → String} (h : AreBlank gap) : AreBlank fun n => gap (n + 1) :=
  fun n => h (n + 1)

/-- The canonical text of a database, with the given gaps between its items. -/
def Database.canonicalText (db : Database) (gap : Nat → String) : String :=
  layOut gap db.items

/-! ## Databases that can be written -/

/-- The name and the value can stand between quotes, and the name has no white space at its ends. -/
@[mk_iff]
structure Field.Writable (f : Field) : Prop where
  name : Quotable f.name.toList
  value : Quotable f.value.toList
  trimmed : Text.trim f.name = f.name

/-- All texts of the record can stand between quotes, and no info entry has a macro. -/
@[mk_iff]
structure Record.Writable (r : Record) : Prop where
  type : Quotable r.type.toList
  name : Quotable r.name.toList
  fields : ∀ f ∈ r.fields, f.Writable
  infos : ∀ f ∈ r.infos, f.Writable ∧ f.hasMacro = false
  aliases : ∀ name ∈ r.aliases, Quotable name.toList

/-- The database has no label, and all its records can be written. -/
@[mk_iff]
structure Database.Writable (db : Database) : Prop where
  source : db.source = ""
  records : ∀ r ∈ db.records, r.Writable

instance (f : Field) : Decidable f.Writable :=
  decidable_of_iff _ (Field.writable_iff f).symm

instance (r : Record) : Decidable r.Writable :=
  decidable_of_iff _ (Record.writable_iff r).symm

instance (db : Database) : Decidable db.Writable :=
  decidable_of_iff _ (Database.writable_iff db).symm

namespace Grammar

variable {gap : Nat → String}

/-! ## Arguments -/

theorem tokensAt_quote {s : String} (h : Quotable s.toList) (q : Position) (rest : List Char) :
    tokensAt q ((quote s).toList ++ rest) =
      ⟨.quoted, q.line, q.column, quote s⟩ :: tokensAt (q.after (quote s).toList) rest := by
  have hquote : (quote s).toList = '"' :: (s.toList ++ ['"']) := by simp [quote]
  rw [hquote, (cuts_quoted h).tokensAt (by decide), ← hquote, String.ofList_toList]

theorem tokensAt_mark {c : Char} (h : Lexeme.markKind c ≠ .unknown) (q : Position)
    (rest : List Char) :
    tokensAt q (c :: rest) =
      ⟨Lexeme.markKind c, q.line, q.column, String.ofList [c]⟩ :: tokensAt (q.next c) rest :=
  (cuts_mark h).tokensAt (markKind_ne (.inl rfl) c) q

/-- A word ends where a character follows that words do not have. -/
theorem tokensAt_word {w : List Char} {c : Char} (hw : w ≠ [])
    (hword : w.all Lexeme.isWordChar = true) (hc : Lexeme.isWordChar c = false) (q : Position)
    (rest : List Char) :
    tokensAt q (w ++ c :: rest) =
      ⟨Lexeme.wordKind w, q.line, q.column, String.ofList w⟩ ::
        tokensAt (q.after w) (c :: rest) := by
  have hrest : ∀ d, (c :: rest).head? = some d → Lexeme.isWordChar d = false := by
    intro d hd
    obtain rfl : c = d := by simpa using hd
    exact hc
  exact (cuts_word hw (List.all_eq_true.mp hword) hrest).tokensAt (wordKind_ne (.inl rfl) w) q

theorem toList_quotedPair_append (key value : String) (rest : List Char) :
    (quotedPair key value).toList ++ rest =
      '(' :: ((quote key).toList ++ ',' :: ' ' :: ((quote value).toList ++ ')' :: rest)) := by
  simp [quotedPair]

theorem pair_quotedPair {key value : String} (hkey : Quotable key.toList)
    (hvalue : Quotable value.toList) (q : Position) (rest : List Char) :
    ∃ q', Pair (tokensAt q ((quotedPair key value).toList ++ rest)) (key, value)
      (tokensAt q' rest) := by
  rw [toList_quotedPair_append, tokensAt_mark (by decide), tokensAt_quote hkey,
    tokensAt_mark (by decide), tokensAt_blank (by decide), tokensAt_quote hvalue,
    tokensAt_mark (by decide)]
  exact ⟨_, .mk rfl (.quoted rfl (.quotes key)) rfl (.quoted rfl (.quotes value)) rfl⟩

/-- A word with two quoted texts in brackets after it. -/
theorem tokensAt_call (word : String) {key value : String} (hne : word.toList ≠ [])
    (hword : word.toList.all Lexeme.isWordChar = true) (hkey : Quotable key.toList)
    (hvalue : Quotable value.toList) (q : Position) (rest : List Char) :
    ∃ t ts q', tokensAt q ((word ++ quotedPair key value).toList ++ rest) = t :: ts ∧
      t.kind = Lexeme.wordKind word.toList ∧ Pair ts (key, value) (tokensAt q' rest) := by
  obtain ⟨q', hpair⟩ := pair_quotedPair hkey hvalue (q.after word.toList) rest
  rw [toList_quotedPair_append] at hpair
  rw [String.toList_append, List.append_assoc, toList_quotedPair_append,
    tokensAt_word hne hword (by decide)]
  exact ⟨_, _, q', rfl, rfl, hpair⟩

/-! ## Items of a body -/

/-- The production reads the text as `a`, wherever the text stands and whatever follows it. -/
def Writes {α : Type} (p : Production α) (text : String) (a : α) : Prop :=
  ∀ q rest, ∃ q', p (tokensAt q (text.toList ++ rest)) a (tokensAt q' rest)

theorem writes_filler : Writes BodyItemAt "$(M)" (.filler .ofMacro) := by
  intro q rest
  have htext : "$(M)".toList ++ rest = ['$', '('] ++ (['M'] ++ ')' :: rest) := rfl
  rw [htext, cuts_bracketMacro.tokensAt (by decide),
    tokensAt_word (by decide) (by decide) (by decide),
    tokensAt_mark (by decide)]
  exact ⟨_, .filler (.ofMacro (.bare .brackets (.literal rfl .done)))⟩

theorem writes_field {name value : String} (hname : Quotable name.toList)
    (hvalue : Quotable value.toList) :
    Writes BodyItemAt ("field" ++ quotedPair name value) (.field name value) := by
  intro q rest
  obtain ⟨t, ts, q', htokens, hkind, hpair⟩ :=
    tokensAt_call "field" (by decide) (by decide) hname hvalue q rest
  rw [htokens]
  exact ⟨q', .field hkind hpair⟩

theorem writes_info {name value : String} (hname : Quotable name.toList)
    (hvalue : Quotable value.toList) :
    Writes BodyItemAt ("info" ++ quotedPair name value) (.info name value) := by
  intro q rest
  obtain ⟨t, ts, q', htokens, hkind, hpair⟩ :=
    tokensAt_call "info" (by decide) (by decide) hname hvalue q rest
  rw [htokens]
  exact ⟨q', .info hkind hpair⟩

theorem writes_ownAlias {name : String} (hname : Quotable name.toList) :
    Writes BodyItemAt (aliasItem name) (.ownAlias name) := by
  intro q rest
  have htext : (aliasItem name).toList ++ rest =
      "alias".toList ++ '(' :: ((quote name).toList ++ ')' :: rest) := by simp [aliasItem]
  rw [htext, tokensAt_word (by decide) (by decide) (by decide),
    tokensAt_mark (by decide), tokensAt_quote hname,
    tokensAt_mark (by decide)]
  exact ⟨_, .ownAlias rfl rfl (.quoted rfl (.quotes name)) rfl⟩

/-! ## The record that the items make up -/

/-- What the items of a field are read as. -/
def fieldItems (f : Field) : List BodyItem :=
  (if f.hasMacro then [.filler .ofMacro] else []) ++ [.field f.name f.value]

/-- What the items in the body of a record are read as. -/
def bodyItems (r : Record) : List BodyItem :=
  r.fields.flatMap fieldItems ++ r.infos.map (fun f => .info f.name f.value) ++
    r.aliases.map .ownAlias

theorem of_eq_self {f : Field} (h : f.Writable) : Field.of f.name f.value f.hasMacro = f := by
  rw [Field.of, h.trimmed]

/-- The mark that a macro leaves is gone after the field that it stands before. -/
theorem fields_flatMap_append {fs : List Field} (h : ∀ f ∈ fs, f.Writable)
    (items : List BodyItem) :
    BodyItem.fields false (fs.flatMap fieldItems ++ items) =
      fs ++ BodyItem.fields false items := by
  induction fs with
  | nil => rfl
  | cons f fs ih =>
    have hf : Field.of f.name f.value f.hasMacro = f := of_eq_self (h f List.mem_cons_self)
    have hlater := ih fun g hg => h g (List.mem_cons_of_mem f hg)
    cases hset : f.hasMacro with
    | true => simp_all [fieldItems, BodyItem.fields]
    | false => simp_all [fieldItems, BodyItem.fields]

theorem fields_eq_nil {items : List BodyItem} (h : ∀ name value, .field name value ∉ items)
    (afterMacro : Bool) : BodyItem.fields afterMacro items = [] := by
  induction items generalizing afterMacro with
  | nil => rfl
  | cons item items ih =>
    have hitems : ∀ name value, .field name value ∉ items :=
      fun name value hmem => h name value (List.mem_cons_of_mem item hmem)
    cases item with
    | field name value => exact absurd List.mem_cons_self (h name value)
    | filler f => exact ih hitems _
    | info name value => exact ih hitems _
    | ownAlias name => exact ih hitems _

theorem eq_of_mem_fieldItems {f : Field} {item : BodyItem} (h : item ∈ fieldItems f) :
    item = .filler .ofMacro ∨ item = .field f.name f.value := by
  rw [fieldItems, List.mem_append] at h
  rcases h with h | h
  · split at h <;> simp_all
  · exact .inr (List.mem_singleton.mp h)

theorem recordOf_bodyItems {r : Record} (h : r.Writable) :
    recordOf r.type r.name (bodyItems r) = r := by
  have hfields : BodyItem.fields false (bodyItems r) = r.fields := by
    rw [bodyItems, List.append_assoc, fields_flatMap_append h.fields, fields_eq_nil (by simp),
      List.append_nil]
  have hneither : (r.fields.flatMap fieldItems).filterMap BodyItem.info? = [] ∧
      (r.fields.flatMap fieldItems).filterMap BodyItem.ownAlias? = [] := by
    have hitem : ∀ item ∈ r.fields.flatMap fieldItems,
        item.info? = none ∧ item.ownAlias? = none := by
      intro item hitem
      obtain ⟨f, -, hf⟩ := List.mem_flatMap.mp hitem
      rcases eq_of_mem_fieldItems hf with rfl | rfl <;> exact ⟨rfl, rfl⟩
    exact ⟨List.filterMap_eq_nil_iff.mpr fun item h => (hitem item h).1,
      List.filterMap_eq_nil_iff.mpr fun item h => (hitem item h).2⟩
  have hinfos : (bodyItems r).filterMap BodyItem.info? = r.infos := by
    have hself : r.infos.map (fun f => Field.of f.name f.value false) = r.infos := by
      refine (List.map_congr_left ?_).trans (List.map_id _)
      intro f hf
      obtain ⟨hwritable, hplain⟩ := h.infos f hf
      rw [← hplain, of_eq_self hwritable, id]
    rw [bodyItems, List.filterMap_append, List.filterMap_append, hneither.1]
    simp [Function.comp_def, BodyItem.info?, hself]
  have haliases : (bodyItems r).filterMap BodyItem.ownAlias? = r.aliases := by
    rw [bodyItems, List.filterMap_append, List.filterMap_append, hneither.2]
    simp [Function.comp_def, BodyItem.ownAlias?]
  rw [recordOf, hfields, hinfos, haliases]

/-! ## Items with blanks between them -/

/-- A gap changes nothing but places. -/
theorem tokensAt_layOut_cons (h : AreBlank gap) (q : Position) (item : String)
    (items : List String) :
    tokensAt q (layOut gap (item :: items)).toList =
      tokensAt (q.after (gap 0).toList)
        (item.toList ++ (layOut (fun n => gap (n + 1)) items).toList) := by
  have htext : (layOut gap (item :: items)).toList =
      (gap 0).toList ++ (item.toList ++ (layOut (fun n => gap (n + 1)) items).toList) := by
    simp [layOut]
  rw [htext, tokensAt_blanks (h 0)]

/-- Items that a production reads one by one are read one after another. -/
theorem many_layOut {α : Type} {p : Production α} {texts : List String} {as : List α}
    (h : List.Forall₂ (Writes p) texts as) (more : List String) (hgap : AreBlank gap)
    (q : Position) :
    ∃ q' gap', AreBlank gap' ∧ Many p (tokensAt q (layOut gap (texts ++ more)).toList) as
      (tokensAt q' (layOut gap' more).toList) := by
  induction h generalizing q gap with
  | nil => exact ⟨q, gap, hgap, .done⟩
  | @cons text a texts as hfirst hlater ih =>
    rw [List.cons_append, tokensAt_layOut_cons hgap]
    obtain ⟨q₁, hread⟩ := hfirst (q.after (gap 0).toList)
      (layOut (fun n => gap (n + 1)) (texts ++ more)).toList
    obtain ⟨q', gap', hgap', hmany⟩ := ih hgap.tail q₁
    exact ⟨q', gap', hgap', .more hread hmany⟩

theorem writes_fieldItems {f : Field} (h : f.Writable) :
    List.Forall₂ (Writes BodyItemAt) f.items (fieldItems f) := by
  have hfield := writes_field h.name h.value
  cases hset : f.hasMacro with
  | true => simpa [Field.items, fieldItems, hset] using ⟨writes_filler, hfield⟩
  | false => simpa [Field.items, fieldItems, hset] using hfield

theorem writes_bodyItems {r : Record} (h : r.Writable) :
    List.Forall₂ (Writes BodyItemAt) r.bodyTexts (bodyItems r) := by
  have hfields : ∀ fs : List Field, (∀ f ∈ fs, f.Writable) →
      List.Forall₂ (Writes BodyItemAt) (fs.flatMap Field.items) (fs.flatMap fieldItems) := by
    intro fs hfs
    induction fs with
    | nil => exact .nil
    | cons f fs ih =>
      rw [List.flatMap_cons, List.flatMap_cons]
      exact List.rel_append (writes_fieldItems (hfs f List.mem_cons_self))
        (ih fun g hg => hfs g (List.mem_cons_of_mem f hg))
  refine List.rel_append (List.rel_append (hfields r.fields h.fields) ?_) ?_
  · rw [List.forall₂_map_left_iff, List.forall₂_map_right_iff, List.forall₂_same]
    intro f hf
    exact writes_info (h.infos f hf).1.name (h.infos f hf).1.value
  · rw [List.forall₂_map_left_iff, List.forall₂_map_right_iff, List.forall₂_same]
    intro name hname
    exact writes_ownAlias (h.aliases name hname)

/-! ## Records and databases -/

theorem tokensAt_recordItem {r : Record} (h : r.Writable) (q : Position) (rest : List Char) :
    ∃ word opener ts q',
      tokensAt q (("record" ++ quotedPair r.type r.name ++ " \x7b").toList ++ rest) = word :: ts ∧
      word.kind = .recordWord ∧ Pair ts (r.type, r.name) (opener :: tokensAt q' rest) ∧
      opener.kind = .openBrace := by
  have htext : ("record" ++ quotedPair r.type r.name ++ " \x7b").toList ++ rest =
      ("record" ++ quotedPair r.type r.name).toList ++ ' ' :: '\x7b' :: rest := by simp
  obtain ⟨word, ts, q₁, htokens, hkind, hpair⟩ :=
    tokensAt_call "record" (by decide) (by decide) h.type h.name q (' ' :: '\x7b' :: rest)
  rw [tokensAt_blank (by decide), tokensAt_mark (by decide)] at hpair
  rw [htext, htokens]
  exact ⟨word, _, ts, _, rfl, hkind, hpair, rfl⟩

theorem recordAt_layOut {r : Record} (h : r.Writable) (more : List String) (hgap : AreBlank gap)
    (q : Position) :
    ∃ q' gap', AreBlank gap' ∧ RecordAt (tokensAt q (layOut gap (r.items ++ more)).toList) r
      (tokensAt q' (layOut gap' more).toList) := by
  have hitems : r.items ++ more = ("record" ++ quotedPair r.type r.name ++ " \x7b") ::
      (r.bodyTexts ++ "\x7d" :: more) := by simp [Record.items]
  rw [hitems, tokensAt_layOut_cons hgap]
  obtain ⟨word, opener, ts, q₁, htokens, hword, hpair, hopen⟩ :=
    tokensAt_recordItem h (q.after (gap 0).toList)
      (layOut (fun n => gap (n + 1)) (r.bodyTexts ++ "\x7d" :: more)).toList
  obtain ⟨q₂, gap', hgap', hbody⟩ := many_layOut (writes_bodyItems h) ("\x7d" :: more) hgap.tail q₁
  rw [tokensAt_layOut_cons hgap'] at hbody
  have hcloser := tokensAt_mark (c := '\x7d') (by decide) (q₂.after (gap' 0).toList)
    (layOut (fun n => gap' (n + 1)) more).toList
  have hrecord := RecordAt.withBody hword hpair .done hopen (hcloser ▸ hbody) rfl
  rw [recordOf_bodyItems h] at hrecord
  rw [htokens]
  exact ⟨_, _, hgap'.tail, hrecord⟩

theorem declarations_layOut {rs : List Record} (h : ∀ r ∈ rs, r.Writable) (hgap : AreBlank gap)
    (q : Position) :
    ∃ last, last.kind = .endOfFile ∧
      Many DeclarationAt (tokensAt q (layOut gap (rs.flatMap Record.items)).toList)
        (rs.map .record) [last] := by
  induction rs generalizing q gap with
  | nil =>
    have hblank := tokensAt_blanks (hgap 0) q []
    rw [List.append_nil] at hblank
    rw [List.flatMap_nil, layOut, hblank, tokensAt, lexemes, placeLexemes]
    exact ⟨_, rfl, .done⟩
  | cons r rs ih =>
    obtain ⟨q₁, gap', hgap', hrecord⟩ :=
      recordAt_layOut (h r List.mem_cons_self) (rs.flatMap Record.items) hgap q
    obtain ⟨last, hlast, hlater⟩ := ih (fun s hs => h s (List.mem_cons_of_mem r hs)) hgap' q₁
    exact ⟨last, hlast, .more (.record hrecord) hlater⟩

theorem addsAll_records (before rs : List Record) :
    AddsAll before (rs.map .record) (before ++ rs) := by
  induction rs generalizing before with
  | nil => simpa using AddsAll.done before
  | cons r rs ih =>
    have hlater := ih (before ++ [r])
    rw [List.append_assoc, List.singleton_append] at hlater
    exact .more (.record before r) hlater

theorem derives_canonicalText {db : Database} (h : db.Writable) (hgap : AreBlank gap) :
    Derives (tokenize (db.canonicalText gap)) db := by
  obtain ⟨last, hlast, hmany⟩ := declarations_layOut h.records hgap .start
  exact ⟨_, last, hmany, hlast, h.source, addsAll_records [] db.records⟩

end Grammar

/-- Reading the canonical text of a database gives the database, whatever blanks stand between the
items. -/
theorem parse_canonicalText {db : Database} (h : db.Writable) {gap : Nat → String}
    (hgap : AreBlank gap) : Database.parse (db.canonicalText gap) = .ok db :=
  Grammar.ofTokens_of_derives (Grammar.derives_canonicalText h hgap)

/-- The theorem at two records of one name with a field that is set twice and with escapes. -/
theorem parse_canonicalText_twins :
    let twin : Record := ⟨"ai", "A", [⟨"EGU", "\\\"K\\\"", true⟩, ⟨"EGU", "", false⟩],
      [⟨"autosave", "VAL", false⟩], ["B", "#"]⟩
    let db : Database := ⟨"", [twin, twin]⟩
    db.Writable ∧ AreBlank (fun _ => "\n") ∧
      Database.parse (db.canonicalText fun _ => "\n") = .ok db := by
  intro twin db
  have hdb : db.Writable := by decide +kernel
  have hblank : "\n".toList.all Lexeme.isBlank = true := by decide
  have hgap : AreBlank fun _ => "\n" := fun _ => List.all_eq_true.mp hblank
  exact ⟨hdb, hgap, parse_canonicalText hdb hgap⟩

end EpicsDb
