import EpicsDb.Proofs.JsonTexts
import EpicsDb.Toml.Reader
import Mathlib.Data.List.DropRight

/-!
# TOML texts

A document is made of lines, and what stands on a line is made of pieces with blanks between them.

* `Lines statements text` says that the text holds one statement after the other, each on a line of
  its own.  Empty lines and comments may stand anywhere.
* `Acts d ps d'` says what a line with the given pieces does to a document that is being read, and
  `Runs` what several of them do.  `lines_of_runs` is the induction along the lines of a text.
* `runs_flags`, `acts_header` and `acts_text` are the statements of a configuration.
-/

namespace EpicsDb.Toml

open Text (Spaced)

variable {c : Char} {cs ending rest tail text w : List Char} {name : String} {d d' : Draft}
  {entries : Entries}

/-! ## Strings -/

/-- How a character is written in quotes: as in JSON, apart from one more control character. -/
def escapeChar (c : Char) : List Char :=
  if c = '\x7f' then "\\u007f".toList else Json.escapeChar c

/-- A text as it is written in quotes. -/
def escape (text : List Char) : List Char :=
  text.flatMap escapeChar

/-- The characters that are written as they are. -/
def IsPlain (c : Char) : Prop :=
  Json.IsPlain c ∧ c ≠ '\x7f'

instance : DecidablePred IsPlain :=
  fun c => inferInstanceAs (Decidable (Json.IsPlain c ∧ c ≠ '\x7f'))

/-- Where no character is the further one, the text is written as in JSON. -/
theorem escape_of_isPlain (h : ∀ c ∈ text, IsPlain c) : escape text = text := by
  have hjson : escape text = Json.escape text :=
    List.flatMap_congr fun c hc => if_neg (h c hc).2
  rw [hjson, Json.escape_of_isPlain fun c hc => (h c hc).1]

theorem basicBody_escaped {e : List Char} (h : escape? (e ++ rest) = some (c, e.length)) :
    basicBody ('\\' :: (e ++ rest)) = before [c] (basicBody rest) := by
  rw [basicBody]
  simp [h]

theorem basicBody_escapeChar (c : Char) (rest : List Char) :
    basicBody (escapeChar c ++ rest) = before [c] (basicBody rest) := by
  rw [escapeChar]
  split_ifs with hdelete
  · subst hdelete
    exact basicBody_escaped rfl
  · rcases Json.escapeChar_cases c with ⟨e, hmem, hescape⟩ | ⟨hcontrol, hescape⟩ | ⟨hplain, hescape⟩
    · have hshort : escape? ([e] ++ rest) = some (c, 1) := by
        simp only [Json.shortEscapes, List.mem_cons, Prod.mk.injEq, List.not_mem_nil,
          or_false] at hmem
        rcases hmem with h | h | h | h | h | h | h <;> (rw [h.1, h.2]; rfl)
      rw [hescape]
      exact basicBody_escaped hshort
    · have hdigits := Json.fixedDigits?_controlDigits hcontrol rest
      have hlong : escape? ('u' :: Json.controlDigits c.toNat ++ rest) = some (c, 5) := by
        have hvalid : c.toNat.isValidChar := c.valid
        show escape?.scalar? 4 (Json.controlDigits c.toNat ++ rest) = _
        simp only [escape?.scalar?, hdigits, if_pos hvalid, Char.ofNat_toNat]
      rw [hescape]
      exact basicBody_escaped hlong
    · obtain ⟨hquote, hslash, hlarge⟩ := hplain
      have hprintable : isPrintable c = true := by
        have hother : c.toNat ≠ 0x7f := fun h => hdelete (Char.ext (UInt32.toNat_inj.mp h))
        simp [isPrintable, hlarge, hother]
      rw [hescape, List.singleton_append, basicBody, if_neg hquote, if_neg hslash,
        if_pos hprintable]

theorem basicBody_escape (text rest : List Char) :
    basicBody (escape text ++ '"' :: rest) = some (text, rest) := by
  induction text with
  | nil =>
    show basicBody ('"' :: rest) = _
    rw [basicBody, if_pos rfl]
  | cons c text ih =>
    rw [escape, List.flatMap_cons, List.append_assoc, basicBody_escapeChar]
    change before [c] (basicBody (escape text ++ '"' :: rest)) = _
    rw [ih]
    rfl

/-! ## Keys -/

/-- The key is written without quotes, or in quotes. -/
inductive SpellsKey : String → List Char → Prop where
  | bare {name : String} (hne : name ≠ "") (hbare : ∀ c ∈ name.toList, isBareChar c = true) :
      SpellsKey name name.toList
  | quoted (name : String) : SpellsKey name ('"' :: (escape name.toList ++ ['"']))

/-- The characters that stand at the start of a line without a key, or before its key. -/
def lineMarks : List Char :=
  [' ', '\t', '\n', '\r', '#', '[']

/-- What a key starts with does not start anything else. -/
theorem SpellsKey.exists_cons (h : SpellsKey name w) :
    ∃ c cs, w = c :: cs ∧ c ∉ lineMarks := by
  cases h with
  | bare hne hbare =>
    obtain ⟨c, cs, hcs⟩ := List.exists_cons_of_ne_nil (String.toList_eq_nil_iff.not.mpr hne)
    refine ⟨c, cs, hcs, fun hc => ?_⟩
    have hfirst := hbare c (by simp [hcs])
    have hnone : lineMarks.all (fun c => !isBareChar c) = true := by decide
    have hother := List.all_eq_true.mp hnone c hc
    simp [hfirst] at hother
  | quoted => exact ⟨_, _, rfl, by decide⟩

theorem isBlank_eq_false (hc : c ∉ lineMarks) : isBlank c = false := by
  simp only [lineMarks, List.mem_cons, not_or] at hc
  simp [isBlank, hc.1, hc.2.1]

theorem simpleKey_append (h : SpellsKey name w) (hrest : ∀ c ∈ rest.head?, isBareChar c = false) :
    simpleKey (w ++ rest) = some (name, rest) := by
  cases h with
  | bare hne hbare =>
    have hword : (name.toList ++ rest).takeWhile isBareChar = name.toList := by
      have hnone : rest.takeWhile isBareChar = [] := by
        cases rest with
        | nil => rfl
        | cons c rest => simp [hrest c rfl]
      rw [List.takeWhile_append_of_pos hbare, hnone, List.append_nil]
    have hstart : ∀ d cs, ¬isBareChar d = true → name.toList ++ rest ≠ d :: cs := by
      intro d cs hd hcs
      rw [hcs, List.takeWhile_cons_of_neg hd] at hword
      exact hne (String.toList_eq_nil_iff.mp hword.symm)
    unfold simpleKey
    split
    · exact absurd ‹_› (hstart '"' _ (by decide))
    · exact absurd ‹_› (hstart '\x27' _ (by decide))
    · simp [hword, hne, String.ofList_toList]
  | quoted =>
    rw [List.cons_append, List.append_assoc, List.singleton_append]
    show (basicBody (escape name.toList ++ '"' :: rest)).map _ = _
    rw [basicBody_escape]
    simp [String.ofList_toList]

/-- A key with blanks around it, up to the mark that follows. -/
theorem key_of_skip (h : SpellsKey name w) (hcs : skipBlanks cs = w ++ rest)
    (hc : c = '=' ∨ c = ']') (hrest : skipBlanks rest = c :: tail) :
    key cs = some (([], name), c :: tail) := by
  have hhead : ∀ d ∈ rest.head?, isBareChar d = false := by
    intro d hd
    obtain ⟨ds, rfl⟩ := List.head?_eq_some_iff.mp hd
    rw [skipBlanks, List.dropWhile_cons] at hrest
    split at hrest
    · rename_i hblank
      rcases (by simpa [isBlank] using hblank : d = ' ' ∨ d = '\t') with rfl | rfl <;> rfl
    · obtain rfl := (List.cons.inj hrest).1
      rcases hc with rfl | rfl <;> rfl
  have hparts : keyParts cs = some ([name], c :: tail) := by
    rw [keyParts, hcs, simpleKey_append h hhead]
    rcases hc with rfl | rfl <;> simp [hrest]
  rw [key, hparts]
  rfl

/-! ## Values -/

/-- The word for a truth value. -/
def flagWord (b : Bool) : List Char :=
  (if b then "true" else "false").toList

theorem value_flagWord (b : Bool) (rest : List Char) :
    value maxDepth (flagWord b ++ rest) = some (.bool b, rest) := by
  cases b <;> rfl

theorem value_quoted (text : List Char) (hrest : rest.head? ≠ some '"') :
    value maxDepth ('"' :: (escape text ++ '"' :: rest)) =
      some (.string (String.ofList text), rest) := by
  have hquoted : quotedText ('"' :: (escape text ++ '"' :: rest)) =
      basicBody (escape text ++ '"' :: rest) := by
    -- three quotes would start a string over several lines
    have hthree : ∀ cs, escape text ++ '"' :: rest ≠ '"' :: '"' :: cs := by
      intro cs hcs
      have hbody := basicBody_escape text rest
      rw [hcs, basicBody, if_pos rfl] at hbody
      obtain ⟨rfl, rfl⟩ := Prod.mk.inj (Option.some.inj hbody)
      exact hrest rfl
    rw [quotedText]
    exact fun cs hcs => hthree cs hcs
  show (quotedText _).map _ = _
  rw [hquoted, basicBody_escape]
  rfl

/-! ## Statements -/

/-- A line with the given pieces turns one document that is being read into another one. -/
def Acts (d : Draft) (ps : List (List Char)) (d' : Draft) : Prop :=
  ∀ text rest, Spaced isBlank ps text → rest.head? ≠ some '"' →
    line d (skipBlanks (text ++ rest)) = some (d', rest)

/-- The line gives a key a value. -/
theorem acts_keyValue {v : Toml} (hname : SpellsKey name w) (hc : isBlank c = false)
    (hvalue : ∀ rest, rest.head? ≠ some '"' →
      value maxDepth (c :: (cs ++ rest)) = some (v, rest))
    (hdefine : update (define name v []) d.path d.entries = some entries) :
    Acts d [w, ['='], c :: cs] { d with entries := entries } := by
  intro text rest htext hrest
  obtain ⟨k, ks, hw, hk⟩ := hname.exists_cons
  rw [hw] at htext
  obtain ⟨afterKey, hafterKey, hskip⟩ := htext.skip (isBlank_eq_false hk) rest
  obtain ⟨afterEquals, hafterEquals, hskip'⟩ := hafterKey.skip (by decide) rest
  have hskip'' := hafterEquals.skip_last hc rest
  have hkey : key (k :: (ks ++ (afterKey ++ rest))) =
      some (([], name), '=' :: (afterEquals ++ rest)) := by
    refine key_of_skip hname ?_ (.inl rfl) hskip'
    rw [skipBlanks, List.dropWhile_cons_of_neg (by simp [isBlank_eq_false hk]), hw,
      List.cons_append]
  have hpair : keyValue (value maxDepth) (k :: (ks ++ (afterKey ++ rest))) =
      some ((([], name), v), rest) := by
    rw [keyValue, hkey]
    show (value maxDepth ((afterEquals ++ rest).dropWhile isBlank)).bind _ = _
    rw [hskip'', hvalue rest hrest]
    rfl
  simp only [lineMarks, List.mem_cons, List.not_mem_nil, not_or] at hk
  rw [skipBlanks, hskip, line, hpair]
  · simp [hk, hdefine]
  · exact fun _ hbracket _ => hk.2.2.2.2.2.1 hbracket
  · exact hk.2.2.2.2.2.1

theorem acts_flag {b : Bool} (hname : SpellsKey name w)
    (hdefine : update (define name (.bool b) []) d.path d.entries = some entries) :
    Acts d [w, ['='], flagWord b] { d with entries := entries } := by
  cases b with
  | true => exact acts_keyValue hname (by decide) (fun rest _ => value_flagWord true rest) hdefine
  | false => exact acts_keyValue hname (by decide) (fun rest _ => value_flagWord false rest) hdefine

theorem acts_text {s : String} (hname : SpellsKey name w) (hplain : ∀ c ∈ s.toList, IsPlain c)
    (hdefine : update (define name (.string s) []) d.path d.entries = some entries) :
    Acts d [w, ['='], '"' :: (s.toList ++ ['"'])] { d with entries := entries } := by
  refine acts_keyValue hname (by decide) ?_ hdefine
  intro rest hrest
  have hvalue := value_quoted s.toList hrest
  rw [escape_of_isPlain hplain, String.ofList_toList] at hvalue
  rw [List.append_assoc, List.singleton_append]
  exact hvalue

/-- The line is the header of a table. -/
theorem acts_header (hname : SpellsKey name w)
    (hopen : openTable [name] d.entries = some entries) :
    Acts d [['['], w, [']']] ⟨entries, [name]⟩ := by
  intro text rest htext _
  obtain ⟨k, ks, hw, hk⟩ := hname.exists_cons
  rw [hw] at htext
  obtain ⟨later, hlater, hskip⟩ := htext.skip (by decide) rest
  obtain ⟨afterKey, hafterKey, hskip'⟩ := hlater.skip (isBlank_eq_false hk) rest
  have hclose := hafterKey.skip_last (by decide) rest
  have hkey : key (later ++ rest) = some (([], name), ']' :: rest) := by
    refine key_of_skip hname ?_ (.inr rfl) hclose
    rw [hw, List.cons_append]
    exact hskip'
  -- two brackets would be another kind of header
  have hone : ∀ cs, later ++ rest ≠ '[' :: cs := by
    intro cs hcs
    rw [hcs] at hskip'
    have hbracket : k = '[' := (List.cons.inj hskip').1.symm
    exact hk (by simp [hbracket, lineMarks])
  rw [skipBlanks, hskip, List.nil_append, line, header, hkey]
  · show (openTable [name] d.entries).bind _ = _
    rw [hopen]
    rfl
  · exact fun cs hcs => hone cs hcs

/-- The lines, one after the other, turn one document that is being read into another one. -/
inductive Runs : Draft → List (List (List Char)) → Draft → Prop where
  | nil (d : Draft) : Runs d [] d
  | cons {d d' d'' : Draft} {ps : List (List Char)} {statements : List (List (List Char))}
      (first : Acts d ps d') (later : Runs d' statements d'') : Runs d (ps :: statements) d''

theorem Runs.append {d'' : Draft} {ss ts : List (List (List Char))} (h : Runs d ss d')
    (h' : Runs d' ts d'') : Runs d (ss ++ ts) d'' := by
  induction h with
  | nil => exact h'
  | cons first later ih => exact .cons first (ih h')

/-- The pieces of a line that gives a key a truth value. -/
def SetsFlag (p : String × Bool) (ps : List (List Char)) : Prop :=
  ∃ w, SpellsKey p.1 w ∧ ps = [w, ['='], flagWord p.2]

/-- The pieces of a line that gives a key a text, which is written as it is. -/
def SetsText (p : String × String) (ps : List (List Char)) : Prop :=
  ∃ w, SpellsKey p.1 w ∧ ps = [w, ['='], '"' :: (p.2.toList ++ ['"'])]

/-- The pieces of the header of a table. -/
def OpensTable (name : String) (ps : List (List Char)) : Prop :=
  ∃ w, SpellsKey name w ∧ ps = [['['], w, [']']]

theorem lookup_of_notMem (h : name ∉ entries.map (·.1)) : entries.lookup name = none := by
  rw [List.lookup_eq_none_iff]
  intro p hp
  simpa using fun hname : name = p.1 => h (hname ▸ List.mem_map_of_mem hp)

theorem define_of_notMem {v : Toml} (h : name ∉ entries.map (·.1)) :
    define name v [] entries = some (entries ++ [(name, v)]) := by
  rw [define, lookup_of_notMem h]

theorem openTable_of_notMem (h : name ∉ entries.map (·.1)) :
    openTable [name] entries = some (entries ++ [(name, .table .header [])]) := by
  rw [openTable, descend, lookup_of_notMem h]

theorem replace_last {v u : Toml} (h : name ∉ entries.map (·.1)) :
    replace (entries ++ [(name, u)]) name v = entries ++ [(name, v)] := by
  have hothers : replace entries name v = entries := by
    rw [replace, List.map_congr_left (g := id), List.map_id]
    intro p hp
    have hne : p.1 ≠ name := fun hname => h (hname ▸ List.mem_map_of_mem hp)
    exact if_neg hne
  rw [replace, List.map_append]
  exact congrArg₂ (· ++ ·) hothers (by simp)

/-- Changes to the table that was opened last. -/
theorem update_last {change : Entries → Option Entries} {origin : Origin} {inner inner' : Entries}
    (h : name ∉ entries.map (·.1)) (hchange : change inner = some inner') :
    update change [name] (entries ++ [(name, .table origin inner)]) =
      some (entries ++ [(name, .table origin inner')]) := by
  have hlookup : (entries ++ [(name, Toml.table origin inner)]).lookup name =
      some (.table origin inner) := by
    rw [List.lookup_append, lookup_of_notMem h]
    simp
  rw [update, hlookup]
  simp only [update, hchange, Option.map_some, replace_last h]

/-- Lines for distinct new keys add them in their order. -/
theorem runs_flags {flags : List (String × Bool)} {statements : List (List (List Char))}
    (h : List.Forall₂ SetsFlag flags statements)
    (hnodup : (entries.map (·.1) ++ flags.map (·.1)).Nodup) :
    Runs ⟨entries, []⟩ statements ⟨entries ++ flags.map fun p => (p.1, .bool p.2), []⟩ := by
  induction h generalizing entries with
  | nil =>
    rw [List.map_nil, List.append_nil]
    exact .nil _
  | @cons p ps flags statements hp later ih =>
    obtain ⟨w, hw, rfl⟩ := hp
    have hnew : p.1 ∉ entries.map (·.1) := by
      intro hmem
      exact (List.nodup_append.mp hnodup).2.2 _ hmem p.1 (by simp) rfl
    have hkeys : ((entries ++ [(p.1, Toml.bool p.2)]).map (·.1) ++ flags.map (·.1)).Nodup := by
      simpa using hnodup
    have hlater := ih hkeys
    rw [List.append_assoc, List.singleton_append] at hlater
    exact .cons (acts_flag hw (define_of_notMem hnew)) hlater

/-! ## Lines -/

/-- What may stand at the end of a line: blanks and a comment. -/
def IsTail (tail : List Char) : Prop :=
  ∃ gap comment, tail = gap ++ comment ∧ (∀ c ∈ gap, isBlank c = true) ∧
    (comment = [] ∨ ∃ cs, comment = '#' :: cs ∧ ∀ c ∈ cs, isPrintable c = true)

/-- The line ends with a line break before `rest`, or with the document. -/
def EndsLine (ending rest : List Char) : Prop :=
  ending = '\n' :: rest ∨ ending = '\r' :: '\n' :: rest ∨ ending = [] ∧ rest = []

/-- The statements stand one after the other, each on a line of its own. -/
inductive Lines : List (List (List Char)) → List Char → Prop where
  | done : Lines [] []
  | skip {statements : List (List (List Char))} {tail ending text : List Char}
      (htail : IsTail tail) (hending : EndsLine ending text) (later : Lines statements text) :
      Lines statements (tail ++ ending)
  | line {ps : List (List Char)} {statements : List (List (List Char))}
      {words tail ending text : List Char} (hne : words ≠ []) (hwords : Spaced isBlank ps words)
      (htail : IsTail tail) (hending : EndsLine ending text) (later : Lines statements text) :
      Lines (ps :: statements) (words ++ (tail ++ ending))

theorem afterLine?_skipBlanks (cs : List Char) : afterLine? (skipBlanks cs) = afterLine? cs := by
  have htwice : skipBlanks (skipBlanks cs) = skipBlanks cs := List.dropWhile_idempotent _ _
  rw [afterLine?, htwice]
  rfl

theorem EndsLine.head?_cases (h : EndsLine ending rest) :
    ending.head? = none ∨ ending.head? = some '\n' ∨ ending.head? = some '\r' := by
  rcases h with rfl | rfl | ⟨rfl, -⟩
  · exact .inr (.inl rfl)
  · exact .inr (.inr rfl)
  · exact .inl rfl

/-- Skipping blanks leads to the comment or to the end of the line. -/
theorem skipBlanks_tail (htail : IsTail tail) (hending : EndsLine ending rest) :
    skipBlanks (tail ++ ending) = ending ∨
      ∃ cs, skipBlanks (tail ++ ending) = '#' :: (cs ++ ending) ∧
        ∀ c ∈ cs, isPrintable c = true := by
  obtain ⟨gap, comment, rfl, hgap, hcomment⟩ := htail
  rcases hcomment with rfl | ⟨cs, rfl, hcs⟩
  · left
    rw [List.append_nil, skipBlanks]
    rcases hending with rfl | rfl | ⟨rfl, -⟩
    · exact Text.dropWhile_gap hgap (by decide) _
    · exact Text.dropWhile_gap hgap (by decide) _
    · rw [List.append_nil]
      exact List.dropWhile_eq_nil_iff.mpr hgap
  · right
    refine ⟨cs, ?_, hcs⟩
    rw [List.append_assoc, List.cons_append]
    exact Text.dropWhile_gap hgap (by decide) _

theorem afterLine?_tail (htail : IsTail tail) (hending : EndsLine ending rest) :
    afterLine? (tail ++ ending) = some rest := by
  have hbreak : (if ending.isEmpty then some [] else afterBreak? ending) = some rest := by
    rcases hending with rfl | rfl | ⟨rfl, rfl⟩ <;> rfl
  rw [afterLine?]
  rcases skipBlanks_tail htail hending with hskip | ⟨cs, hskip, hcs⟩
  · have hhead : ending.head? ≠ some '#' := by
      rcases hending.head?_cases with h | h | h <;> simp [h]
    simp only [hskip, if_neg hhead]
    exact hbreak
  · have hcomment : ('#' :: (cs ++ ending)).dropWhile isPrintable = ending := by
      have hstop : ending.dropWhile isPrintable = ending := by
        rcases hending with rfl | rfl | ⟨rfl, -⟩ <;> rfl
      rw [List.dropWhile_cons_of_pos (by decide), List.dropWhile_append_of_pos hcs, hstop]
    simp only [hskip, List.head?_cons, if_true, hcomment]
    exact hbreak

theorem head?_tail_ne_quote (htail : IsTail tail) (hending : EndsLine ending rest) :
    (tail ++ ending).head? ≠ some '"' := by
  intro hhead
  have hskip : (skipBlanks (tail ++ ending)).head? = some '"' := by
    obtain ⟨cs, hcs⟩ := List.head?_eq_some_iff.mp hhead
    rw [hcs]
    rfl
  rcases skipBlanks_tail htail hending with h | ⟨cs, h, -⟩
  · rw [h] at hskip
    rcases hending.head?_cases with h | h | h <;> simp [h] at hskip
  · simp [h] at hskip

/-- A line without a statement changes nothing. -/
theorem line_tail (d : Draft) (htail : IsTail tail) (hending : EndsLine ending rest) :
    line d (skipBlanks (tail ++ ending)) = some (d, skipBlanks (tail ++ ending)) := by
  rcases skipBlanks_tail htail hending with hskip | ⟨cs, hskip, -⟩
  · rw [hskip]
    rcases hending with rfl | rfl | ⟨rfl, -⟩ <;> rfl
  · rw [hskip]
    rfl

theorem EndsLine.length_le (h : EndsLine ending rest) : rest.length ≤ ending.length := by
  rcases h with rfl | rfl | ⟨rfl, rfl⟩
  · exact Nat.le_succ _
  · exact Nat.le_add_right _ 2
  · exact Nat.le_refl 0

theorem EndsLine.eq_nil (h : EndsLine [] rest) : rest = [] := by
  rcases h with h | h | ⟨-, rfl⟩
  · exact absurd h (by simp)
  · exact absurd h (by simp)
  · rfl

/-- One line, and what stands on the others. -/
theorem lines_step {cs rest' : List Char} (hne : cs ≠ [])
    (hline : line d (skipBlanks cs) = some (d', rest')) (hafter : afterLine? rest' = some rest)
    (hshorter : rest.length < cs.length) : lines d cs = lines d' rest := by
  rw [lines]
  · simp [hline, hafter, hshorter]
  · exact hne

/-- Reading a document carries out its statements. -/
theorem lines_of_runs {statements : List (List (List Char))} (h : Lines statements text)
    (hruns : Runs d statements d') : lines d text = some d'.entries := by
  induction h generalizing d with
  | done =>
    cases hruns
    rw [lines]
  | @skip statements tail ending text htail hending later ih =>
    by_cases hne : tail ++ ending = []
    · -- the line is the empty end of the document
      obtain ⟨rfl, rfl⟩ := List.append_eq_nil_iff.mp hne
      obtain rfl := hending.eq_nil
      exact ih hruns
    · have hafter : afterLine? (skipBlanks (tail ++ ending)) = some text := by
        rw [afterLine?_skipBlanks]
        exact afterLine?_tail htail hending
      have hshorter : text.length < (tail ++ ending).length := by
        rcases hending with rfl | rfl | ⟨rfl, rfl⟩
        · simp
          omega
        · simp
          omega
        · exact List.length_pos_of_ne_nil hne
      rw [lines_step hne (line_tail d htail hending) hafter hshorter]
      exact ih hruns
  | @line ps statements words tail ending text hne hwords htail hending later ih =>
    cases hruns with
    | @cons _ d₁ _ _ _ first hlater =>
      have hline := first words (tail ++ ending) hwords (head?_tail_ne_quote htail hending)
      have hlength := List.length_pos_of_ne_nil hne
      have hshorter : text.length < (words ++ (tail ++ ending)).length := by
        have hle := hending.length_le
        simp only [List.length_append]
        omega
      rw [lines_step (by simp [hne]) hline (afterLine?_tail htail hending) hshorter]
      exact ih hlater

/-- The mark starts no line. -/
theorem lines_byteOrderMark (d : Draft) (cs : List Char) : lines d ('\ufeff' :: cs) = none := by
  have hkey : key ('\ufeff' :: cs) = none := by
    rw [key, keyParts]
    rfl
  have hline : line d (skipBlanks ('\ufeff' :: cs)) = none := by
    show (keyValue (value maxDepth) ('\ufeff' :: cs)).bind _ = none
    rw [keyValue, hkey]
    rfl
  rw [lines, hline]
  exact List.cons_ne_nil _ _

theorem parse_of_runs {statements : List (List (List Char))} {text : String} {path : List String}
    (h : Lines statements text.toList) (hruns : Runs ⟨[], []⟩ statements ⟨entries, path⟩) :
    parse text = some (.table .header entries) := by
  have hlines := lines_of_runs h hruns
  have hmark : text.toList.head? ≠ some '\ufeff' := by
    intro hhead
    obtain ⟨cs, hcs⟩ := List.head?_eq_some_iff.mp hhead
    rw [hcs, lines_byteOrderMark] at hlines
    exact absurd hlines (by simp)
  simp [parse, hmark, hlines]

end EpicsDb.Toml
