import EpicsDb.Proofs.Lexing
import Mathlib.Computability.Language

/-!
# Longest matches

The lexemes of a database file are described by a table of rules: some rules have a fixed text, and
the others have a language made of characters by union, concatenation and repetition.  At every
place of a text the lexeme is the longest text that a rule matches there.

* `Rule.table` is the table.  `Rule.matches_iff` says which texts its rules match, without unions
  and repetitions, and `Rule.matched_cases` sorts these texts by how they start.
* `Rule.length_le_first` and `Rule.matches_first` compare the scanner with the table: it takes at
  least as much as every rule, and a rule matches what it takes unless it gives up.  Then no rule
  matches at all, which is `Rule.first_ne_unknown`.
* `Rule.Chooses` says which lexeme the table chooses, and `lexemes_longest_match` that it is the one
  that is cut, at every place of every text.
-/

namespace EpicsDb

open Computability

/-- A rule: the texts of its language are lexemes of its kind. -/
structure Rule where
  kind : Kind
  language : Language Char

namespace Rule

variable {p : Char → Prop} {c : Char} {cs w v rest : List Char} {r : Rule}

/-! ## The table -/

/-- The texts of one character of a class. -/
def one (p : Char → Prop) : Language Char :=
  {w | ∃ c, p c ∧ w = [c]}

/-- The texts of one or more characters of a class. -/
def run (p : Char → Prop) : Language Char :=
  one p * (one p)∗

/-- The blanks: space, tab, carriage return, line feed and form feed. -/
def IsBlank (c : Char) : Prop :=
  c ∈ [' ', '\t', '\r', '\n', '\x0c']

/-- The characters of words: letters and digits of ASCII and four others. -/
def IsWordChar (c : Char) : Prop :=
  ('a' ≤ c ∧ c ≤ 'z') ∨ ('A' ≤ c ∧ c ≤ 'Z') ∨ ('0' ≤ c ∧ c ≤ '9') ∨ c ∈ ['_', '.', ':', '-']

/-- What stands between quotes: characters other than a quote, a backslash and a line feed, and
escapes of characters other than a line feed. -/
def inQuotes : Language Char :=
  (one (· ∉ ['"', '\\', '\n']) + {['\\']} * one (· ≠ '\n'))∗

/-- The words that are not literals. -/
def keywords : List (Kind × String) :=
  [(.recordWord, "record"), (.recordWord, "grecord"), (.fieldWord, "field"), (.infoWord, "info"),
    (.aliasWord, "alias")]

/-- The other fixed texts. -/
def symbols : List (Kind × String) :=
  [(.bracketMacro, "$("), (.braceMacro, "$\x7b"), (.openBracket, "("), (.closeBracket, ")"),
    (.openBrace, "\x7b"), (.closeBrace, "\x7d"), (.comma, ","), (.equals, "="), (.hash, "#")]

/-- The rule for a fixed text. -/
def ofText (kind : Kind) (text : String) : Rule :=
  ⟨kind, {text.toList}⟩

/-- The characters that no other rule starts with. -/
def IsUnknown (c : Char) : Prop :=
  ¬IsBlank c ∧ ¬IsWordChar c ∧ c ∉ ['(', ')', '\x7b', '\x7d', ',', '=', '"', '#', '$']

/-- The rules of a database file. -/
def table : List Rule :=
  (symbols ++ keywords).map (fun (kind, text) => ofText kind text) ++
    [⟨.quoted, {['"']} * inQuotes * {['"']}⟩, ⟨.blank, run IsBlank⟩, ⟨.literal, run IsWordChar⟩,
      ⟨.unknown, one IsUnknown⟩]

instance : DecidablePred IsBlank :=
  fun c => inferInstanceAs (Decidable (c ∈ _))

instance : DecidablePred IsWordChar :=
  fun _ => inferInstanceAs (Decidable (_ ∨ _))

/-- Some rule of the kind matches the text. -/
def Matches (kind : Kind) (w : List Char) : Prop :=
  ∃ r ∈ table, r.kind = kind ∧ w ∈ r.language

/-! ## The languages of the rules -/

theorem isBlank_iff : IsBlank c ↔ Lexeme.isBlank c = true := by
  simp [IsBlank, Lexeme.isBlank, or_assoc]

theorem isAlphanum_iff :
    c.isAlphanum = true ↔ ('a' ≤ c ∧ c ≤ 'z') ∨ ('A' ≤ c ∧ c ≤ 'Z') ∨ ('0' ≤ c ∧ c ≤ '9') := by
  have hupper : c.isUpper = true ↔ 'A' ≤ c ∧ c ≤ 'Z' := decide_eq_true_iff
  have hlower : c.isLower = true ↔ 'a' ≤ c ∧ c ≤ 'z' :=
    Bool.and_eq_true_iff.trans (and_congr decide_eq_true_iff decide_eq_true_iff)
  have hdigit : c.isDigit = true ↔ '0' ≤ c ∧ c ≤ '9' :=
    Bool.and_eq_true_iff.trans (and_congr decide_eq_true_iff decide_eq_true_iff)
  show ((c.isUpper || c.isLower) || c.isDigit) = true ↔ _
  rw [Bool.or_eq_true, Bool.or_eq_true, hupper, hlower, hdigit, or_comm (a := 'A' ≤ c ∧ c ≤ 'Z'),
    or_assoc]

theorem isWordChar_iff : IsWordChar c ↔ Lexeme.isWordChar c = true := by
  simp only [IsWordChar, Lexeme.isWordChar, Bool.or_eq_true, beq_iff_eq, isAlphanum_iff,
    List.mem_cons, List.not_mem_nil, or_false, or_assoc]

theorem mem_one_iff : w ∈ one p ↔ ∃ c, p c ∧ w = [c] :=
  Iff.rfl

/-- Repeated choices of one character are texts of characters of the class. -/
theorem mem_kstar_one_iff : w ∈ (one p)∗ ↔ ∀ c ∈ w, p c := by
  rw [Language.mem_kstar]
  constructor
  · rintro ⟨parts, rfl, hparts⟩ c hc
    obtain ⟨part, hpart, hmem⟩ := List.mem_flatten.mp hc
    obtain ⟨d, hd, rfl⟩ := hparts part hpart
    obtain rfl : c = d := by simpa using hmem
    exact hd
  · intro h
    refine ⟨w.map ([·]), ?_, ?_⟩
    · rw [← List.flatMap_def, List.flatMap_singleton']
    intro part hpart
    obtain ⟨c, hc, rfl⟩ := List.mem_map.mp hpart
    exact ⟨c, h c hc, rfl⟩

theorem mem_run_iff : w ∈ run p ↔ w ≠ [] ∧ ∀ c ∈ w, p c := by
  rw [run, Language.mem_mul]
  constructor
  · rintro ⟨_, ⟨c, hc, rfl⟩, cs, hcs, rfl⟩
    rw [mem_kstar_one_iff] at hcs
    exact ⟨by simp, by simpa using ⟨hc, hcs⟩⟩
  · intro ⟨hne, hall⟩
    obtain ⟨c, cs, rfl⟩ := List.exists_cons_of_ne_nil hne
    rw [List.forall_mem_cons] at hall
    exact ⟨[c], ⟨c, hall.1, rfl⟩, cs, mem_kstar_one_iff.mpr hall.2, rfl⟩

theorem mem_inQuotes_iff : w ∈ inQuotes ↔ Quotable w := by
  rw [inQuotes, Language.mem_kstar]
  constructor
  · rintro ⟨parts, rfl, hparts⟩
    induction parts with
    | nil => exact .nil
    | cons part parts ih =>
      rw [List.forall_mem_cons] at hparts
      have hlater : Quotable parts.flatten := ih hparts.2
      rcases hparts.1 with ⟨c, hc, rfl⟩ | ⟨_, rfl, _, ⟨c, hc, rfl⟩, rfl⟩
      · simp only [List.mem_cons, List.not_mem_nil, or_false, not_or] at hc
        exact .plain hc.1 hc.2.1 hc.2.2 hlater
      · exact .escaped hc hlater
  · intro h
    induction h with
    | nil => exact ⟨[], rfl, by simp⟩
    | @plain c cs hquote hslash hline later ih =>
      obtain ⟨parts, rfl, hparts⟩ := ih
      refine ⟨[c] :: parts, rfl, List.forall_mem_cons.mpr ⟨.inl ⟨c, ?_, rfl⟩, hparts⟩⟩
      simp [hquote, hslash, hline]
    | @escaped c cs hline later ih =>
      obtain ⟨parts, rfl, hparts⟩ := ih
      exact ⟨['\\', c] :: parts, rfl,
        List.forall_mem_cons.mpr ⟨.inr ⟨_, rfl, _, ⟨c, hline, rfl⟩, rfl⟩, hparts⟩⟩

theorem mem_quoted_iff :
    w ∈ ({['"']} * inQuotes * {['"']} : Language Char) ↔
      ∃ cs, w = '"' :: (cs ++ ['"']) ∧ Quotable cs := by
  constructor
  · rintro ⟨_, ⟨_, rfl, cs, hcs, rfl⟩, _, rfl, rfl⟩
    exact ⟨cs, rfl, mem_inQuotes_iff.mp hcs⟩
  · rintro ⟨cs, rfl, hcs⟩
    exact ⟨_, ⟨_, rfl, cs, mem_inQuotes_iff.mpr hcs, rfl⟩, _, rfl, rfl⟩

theorem isUnknown_iff : IsUnknown c ↔ IsMark c ∧ Lexeme.markKind c = .unknown := by
  rw [IsUnknown, isBlank_iff, isWordChar_iff, IsMark, Lexeme.markKind]
  split_ifs <;> simp_all

theorem matches_ofText_iff {kind : Kind} {texts : List (Kind × String)} :
    (∃ r ∈ texts.map (fun (kind, text) => ofText kind text), r.kind = kind ∧ w ∈ r.language) ↔
      (kind, String.ofList w) ∈ texts := by
  simp only [List.mem_map, Prod.exists]
  constructor
  · rintro ⟨_, ⟨kind, text, hmem, rfl⟩, rfl, rfl⟩
    simpa [ofText] using hmem
  · intro hmem
    exact ⟨_, ⟨kind, _, hmem, rfl⟩, rfl, String.toList_ofList.symm⟩

theorem matches_iff {kind : Kind} :
    Matches kind w ↔ (kind, String.ofList w) ∈ symbols ++ keywords ∨
      (kind = .quoted ∧ ∃ cs, w = '"' :: (cs ++ ['"']) ∧ Quotable cs) ∨
      (kind = .blank ∧ w ≠ [] ∧ ∀ c ∈ w, Lexeme.isBlank c = true) ∨
      (kind = .literal ∧ w ≠ [] ∧ ∀ c ∈ w, Lexeme.isWordChar c = true) ∨
      (kind = .unknown ∧ ∃ c, (IsMark c ∧ Lexeme.markKind c = .unknown) ∧ w = [c]) := by
  simp only [Matches, table, List.mem_append (s := List.map _ _), or_and_right, exists_or,
    matches_ofText_iff, List.mem_cons, List.not_mem_nil, or_false, exists_eq_left, mem_quoted_iff,
    mem_run_iff, mem_one_iff, isBlank_iff, isWordChar_iff, isUnknown_iff, eq_comm (a := kind)]

/-! ## What the rules match, by the first character -/

theorem symbol_cases {kind : Kind} (h : (kind, String.ofList w) ∈ symbols) :
    w = ['$', '('] ∨ w = ['$', '\x7b'] ∨ ∃ c, IsMark c ∧ w = [c] := by
  have hall : ∀ text ∈ symbols, text.2.toList = ['$', '('] ∨ text.2.toList = ['$', '\x7b'] ∨
      text.2.toList.length = 1 ∧ text.2.toList.all (fun c => IsMark c) = true := by decide
  have hw := hall _ h
  rw [String.toList_ofList] at hw
  rcases hw with hbracket | hbrace | ⟨hlength, hmark⟩
  · exact .inl hbracket
  · exact .inr (.inl hbrace)
  · obtain ⟨c, rfl⟩ := List.length_eq_one_iff.mp hlength
    exact .inr (.inr ⟨c, by simpa using hmark, rfl⟩)

theorem keyword_chars {kind : Kind} (h : (kind, String.ofList w) ∈ keywords) :
    w ≠ [] ∧ ∀ c ∈ w, Lexeme.isWordChar c = true := by
  have hall : ∀ text ∈ keywords,
      text.2.toList ≠ [] ∧ text.2.toList.all Lexeme.isWordChar = true := by decide
  have hw := hall _ h
  rw [String.toList_ofList] at hw
  exact ⟨hw.1, List.all_eq_true.mp hw.2⟩

theorem matched_cases {kind : Kind} (h : Matches kind w) :
    (w ≠ [] ∧ ∀ c ∈ w, Lexeme.isBlank c = true) ∨
      (w ≠ [] ∧ ∀ c ∈ w, Lexeme.isWordChar c = true) ∨
      (∃ cs, w = '"' :: (cs ++ ['"']) ∧ Quotable cs) ∨
      (w = ['$', '('] ∨ w = ['$', '\x7b']) ∨ ∃ c, IsMark c ∧ w = [c] := by
  rcases matches_iff.mp h with hfixed | ⟨-, hquoted⟩ | ⟨-, hblank⟩ | ⟨-, hword⟩ | ⟨-, c, hc, hw⟩
  · rcases List.mem_append.mp hfixed with hsymbol | hkeyword
    · rcases symbol_cases hsymbol with hbracket | hbrace | hmark
      · exact .inr (.inr (.inr (.inl (.inl hbracket))))
      · exact .inr (.inr (.inr (.inl (.inr hbrace))))
      · exact .inr (.inr (.inr (.inr hmark)))
    · exact .inr (.inl (keyword_chars hkeyword))
  · exact .inr (.inr (.inl hquoted))
  · exact .inl hblank
  · exact .inr (.inl hword)
  · exact .inr (.inr (.inr (.inr ⟨c, hc.1, hw⟩)))

/-! ## The scanner and the table -/

theorem first_of_cuts {kind : Kind} (h : Cuts kind w rest) (hsplit : w ++ rest = c :: cs) :
    (Lexeme.first c cs).1 = kind ∧ w.length = (Lexeme.first c cs).2 + 1 := by
  obtain ⟨d, ds, rfl, hfirst⟩ := h
  obtain ⟨rfl, rfl⟩ := List.cons.inj hsplit
  change (Lexeme.first d (ds ++ rest)).1 = kind ∧ _ = (Lexeme.first d (ds ++ rest)).2 + 1
  rw [hfirst]
  exact ⟨rfl, rfl⟩

/-- A run of characters of a class at the head of a text is not longer than the whole run. -/
theorem length_le_takeWhile {q : Char → Bool} (hall : ∀ c ∈ w, q c = true) (rest : List Char) :
    w.length ≤ ((w ++ rest).takeWhile q).length := by
  rw [List.takeWhile_append_of_pos hall, List.length_append]
  omega

/-- The scanner takes what a rule matches, or more. -/
theorem length_le_first {kind : Kind} (h : Matches kind v) (hstart : v <+: c :: cs) :
    v.length ≤ (Lexeme.first c cs).2 + 1 := by
  obtain ⟨rest, hrest⟩ := hstart
  rcases matched_cases h with ⟨hne, hblank⟩ | ⟨hne, hword⟩ | ⟨ds, rfl, hds⟩ | hmacro | ⟨d, hd, rfl⟩
  · obtain ⟨d, ds, rfl⟩ := List.exists_cons_of_ne_nil hne
    obtain ⟨rfl, rfl⟩ := List.cons.inj hrest
    rw [List.forall_mem_cons] at hblank
    rw [first_blank hblank.1]
    exact Nat.succ_le_succ (length_le_takeWhile hblank.2 rest)
  · obtain ⟨d, ds, rfl⟩ := List.exists_cons_of_ne_nil hne
    obtain ⟨rfl, rfl⟩ := List.cons.inj hrest
    rw [List.forall_mem_cons] at hword
    rw [first_wordChar hword.1]
    exact Nat.succ_le_succ (length_le_takeWhile hword.2 rest)
  · exact (first_of_cuts (cuts_quoted hds) hrest).2.le
  · rcases hmacro with rfl | rfl
    · exact (first_of_cuts cuts_bracketMacro hrest).2.le
    · exact (first_of_cuts cuts_braceMacro hrest).2.le
  · exact Nat.le_add_left 1 _

theorem head?_of_matched {kind : Kind} (h : Matches kind v) (hstart : v <+: c :: cs) :
    v.head? = some c := by
  have hne : v ≠ [] := by
    rintro rfl
    rcases matched_cases h with ⟨hne, -⟩ | ⟨hne, -⟩ | ⟨ds, hds, -⟩ | hmacro | ⟨d, -, hd⟩
    · exact hne rfl
    · exact hne rfl
    · simp at hds
    · simp at hmacro
    · simp at hd
  rcases List.prefix_cons_iff.mp hstart with rfl | ⟨ds, rfl, -⟩
  · exact absurd rfl hne
  · rfl

/-- Where a rule matches, the scanner does not give up on a quote or a dollar. -/
theorem first_ne_unknown {kind : Kind} (h : Matches kind v) (hstart : v <+: c :: cs)
    (hc : c = '"' ∨ c = '$') : (Lexeme.first c cs).1 ≠ .unknown := by
  have hmem : c ∈ v := List.mem_of_head? (head?_of_matched h hstart)
  obtain ⟨rest, hrest⟩ := hstart
  rcases matched_cases h with ⟨-, hblank⟩ | ⟨-, hword⟩ | ⟨ds, rfl, hds⟩ | hmacro | ⟨d, hd, rfl⟩
  · have hc' := hblank c hmem
    rcases hc with rfl | rfl <;> simp [Lexeme.isBlank] at hc'
  · have hc' := hword c hmem
    rcases hc with rfl | rfl <;> simp [Lexeme.isWordChar] at hc'
  · rw [(first_of_cuts (cuts_quoted hds) hrest).1]
    decide
  · rcases hmacro with rfl | rfl
    · rw [(first_of_cuts cuts_bracketMacro hrest).1]
      decide
    · rw [(first_of_cuts cuts_braceMacro hrest).1]
      decide
  · obtain rfl : c = d := by simpa using hmem
    rcases hc with rfl | rfl
    · exact absurd rfl hd.2.2.1
    · exact absurd rfl hd.2.2.2

/-- Words other than literals are keywords, and the keyword says the kind. -/
theorem wordKind_eq_iff {kind : Kind} (hkind : kind ≠ .literal) :
    Lexeme.wordKind w = kind ↔ (kind, String.ofList w) ∈ keywords := by
  constructor
  · rintro rfl
    unfold Lexeme.wordKind at hkind ⊢
    split_ifs at hkind ⊢ with hrecord hfield hinfo halias
    · simp only [Bool.or_eq_true, decide_eq_true_eq] at hrecord
      rcases hrecord with rfl | rfl <;> decide
    · subst hfield; decide
    · subst hinfo; decide
    · subst halias; decide
    · exact absurd rfl hkind
  · intro hmem
    have hkinds : ∀ word ∈ keywords, Lexeme.wordKind word.2.toList = word.1 := by decide
    simpa using hkinds _ hmem

theorem wordKind_eq_literal_iff :
    Lexeme.wordKind w = .literal ↔ ∀ kind, (kind, String.ofList w) ∉ keywords := by
  have hliteral : ∀ word ∈ keywords, word.1 ≠ .literal := by decide
  constructor
  · intro hw kind hmem
    have hkind : kind ≠ .literal := hliteral _ hmem
    exact hkind (hw ▸ (wordKind_eq_iff hkind).mpr hmem).symm
  · intro hnone
    by_contra hkind
    exact hnone _ ((wordKind_eq_iff hkind).mp rfl)

theorem matches_wordKind (hne : w ≠ []) (hword : ∀ c ∈ w, Lexeme.isWordChar c = true) :
    Matches (Lexeme.wordKind w) w := by
  rw [matches_iff]
  by_cases hkind : Lexeme.wordKind w = .literal
  · exact .inr (.inr (.inr (.inl ⟨hkind, hne, hword⟩)))
  · exact .inl (List.mem_append.mpr (.inr ((wordKind_eq_iff hkind).mp rfl)))

theorem matches_markKind (hc : IsMark c) : Matches (Lexeme.markKind c) [c] := by
  rw [matches_iff]
  by_cases hkind : Lexeme.markKind c = .unknown
  · exact .inr (.inr (.inr (.inr ⟨hkind, c, ⟨hc, hkind⟩, rfl⟩)))
  · refine .inl (List.mem_append.mpr (.inl ?_))
    unfold Lexeme.markKind at hkind ⊢
    split_ifs at hkind ⊢ <;> simp_all <;> decide

/-- What the scanner takes is matched by a rule of its kind, unless it gives up on a quote or a
dollar. -/
theorem matches_first (c : Char) (cs : List Char) :
    Matches (Lexeme.first c cs).1 (c :: cs.take (Lexeme.first c cs).2) ∨
      ((c = '"' ∨ c = '$') ∧ (Lexeme.first c cs).1 = .unknown) := by
  have hrun : ∀ q : Char → Bool, cs.take (cs.takeWhile q).length = cs.takeWhile q :=
    fun q => (List.prefix_iff_eq_take.mp (List.takeWhile_prefix q)).symm
  have hall : ∀ q : Char → Bool, q c = true → ∀ d ∈ c :: cs.takeWhile q, q d = true :=
    fun q hc => List.forall_mem_cons.mpr ⟨hc, List.all_eq_true.mp List.all_takeWhile⟩
  rcases char_cases c with hblank | hword | rfl | rfl | hmark
  · left
    rw [first_blank hblank, hrun]
    exact matches_iff.mpr (.inr (.inr (.inl ⟨rfl, List.cons_ne_nil _ _, hall _ hblank⟩)))
  · left
    rw [first_wordChar hword, hrun]
    exact matches_wordKind (List.cons_ne_nil _ _) (hall _ hword)
  · rw [first_quote]
    split_ifs with hclosed
    · left
      rw [take_succ_of_head? hclosed]
      exact matches_iff.mpr (.inr (.inl ⟨rfl, _, rfl, quotable_take cs⟩))
    · exact .inr ⟨.inl rfl, rfl⟩
  · rw [first_dollar]
    split_ifs with hbracket hbrace
    · left
      rw [take_succ_of_head? (n := 0) hbracket, List.take_zero, List.nil_append]
      exact matches_iff.mpr (.inl (by decide))
    · left
      rw [take_succ_of_head? (n := 0) hbrace, List.take_zero, List.nil_append]
      exact matches_iff.mpr (.inl (by decide))
    · exact .inr ⟨.inr rfl, rfl⟩
  · left
    rw [first_mark hmark]
    exact matches_markKind hmark

/-! ## The choice of a lexeme -/

/-- Some rule matches a text at the head of `rest`. -/
def Applies (rest : List Char) : Prop :=
  ∃ kind v, Matches kind v ∧ v <+: rest

/-- The word at the head of a text: its characters up to the first one that words do not have. -/
def headWord (rest : List Char) : String :=
  String.ofList (rest.takeWhile fun c => IsWordChar c)

/-- An unknown lexeme that recovers from an error: a dollar, or a quote and what follows it. -/
def IsRecovery (l : Lexeme) : Prop :=
  l.kind = .unknown ∧ (l.text = ['$'] ∨ ∃ cs, l.text = '"' :: cs)

/-- The lexeme is what the table chooses at the head of `rest`. -/
structure Chooses (rest : List Char) (l : Lexeme) : Prop where
  start : l.text <+: rest
  /-- No rule matches more. -/
  longest : ∀ kind v, Matches kind v → v <+: rest → v.length ≤ l.text.length
  /-- A rule of the kind matches the lexeme, if any rule matches. -/
  kind : Applies rest → Matches l.kind l.text
  /-- A word is a keyword only as a whole. -/
  keyword : ∀ kind ∈ keywords.map (·.1), l.kind = kind ↔ (kind, headWord rest) ∈ keywords
  /-- Every other word is a literal. -/
  literal : l.kind = .literal ↔ headWord rest ≠ "" ∧ ∀ kind, (kind, headWord rest) ∉ keywords
  /-- Errors are where no rule matches. -/
  recovery : IsRecovery l ↔ ¬Applies rest

theorem headWord_cons (c : Char) (cs : List Char) :
    headWord (c :: cs) =
      if Lexeme.isWordChar c then String.ofList (c :: cs.takeWhile Lexeme.isWordChar) else "" := by
  have hclass : (fun c => decide (IsWordChar c)) = Lexeme.isWordChar := by
    funext d
    exact Bool.eq_iff_iff.mpr (decide_eq_true_iff.trans isWordChar_iff)
  rw [headWord, hclass, List.takeWhile_cons]
  split_ifs
  · rfl
  · rfl

/-- Only words are keywords or literals. -/
theorem first_kind_not_mem (hc : Lexeme.isWordChar c = false) (cs : List Char) :
    (Lexeme.first c cs).1 ∉ .literal :: keywords.map (·.1) := by
  rcases char_cases c with hblank | hword | rfl | rfl | hmark
  · rw [first_blank hblank]
    show Kind.blank ∉ _
    decide
  · rw [hc] at hword
    exact absurd hword (by decide)
  · rw [first_quote]
    split_ifs
    · show Kind.quoted ∉ _
      decide
    · show Kind.unknown ∉ _
      decide
  · rw [first_dollar]
    split_ifs <;> decide
  · rw [first_mark hmark]
    unfold Lexeme.markKind
    split_ifs <;> decide

theorem first_eq_keyword_iff (c : Char) (cs : List Char) {kind : Kind}
    (hkind : kind ∈ keywords.map (·.1)) :
    (Lexeme.first c cs).1 = kind ↔ (kind, headWord (c :: cs)) ∈ keywords := by
  rw [headWord_cons]
  cases hc : Lexeme.isWordChar c with
  | true =>
    have hliteral : kind ≠ .literal := by
      rintro rfl
      exact absurd hkind (by decide)
    rw [first_wordChar hc, if_pos rfl]
    exact wordKind_eq_iff hliteral
  | false =>
    rw [if_neg (by decide)]
    constructor
    · rintro rfl
      exact absurd (List.mem_cons_of_mem _ hkind) (first_kind_not_mem hc cs)
    · intro hmem
      exact absurd rfl (keyword_chars (w := []) hmem).1

theorem first_eq_literal_iff (c : Char) (cs : List Char) :
    (Lexeme.first c cs).1 = .literal ↔
      headWord (c :: cs) ≠ "" ∧ ∀ kind, (kind, headWord (c :: cs)) ∉ keywords := by
  rw [headWord_cons]
  cases hc : Lexeme.isWordChar c with
  | true =>
    rw [first_wordChar hc, if_pos rfl]
    simp [wordKind_eq_literal_iff]
  | false =>
    rw [if_neg (by decide)]
    have hnot : (Lexeme.first c cs).1 ≠ .literal := by
      intro hliteral
      exact absurd (hliteral ▸ List.mem_cons_self) (first_kind_not_mem hc cs)
    simp [hnot]

/-- The scanner chooses as the table does. -/
theorem chooses_first (c : Char) (cs : List Char) :
    Chooses (c :: cs) ⟨(Lexeme.first c cs).1, c :: cs.take (Lexeme.first c cs).2⟩ where
  start := List.cons_prefix_cons.mpr ⟨rfl, List.take_prefix _ cs⟩
  longest kind v hmatches hstart := by
    have hfirst := length_le_first hmatches hstart
    have hlength := hstart.length_le
    simp only [List.length_cons, List.length_take] at hlength ⊢
    omega
  kind := by
    intro ⟨kind, v, hmatches, hstart⟩
    rcases matches_first c cs with hfirst | ⟨hc, hunknown⟩
    · exact hfirst
    · exact absurd hunknown (first_ne_unknown hmatches hstart hc)
  keyword _ hkind := first_eq_keyword_iff c cs hkind
  literal := first_eq_literal_iff c cs
  recovery := by
    constructor
    · rintro ⟨hunknown, htext⟩ ⟨kind, v, hmatches, hstart⟩
      have hc : c = '"' ∨ c = '$' := by
        rcases htext with htext | ⟨ds, htext⟩
        · exact .inr (List.cons.inj htext).1
        · exact .inl (List.cons.inj htext).1
      exact first_ne_unknown hmatches hstart hc hunknown
    · intro hnone
      rcases matches_first c cs with hfirst | ⟨rfl | rfl, hunknown⟩
      · exact absurd ⟨_, _, hfirst, List.cons_prefix_cons.mpr ⟨rfl, List.take_prefix _ cs⟩⟩ hnone
      · exact ⟨hunknown, .inr ⟨_, rfl⟩⟩
      · refine ⟨hunknown, .inl ?_⟩
        rw [first_dollar] at hunknown ⊢
        split_ifs at hunknown ⊢
        simp

end Rule

theorem exists_rest_of_lexemes {text : List Char} {before after : List Lexeme}
    (h : lexemes text = before ++ after) :
    ∃ rest, text = before.flatMap Lexeme.text ++ rest ∧ lexemes rest = after := by
  induction before generalizing text with
  | nil => exact ⟨text, rfl, h⟩
  | cons l before ih =>
    cases text with
    | nil => simp [lexemes] at h
    | cons c cs =>
      rw [lexemes, List.cons_append, List.cons_eq_cons] at h
      obtain ⟨rfl, hlater⟩ := h
      obtain ⟨rest, hrest, hafter⟩ := ih hlater
      refine ⟨rest, ?_, hafter⟩
      rw [List.flatMap_cons, List.append_assoc, ← hrest, List.cons_append, List.take_append_drop]

/-- At every place of a text the lexeme is the longest text that a rule of the table matches there,
and it is an error only where no rule matches. -/
theorem lexemes_longest_match (text : String) {before after : List Lexeme} {l : Lexeme}
    (h : lexemes text.toList = before ++ l :: after) :
    ∃ rest, text.toList = before.flatMap Lexeme.text ++ rest ∧ Rule.Chooses rest l := by
  obtain ⟨rest, hrest, hlexemes⟩ := exists_rest_of_lexemes h
  refine ⟨rest, hrest, ?_⟩
  cases rest with
  | nil => simp [lexemes] at hlexemes
  | cons c cs =>
    rw [lexemes, List.cons_eq_cons] at hlexemes
    rw [← hlexemes.1]
    exact Rule.chooses_first c cs

/-- The theorem at a quote that is not closed, with a keyword and a macro in it. -/
theorem lexemes_longest_match_open_quote :
    let l : Lexeme := ⟨.unknown, "\"record $(".toList⟩
    lexemes "grecord\"record $(\\".toList =
        [⟨.recordWord, "grecord".toList⟩] ++ l :: [⟨.unknown, ['\\']⟩] ∧
      ∃ rest, "grecord\"record $(\\".toList = "grecord".toList ++ rest ∧ Rule.Chooses rest l := by
  intro l
  have h : lexemes "grecord\"record $(\\".toList =
      [⟨.recordWord, "grecord".toList⟩] ++ l :: [⟨.unknown, ['\\']⟩] := by decide +kernel
  exact ⟨h, lexemes_longest_match _ h⟩

end EpicsDb
