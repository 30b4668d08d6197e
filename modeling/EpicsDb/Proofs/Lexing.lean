import EpicsDb.Token.Position
import Mathlib.Tactic.Common

/-!
# Cutting a text into tokens

`tokensAt p cs` are the tokens of a text that starts at the place `p`.  The lemmas take a text apart
from the front, one lexeme at a time, with any text behind it.

* `Cuts kind w rest` says that `w` is the first lexeme of `w ++ rest`, and `Cuts.tokensAt` that its
  token is the first one then.  `cuts_mark`, `cuts_word`, `cuts_quoted`, `cuts_bracketMacro` and
  `cuts_braceMacro` establish it class by class.
* `char_cases` sorts the first characters of lexemes, and `first_blank`, `first_wordChar`,
  `first_quote`, `first_dollar` and `first_mark` say what the first lexeme is in each case.
* `tokensAt_blanks` says that blanks in front of a text change nothing but places.
* `Quotable` describes what can stand between quotes; `quotableLength_append` is the reason why the
  closing quote is found, and `quotable_iff` makes the description decidable.
* `endsOnce_tokenize` says that the last token of every text is its only end of file.
-/

namespace EpicsDb

variable {kind : Kind} {p : Position} {c : Char} {cs w rest : List Char}

/-- The tokens of a text that starts at a place. -/
def tokensAt (p : Position) (cs : List Char) : List Token :=
  placeLexemes p (lexemes cs)

/-! ## The first lexeme -/

/-- `w` is the first lexeme of `w ++ rest`, and is of the given kind. -/
def Cuts (kind : Kind) (w rest : List Char) : Prop :=
  ∃ c cs, w = c :: cs ∧ Lexeme.first c (cs ++ rest) = (kind, cs.length)

theorem Cuts.lexemes (h : Cuts kind w rest) :
    lexemes (w ++ rest) = ⟨kind, w⟩ :: lexemes rest := by
  obtain ⟨c, cs, rfl, hfirst⟩ := h
  rw [List.cons_append, EpicsDb.lexemes, hfirst]
  simp

/-- The token of the first lexeme is the first token. -/
theorem Cuts.tokensAt (h : Cuts kind w rest) (hkind : kind ≠ .blank) (p : Position) :
    tokensAt p (w ++ rest) =
      ⟨kind, p.line, p.column, String.ofList w⟩ :: tokensAt (p.after w) rest := by
  rw [EpicsDb.tokensAt, h.lexemes, placeLexemes, if_neg hkind]
  rfl

/-- Neither words nor marks are blanks or ends of files. -/
theorem wordKind_ne (h : kind = .blank ∨ kind = .endOfFile) (word : List Char) :
    Lexeme.wordKind word ≠ kind := by
  unfold Lexeme.wordKind
  rcases h with rfl | rfl <;> split_ifs <;> simp

theorem markKind_ne (h : kind = .blank ∨ kind = .endOfFile) (c : Char) :
    Lexeme.markKind c ≠ kind := by
  unfold Lexeme.markKind
  rcases h with rfl | rfl <;> split_ifs <;> simp

theorem isWordChar_of_isBlank (h : Lexeme.isBlank c = true) : Lexeme.isWordChar c = false := by
  simp only [Lexeme.isBlank, Bool.or_eq_true, beq_iff_eq] at h
  rcases h with (((rfl | rfl) | rfl) | rfl) | rfl <;> decide

/-! ## The first lexeme by its first character -/

/-- The characters that are lexemes on their own. -/
def IsMark (c : Char) : Prop :=
  Lexeme.isBlank c = false ∧ Lexeme.isWordChar c = false ∧ c ≠ '"' ∧ c ≠ '$'

instance : DecidablePred IsMark :=
  fun _ => inferInstanceAs (Decidable (_ ∧ _))

/-- The five ways in which a lexeme can start. -/
theorem char_cases (c : Char) :
    Lexeme.isBlank c = true ∨ Lexeme.isWordChar c = true ∨ c = '"' ∨ c = '$' ∨ IsMark c := by
  unfold IsMark
  grind

theorem first_blank (hc : Lexeme.isBlank c = true) (cs : List Char) :
    Lexeme.first c cs = (.blank, (cs.takeWhile Lexeme.isBlank).length) := by
  simp only [Lexeme.first, hc, if_true]

theorem first_wordChar (hc : Lexeme.isWordChar c = true) (cs : List Char) :
    Lexeme.first c cs =
      (Lexeme.wordKind (c :: cs.takeWhile Lexeme.isWordChar),
        (cs.takeWhile Lexeme.isWordChar).length) := by
  have hblank : ¬Lexeme.isBlank c = true := by
    intro hblank
    rw [isWordChar_of_isBlank hblank] at hc
    exact absurd hc (by decide)
  simp only [Lexeme.first, hblank, hc, if_true]
  rfl

/-- A quote is closed on its line, or what follows it there is unknown. -/
theorem first_quote (cs : List Char) :
    Lexeme.first '"' cs =
      if (cs.drop (Lexeme.quotableLength cs)).head? = some '"' then
        (.quoted, Lexeme.quotableLength cs + 1)
      else (.unknown, Lexeme.quotableLength cs) :=
  rfl

theorem first_dollar (cs : List Char) :
    Lexeme.first '$' cs =
      if cs.head? = some '(' then (.bracketMacro, 1)
      else if cs.head? = some '\x7b' then (.braceMacro, 1)
      else (.unknown, 0) :=
  rfl

theorem first_mark (hc : IsMark c) (cs : List Char) :
    Lexeme.first c cs = (Lexeme.markKind c, 0) := by
  obtain ⟨hblank, hword, hquote, hdollar⟩ := hc
  simp only [Lexeme.first, hblank, hword, hquote, hdollar, if_false]
  rfl

/-- A mark is a lexeme on its own. -/
theorem cuts_mark (h : Lexeme.markKind c ≠ .unknown) : Cuts (Lexeme.markKind c) [c] rest := by
  refine ⟨c, [], rfl, ?_⟩
  have hmark : c = '(' ∨ c = ')' ∨ c = '\x7b' ∨ c = '\x7d' ∨ c = ',' ∨ c = '=' ∨ c = '#' := by
    by_contra hnot
    simp only [not_or] at hnot
    simp_all [Lexeme.markKind]
  rcases hmark with rfl | rfl | rfl | rfl | rfl | rfl | rfl <;> rfl

/-- A word is a lexeme if no character of words follows it. -/
theorem cuts_word (hw : w ≠ []) (hword : ∀ c ∈ w, Lexeme.isWordChar c = true)
    (hrest : ∀ c, rest.head? = some c → Lexeme.isWordChar c = false) :
    Cuts (Lexeme.wordKind w) w rest := by
  obtain ⟨c, cs, rfl⟩ := List.exists_cons_of_ne_nil hw
  refine ⟨c, cs, rfl, ?_⟩
  have htake : (cs ++ rest).takeWhile Lexeme.isWordChar = cs := by
    rw [List.takeWhile_append_of_pos fun d hd => hword d (List.mem_cons_of_mem c hd)]
    cases rest with
    | nil => simp
    | cons d ds => simp [hrest d rfl]
  have hc : Lexeme.isWordChar c = true := hword c List.mem_cons_self
  have hblank : ¬Lexeme.isBlank c = true := by
    intro h
    rw [isWordChar_of_isBlank h] at hc
    simp at hc
  simp [Lexeme.first, hblank, hc, htake]

/-- The start of a macro in brackets. -/
theorem cuts_bracketMacro : Cuts .bracketMacro ['$', '('] rest :=
  ⟨'$', ['('], rfl, rfl⟩

/-- The start of a macro in braces. -/
theorem cuts_braceMacro : Cuts .braceMacro ['$', '\x7b'] rest :=
  ⟨'$', ['\x7b'], rfl, rfl⟩

/-! ## Quoted texts -/

/-- What can stand between quotes: characters other than a quote, a backslash and a line feed, and a
backslash together with a character other than a line feed. -/
inductive Quotable : List Char → Prop where
  | nil : Quotable []
  | plain {c : Char} {cs : List Char} (hquote : c ≠ '"') (hslash : c ≠ '\\') (hline : c ≠ '\n')
      (later : Quotable cs) : Quotable (c :: cs)
  | escaped {c : Char} {cs : List Char} (hline : c ≠ '\n') (later : Quotable cs) :
      Quotable ('\\' :: c :: cs)

theorem quotableLength_plain (hquote : c ≠ '"') (hslash : c ≠ '\\') (hline : c ≠ '\n') :
    Lexeme.quotableLength (c :: cs) = Lexeme.quotableLength cs + 1 := by
  rw [Lexeme.quotableLength.eq_def]
  split
  · simp_all
  · simp_all
  · simp_all

/-- What can stand between quotes ends at the first quote after it. -/
theorem quotableLength_append (h : Quotable cs) (rest : List Char) :
    Lexeme.quotableLength (cs ++ '"' :: rest) = cs.length := by
  induction h with
  | nil => rfl
  | plain hquote hslash hline later ih =>
    rw [List.cons_append, quotableLength_plain hquote hslash hline, ih, List.length_cons]
  | escaped hline later ih => simp [Lexeme.quotableLength, hline, ih]

/-- A text can stand between quotes if and only if nothing in it stops the search for the closing
quote. -/
theorem quotable_iff : Quotable cs ↔ Lexeme.quotableLength cs = cs.length := by
  constructor
  · intro h
    induction h with
    | nil => rfl
    | plain hquote hslash hline later ih =>
      rw [quotableLength_plain hquote hslash hline, ih, List.length_cons]
    | escaped hline later ih => simp [Lexeme.quotableLength, hline, ih]
  · intro h
    fun_induction Lexeme.quotableLength cs with
    | case1 => exact .nil
    | case2 => simp at h
    | case3 c cs hline ih => exact .escaped hline (ih (by simpa using h))
    | case4 => simp at h
    | case5 c cs hescape hplain ih =>
      simp only [Bool.or_eq_true, decide_eq_true_eq, not_or] at hplain
      exact .plain hplain.1.1 hplain.1.2 hplain.2 (ih (by simpa using h))

theorem take_succ_of_head? {n : Nat} (h : (cs.drop n).head? = some c) :
    cs.take (n + 1) = cs.take n ++ [c] := by
  rw [List.head?_drop] at h
  rw [List.take_add_one, h]
  rfl

/-- The search for the closing quote passes over what can stand between quotes. -/
theorem quotable_take (cs : List Char) : Quotable (cs.take (Lexeme.quotableLength cs)) := by
  fun_induction Lexeme.quotableLength cs with
  | case1 => exact .nil
  | case2 => exact .nil
  | case3 c cs hline ih => exact .escaped hline ih
  | case4 => exact .nil
  | case5 c cs hescape hplain ih =>
    simp only [Bool.or_eq_true, decide_eq_true_eq, not_or] at hplain
    exact .plain hplain.1.1 hplain.1.2 hplain.2 ih

instance : DecidablePred Quotable :=
  fun _ => decidable_of_iff _ quotable_iff.symm

theorem cuts_quoted (h : Quotable cs) : Cuts .quoted ('"' :: (cs ++ ['"'])) rest := by
  refine ⟨'"', cs ++ ['"'], rfl, ?_⟩
  have hlength : Lexeme.quotableLength (cs ++ '"' :: rest) = cs.length :=
    quotableLength_append h rest
  simp [Lexeme.first, Lexeme.isBlank, Lexeme.isWordChar, hlength]

/-! ## Blanks -/

/-- A run of blanks is one lexeme, and gives no token. -/
theorem tokensAt_blank_run (h : Lexeme.isBlank c = true) (p : Position) (cs : List Char) :
    tokensAt p (c :: cs) =
      tokensAt (p.after (c :: cs.takeWhile Lexeme.isBlank)) (cs.dropWhile Lexeme.isBlank) := by
  have hcuts : Cuts .blank (c :: cs.takeWhile Lexeme.isBlank) (cs.dropWhile Lexeme.isBlank) := by
    refine ⟨c, _, rfl, ?_⟩
    rw [List.takeWhile_append_dropWhile, Lexeme.first, if_pos h]
  have hlexemes := hcuts.lexemes
  rw [List.cons_append, List.takeWhile_append_dropWhile] at hlexemes
  rw [tokensAt, hlexemes, placeLexemes, if_pos rfl]
  rfl

theorem tokensAt_blank (h : Lexeme.isBlank c = true) (p : Position) (cs : List Char) :
    tokensAt p (c :: cs) = tokensAt (p.next c) cs := by
  rw [tokensAt_blank_run h]
  cases cs with
  | nil => rfl
  | cons d ds =>
    by_cases hd : Lexeme.isBlank d = true
    · rw [tokensAt_blank_run hd, List.takeWhile_cons_of_pos hd, List.dropWhile_cons_of_pos hd]
      rfl
    · rw [List.takeWhile_cons_of_neg hd, List.dropWhile_cons_of_neg hd]
      rfl

/-- Blanks in front of a text change nothing but places. -/
theorem tokensAt_blanks (h : ∀ c ∈ w, Lexeme.isBlank c = true) (p : Position) (rest : List Char) :
    tokensAt p (w ++ rest) = tokensAt (p.after w) rest := by
  induction w generalizing p with
  | nil => rfl
  | cons c cs ih =>
    rw [List.cons_append, tokensAt_blank (h c List.mem_cons_self)]
    exact ih (fun d hd => h d (List.mem_cons_of_mem c hd)) (p.next c)

/-! ## The end of file -/

/-- The last token is the only end of file. -/
def EndsOnce (tokens : List Token) : Prop :=
  ∃ before last, tokens = before ++ [last] ∧ last.kind = .endOfFile ∧
    ∀ t ∈ before, t.kind ≠ .endOfFile

/-- An end of file ends the tokens. -/
theorem EndsOnce.eq_nil_of_suffix {tokens rest : List Token} {last : Token} (h : EndsOnce tokens)
    (hsuffix : last :: rest <:+ tokens) (hlast : last.kind = .endOfFile) : rest = [] := by
  obtain ⟨before, final, rfl, -, hbefore⟩ := h
  obtain ⟨taken, htaken⟩ := hsuffix
  rcases List.eq_nil_or_concat rest with hrest | ⟨front, t, rfl⟩
  · exact hrest
  · have hsplit : (taken ++ last :: front) ++ [t] = before ++ [final] := by simpa using htaken
    have hfront : taken ++ last :: front = before := (List.append_inj' hsplit rfl).1
    have hmem : last ∈ before := by simp [← hfront]
    exact absurd hlast (hbefore last hmem)

theorem first_kind_ne_endOfFile (c : Char) (cs : List Char) :
    (Lexeme.first c cs).1 ≠ .endOfFile := by
  have hword : ∀ word, Lexeme.wordKind word ≠ .endOfFile := wordKind_ne (.inr rfl)
  have hmark : Lexeme.markKind c ≠ .endOfFile := markKind_ne (.inr rfl) c
  simp only [Lexeme.first]
  split_ifs <;> simp [hword, hmark]

theorem kind_ne_endOfFile_of_mem_lexemes {cs : List Char} {l : Lexeme} (h : l ∈ lexemes cs) :
    l.kind ≠ .endOfFile := by
  fun_induction lexemes cs with
  | case1 => simp at h
  | case2 c cs kind n hfirst ih =>
    rcases List.mem_cons.mp h with rfl | h
    · have := first_kind_ne_endOfFile c cs
      rw [hfirst] at this
      exact this
    · exact ih h

theorem endsOnce_placeLexemes {ls : List Lexeme} (h : ∀ l ∈ ls, l.kind ≠ .endOfFile)
    (p : Position) : EndsOnce (placeLexemes p ls) := by
  induction ls generalizing p with
  | nil => exact ⟨[], _, rfl, rfl, by simp⟩
  | cons l ls ih =>
    have hls : ∀ l ∈ ls, l.kind ≠ .endOfFile := fun m hm => h m (List.mem_cons_of_mem l hm)
    obtain ⟨before, last, hplaced, hlast, hbefore⟩ := ih hls (p.after l.text)
    rw [placeLexemes]
    split
    · exact ⟨before, last, hplaced, hlast, hbefore⟩
    · refine ⟨⟨l.kind, p.line, p.column, String.ofList l.text⟩ :: before, last, ?_, hlast, ?_⟩
      · rw [hplaced, List.cons_append]
      · rintro t (_ | ⟨_, ht⟩)
        · exact h l List.mem_cons_self
        · exact hbefore t ht

/-- The last token of a text is its only end of file. -/
theorem endsOnce_tokenize (text : String) : EndsOnce (tokenize text) :=
  endsOnce_placeLexemes (fun _ => kind_ne_endOfFile_of_mem_lexemes) .start

end EpicsDb
