import EpicsDb.Proofs.Lexing
import Mathlib.Data.List.DropRight
import Mathlib.Data.List.Induction

/-!
# Lines

Only blanks go on from one line to the next.  Every other lexeme ends where its line ends, whatever
quote, escape or macro has been opened there, so a text can be cut into lines first and into tokens
afterwards.

* `after_line` and `after_column` read a place off the text before it: the line counts the line
  feeds, and the column the characters since the last one.
* `first_append_newline` says that a line feed behind a text does not change its first lexeme, and
  `exists_cuts` restates this for `Cuts`.
* `tokensAt_append_newline` cuts a text at one line feed, and `tokensAt_moveDown` moves tokens to
  other lines.
* `tokensOfLines` are the tokens of lines that are cut one by one; `tokenize_line_by_line` says that
  they are the tokens of the text.
-/

namespace EpicsDb

variable {c : Char} {cs w rest : List Char} {p : Position}

/-! ## Places -/

namespace Position

@[simp]
theorem after_append (p : Position) (cs ds : List Char) :
    p.after (cs ++ ds) = (p.after cs).after ds :=
  List.foldl_append

theorem after_concat (p : Position) (cs : List Char) (c : Char) :
    p.after (cs ++ [c]) = (p.after cs).next c :=
  after_append p cs [c]

theorem after_line (p : Position) (cs : List Char) :
    (p.after cs).line = p.line + cs.count '\n' := by
  induction cs using List.reverseRecOn with
  | nil => rfl
  | append_singleton cs c ih =>
    rw [after_concat, next]
    split_ifs with hline
    · simp [hline, ih, Nat.add_assoc]
    · simp [hline, ih]

/-- The characters since the last line feed, if the text starts a line. -/
theorem after_column (line : Nat) (cs : List Char) :
    (after ⟨line, 0⟩ cs).column = (cs.rtakeWhile (· ≠ '\n')).length := by
  induction cs using List.reverseRecOn with
  | nil => rfl
  | append_singleton cs c ih =>
    rw [after_concat, next]
    split_ifs with hline
    · simp [hline]
    · simp [hline, ih]

/-- The place a number of lines further down. -/
def moveDown (n : Nat) (p : Position) : Position :=
  ⟨p.line + n, p.column⟩

theorem after_moveDown (n : Nat) (p : Position) (cs : List Char) :
    (p.moveDown n).after cs = (p.after cs).moveDown n := by
  induction cs generalizing p with
  | nil => rfl
  | cons c cs ih =>
    have hnext : (p.moveDown n).next c = (p.next c).moveDown n := by
      unfold next moveDown
      split_ifs
      · simp [Nat.add_right_comm]
      · rfl
    exact (congrArg (·.after cs) hnext).trans (ih (p.next c))

end Position

/-- The token a number of lines further down. -/
def Token.moveDown (n : Nat) (t : Token) : Token :=
  { t with line := t.line + n }

theorem placeLexemes_moveDown (n : Nat) (p : Position) (ls : List Lexeme) :
    placeLexemes (p.moveDown n) ls = (placeLexemes p ls).map (Token.moveDown n) := by
  induction ls generalizing p with
  | nil => rfl
  | cons l ls ih =>
    rw [placeLexemes, placeLexemes, Position.after_moveDown, ih]
    split_ifs
    · rfl
    · rfl

/-- The same text further down gives the same tokens further down. -/
theorem tokensAt_moveDown (n : Nat) (p : Position) (cs : List Char) :
    tokensAt (p.moveDown n) cs = (tokensAt p cs).map (Token.moveDown n) :=
  placeLexemes_moveDown n p (lexemes cs)

/-! ## Lexemes and line feeds -/

theorem head?_append_cons (cs b : List Char) {d stop : Char} (hd : d ≠ stop) :
    (cs ++ stop :: b).head? = some d ↔ cs.head? = some d := by
  cases cs with
  | nil => simp [Ne.symm hd]
  | cons c cs => rfl

theorem takeWhile_append_cons (cs b : List Char) {q : Char → Bool} {stop : Char}
    (hq : q stop = false) : (cs ++ stop :: b).takeWhile q = cs.takeWhile q := by
  induction cs with
  | nil => simp [hq]
  | cons c cs ih => simp [List.takeWhile_cons, ih]

theorem quotableLength_append_newline (cs b : List Char) :
    Lexeme.quotableLength (cs ++ '\n' :: b) = Lexeme.quotableLength cs := by
  fun_induction Lexeme.quotableLength cs with
  | case1 => rfl
  | case2 => rfl
  | case3 c cs hline ih => simp [Lexeme.quotableLength, hline, ih]
  | case4 c cs hescape hstop =>
    simp only [Bool.or_eq_true, decide_eq_true_eq] at hstop
    rcases hstop with (rfl | rfl) | rfl
    · rfl
    · -- a backslash at the end of the text escapes nothing, and it does not escape a line feed
      cases cs with
      | nil => rfl
      | cons d ds => exact (hescape d ds rfl rfl).elim
    · rfl
  | case5 c cs hescape hplain ih =>
    simp only [Bool.or_eq_true, decide_eq_true_eq, not_or] at hplain
    rw [List.cons_append, quotableLength_plain hplain.1.1 hplain.1.2 hplain.2, ih]

theorem quotableLength_le (cs : List Char) : Lexeme.quotableLength cs ≤ cs.length := by
  fun_induction Lexeme.quotableLength cs with
  | case1 => exact Nat.le_refl 0
  | case2 => exact Nat.zero_le _
  | case3 c cs hline ih => simpa using ih
  | case4 => exact Nat.zero_le _
  | case5 c cs hescape hplain ih => simpa using ih

/-- What a lexeme other than blanks is does not depend on what follows its line. -/
theorem first_append_newline (hc : Lexeme.isBlank c = false) (cs b : List Char) :
    Lexeme.first c (cs ++ '\n' :: b) = Lexeme.first c cs := by
  have hword : Lexeme.isWordChar '\n' = false := by decide
  have hle : Lexeme.quotableLength cs ≤ cs.length := quotableLength_le cs
  simp only [Lexeme.first, hc, takeWhile_append_cons cs b hword,
    quotableLength_append_newline, List.drop_append_of_le_length hle,
    head?_append_cons _ b (show '"' ≠ '\n' by decide),
    head?_append_cons _ b (show '(' ≠ '\n' by decide),
    head?_append_cons _ b (show '\x7b' ≠ '\n' by decide), Bool.false_eq_true, if_false]

theorem length_pos_of_head? {d : Char} (h : cs.head? = some d) : 0 < cs.length := by
  cases cs with
  | nil => simp at h
  | cons c cs => exact Nat.succ_pos _

/-- A lexeme ends before its text does. -/
theorem first_length_le (c : Char) (cs : List Char) : (Lexeme.first c cs).2 ≤ cs.length := by
  have hrun : ∀ q : Char → Bool, (cs.takeWhile q).length ≤ cs.length :=
    fun q => (List.takeWhile_sublist q).length_le
  simp only [Lexeme.first]
  split_ifs with hblank hword hquote hclosed hdollar hbracket hbrace
  · exact hrun _
  · exact hrun _
  · have hpos := length_pos_of_head? hclosed
    rw [List.length_drop] at hpos
    exact Nat.succ_le_of_lt (Nat.lt_of_sub_pos hpos)
  · exact quotableLength_le cs
  · exact length_pos_of_head? hbracket
  · exact length_pos_of_head? hbrace
  · exact Nat.zero_le _
  · exact Nat.zero_le _

theorem first_kind_ne_blank (hc : Lexeme.isBlank c = false) (cs : List Char) :
    (Lexeme.first c cs).1 ≠ .blank := by
  have hword : ∀ word, Lexeme.wordKind word ≠ .blank := wordKind_ne (.inl rfl)
  have hmark : Lexeme.markKind c ≠ .blank := markKind_ne (.inl rfl) c
  simp only [Lexeme.first, hc, Bool.false_eq_true, if_false]
  split_ifs <;> simp [hword, hmark]

/-- The lexeme takes no line feed that follows its first character. -/
theorem newline_not_mem_take_first (hc : Lexeme.isBlank c = false) (cs : List Char) :
    '\n' ∉ cs.take (Lexeme.first c cs).2 := by
  by_cases hmem : '\n' ∈ cs
  · -- the lexeme is the one of the first line alone, which has no line feed
    obtain ⟨line, later, rfl, hline⟩ := List.eq_append_cons_of_mem hmem
    rw [first_append_newline hc, List.take_append_of_le_length (first_length_le c line)]
    exact fun h => hline (List.mem_of_mem_take h)
  · exact fun h => hmem (List.mem_of_mem_take h)

theorem Cuts.ne_nil {kind : Kind} (h : Cuts kind w rest) : w ≠ [] := by
  obtain ⟨c, cs, rfl, -⟩ := h
  exact List.cons_ne_nil c cs

/-- What a lexeme leaves of a text is shorter than the text. -/
theorem Cuts.length_lt {kind : Kind} {text : List Char} (h : Cuts kind w rest)
    (hsplit : text = w ++ rest) : rest.length < text.length := by
  rw [hsplit, List.length_append]
  exact Nat.lt_add_of_pos_left (List.length_pos_of_ne_nil h.ne_nil)

/-- A text that does not start with a blank starts with a lexeme on one line, which stays what it is
if another line follows the text. -/
theorem exists_cuts (hc : Lexeme.isBlank c = false) (cs : List Char) :
    ∃ kind w rest, c :: cs = w ++ rest ∧ kind ≠ .blank ∧ '\n' ∉ w ∧ Cuts kind w rest ∧
      ∀ b, Cuts kind w (rest ++ '\n' :: b) := by
  let n := (Lexeme.first c cs).2
  have hcs : cs.take n ++ cs.drop n = cs := List.take_append_drop n cs
  have hlength : (cs.take n).length = n := List.length_take_of_le (first_length_le c cs)
  have hnewline : c ≠ '\n' := by
    rintro rfl
    exact absurd hc (by decide)
  refine ⟨(Lexeme.first c cs).1, c :: cs.take n, cs.drop n, ?_, first_kind_ne_blank hc cs, ?_,
    ⟨c, _, rfl, ?_⟩, fun b => ⟨c, _, rfl, ?_⟩⟩
  · rw [List.cons_append, hcs]
  · simpa [hnewline.symm] using newline_not_mem_take_first hc cs
  · rw [hcs, hlength]
  · rw [← List.append_assoc, hcs, first_append_newline hc, hlength]

/-! ## Tokens of one line after another -/

theorem tokensAt_nil (p : Position) : tokensAt p [] = [⟨.endOfFile, p.line, p.column, ""⟩] := by
  rw [tokensAt, lexemes, placeLexemes]

theorem tokensAt_ne_nil (p : Position) (cs : List Char) : tokensAt p cs ≠ [] := by
  have hkinds : ∀ l ∈ lexemes cs, l.kind ≠ .endOfFile :=
    fun _ => kind_ne_endOfFile_of_mem_lexemes
  obtain ⟨before, last, htokens, -⟩ := endsOnce_placeLexemes hkinds p
  rw [tokensAt, htokens]
  simp

/-- At a line feed, the tokens of a text fall into those before and those behind it. -/
theorem tokensAt_append_newline (p : Position) (a b : List Char) :
    tokensAt p (a ++ '\n' :: b) =
      (tokensAt p a).dropLast ++ tokensAt (p.after (a ++ ['\n'])) b := by
  -- on the length of `a`, since a lexeme may take any number of its characters
  induction hn : a.length using Nat.strongRecOn generalizing a p with
  | ind n ih =>
    cases a with
    | nil =>
      rw [List.nil_append, tokensAt_blank (by decide), tokensAt_nil]
      rfl
    | cons c cs =>
      cases hc : Lexeme.isBlank c with
      | true =>
        rw [List.cons_append, tokensAt_blank hc, tokensAt_blank hc,
          ih cs.length (by simp [← hn]) (p.next c) cs rfl]
        rfl
      | false =>
        obtain ⟨kind, w, rest, hsplit, hkind, -, hcuts, hnewline⟩ := exists_cuts hc cs
        have hrest : rest.length < n := hn ▸ hcuts.length_lt hsplit
        rw [hsplit, List.append_assoc, (hnewline b).tokensAt hkind, hcuts.tokensAt hkind,
          ih rest.length hrest (p.after w) rest rfl,
          List.dropLast_cons_of_ne_nil (tokensAt_ne_nil _ _)]
        simp

/-- The tokens of lines that stand one below the other.  Each line is cut on its own, and only the
last one gives an end of file. -/
def tokensOfLines : List String → List Token
  | [] => tokenize ""
  | [line] => tokenize line
  | line :: lines => (tokenize line).dropLast ++ (tokensOfLines lines).map (Token.moveDown 1)

/-- The lines of a text. -/
def linesOf (text : String) : List String :=
  (text.toList.splitOn '\n').map String.ofList

theorem linesOf_of_not_mem {text : String} (h : '\n' ∉ text.toList) : linesOf text = [text] := by
  rw [linesOf, List.splitOn_eq_singleton h]
  simp

theorem linesOf_append {line : String} (h : '\n' ∉ line.toList) (later : String) :
    linesOf (line ++ "\n" ++ later) = line :: linesOf later := by
  have htext : (line ++ "\n" ++ later).toList = line.toList ++ '\n' :: later.toList := by simp
  rw [linesOf, htext, List.splitOn_append_cons_self_of_not_mem h]
  simp [linesOf]

theorem tokenize_append (a b : String) :
    tokenize (a ++ "\n" ++ b) =
      (tokenize a).dropLast ++
        (tokenize b).map (Token.moveDown (1 + a.toList.count '\n')) := by
  have htext : (a ++ "\n" ++ b).toList = a.toList ++ '\n' :: b.toList := by simp
  have hplace : Position.start.after (a.toList ++ ['\n']) =
      Position.start.moveDown (1 + a.toList.count '\n') := by
    rw [Position.after_concat, Position.next, if_pos rfl, Position.after_line, Position.moveDown]
    simp [Position.start, Nat.add_comm]
  calc tokenize (a ++ "\n" ++ b)
      = tokensAt .start (a.toList ++ '\n' :: b.toList) := by rw [tokenize, htext, tokensAt]
    _ = (tokensAt .start a.toList).dropLast ++
          tokensAt (Position.start.after (a.toList ++ ['\n'])) b.toList :=
        tokensAt_append_newline .start a.toList b.toList
    _ = (tokenize a).dropLast ++
          (tokenize b).map (Token.moveDown (1 + a.toList.count '\n')) := by
        rw [hplace, tokensAt_moveDown]
        rfl

theorem tokensOfLines_cons (line : String) {lines : List String} (h : lines ≠ []) :
    tokensOfLines (line :: lines) =
      (tokenize line).dropLast ++ (tokensOfLines lines).map (Token.moveDown 1) := by
  cases lines with
  | nil => exact absurd rfl h
  | cons next lines => rfl

theorem tokenize_eq_tokensOfLines (text : String) :
    tokenize text = tokensOfLines (linesOf text) := by
  induction hn : text.toList.length using Nat.strongRecOn generalizing text with
  | ind n ih =>
    by_cases hmem : '\n' ∈ text.toList
    · obtain ⟨cs, ds, hcs, hline⟩ := List.eq_append_cons_of_mem hmem
      obtain ⟨line, rfl⟩ : ∃ line : String, line.toList = cs := ⟨_, String.toList_ofList⟩
      obtain ⟨later, rfl⟩ : ∃ later : String, later.toList = ds := ⟨_, String.toList_ofList⟩
      obtain rfl : text = line ++ "\n" ++ later := by
        rw [← String.toList_inj, hcs]
        simp
      have hshorter : later.toList.length < n := by
        rw [← hn, hcs, List.length_append, List.length_cons]
        omega
      have hlines : linesOf later ≠ [] := by simp [linesOf]
      rw [linesOf_append hline, tokensOfLines_cons line hlines, tokenize_append,
        List.count_eq_zero_of_not_mem hline, ih _ hshorter later rfl]
    · rw [linesOf_of_not_mem hmem, tokensOfLines]

/-- A text may be cut into tokens at any of its line feeds on its own, and so line by line. -/
theorem tokenize_line_by_line :
    (∀ a b : String, tokenize (a ++ "\n" ++ b) =
      (tokenize a).dropLast ++
        (tokenize b).map (Token.moveDown (1 + a.toList.count '\n'))) ∧
    ∀ text : String, tokenize text = tokensOfLines (linesOf text) :=
  ⟨tokenize_append, tokenize_eq_tokensOfLines⟩

-- a quote and an escape that the first line leaves open
example : tokenize "\"A \\\n\"" =
    [⟨.unknown, 1, 0, "\"A "⟩, ⟨.unknown, 1, 3, "\\"⟩, ⟨.unknown, 2, 0, "\""⟩,
      ⟨.endOfFile, 2, 1, ""⟩] := by
  decide +kernel

end EpicsDb
