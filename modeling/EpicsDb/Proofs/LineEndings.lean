import EpicsDb.Proofs.Grammar.Layout
import EpicsDb.Proofs.Lines

/-!
# Line endings

Lines may end in a line feed or in a carriage return and a line feed.  A carriage return is a blank,
so most tokens do not notice it.  A quote that is not closed on its line does: the carriage return
becomes part of its token, and so does a backslash that stands before it.  Such tokens can be read
in comments only, and there nothing but their line matters.

* `reads_unknown` says that unknown tokens are refused outside of comments.
* `Respelled` relates tokens that are the same up to how the unknown ones of a line are cut, and
  `reads_respelled` says that they are read alike.
* `quotableLength_return` and `first_return` are about what a carriage return at the end of a line
  does to one lexeme, and `respelled_withReturns` about what it does to all tokens of a text.
-/

namespace EpicsDb

variable {c : Char} {cs line w rest : List Char} {p q : Position}

/-- The text with a carriage return before each line feed. -/
def withReturns (cs : List Char) : List Char :=
  cs.flatMap fun c => if c = '\n' then ['\r', '\n'] else [c]

theorem withReturns_cons_of_ne (hc : c ≠ '\n') (cs : List Char) :
    withReturns (c :: cs) = c :: withReturns cs := by
  simp [withReturns, hc]

theorem withReturns_newline (cs : List Char) :
    withReturns ('\n' :: cs) = '\r' :: '\n' :: withReturns cs :=
  rfl

/-- Text without line feeds stays as it is. -/
theorem withReturns_append (hw : '\n' ∉ w) (rest : List Char) :
    withReturns (w ++ rest) = w ++ withReturns rest := by
  induction w with
  | nil => rfl
  | cons c w ih =>
    simp only [List.mem_cons, not_or] at hw
    rw [List.cons_append, withReturns_cons_of_ne (Ne.symm hw.1), ih hw.2, List.cons_append]

theorem withReturns_of_not_mem (hw : '\n' ∉ w) : withReturns w = w := by
  simpa [withReturns] using withReturns_append hw []

/-! ## Unknown tokens -/

namespace Grammar

variable {s : State} {t v : Token} {xs ys ts vs : List Token} {n : Nat} {out : Database}

theorem movePlace_unknown (db : Database) (place : Place) (ht : t.kind = .unknown) :
    ∃ wanted, State.movePlace db place t = .refuse wanted := by
  cases place with
  | top => simp [State.movePlace, State.moveTop, ht, Kind.macroClose?]
  | header r => simp [State.movePlace, State.moveHeader, State.moveTop, ht, Kind.macroClose?]
  | body r afterMacro => simp [State.movePlace, State.moveBody, ht, Kind.macroClose?]
  | opening slot => simp [State.movePlace, ht]
  | value slot => simp [State.movePlace, State.moveValue, ht, Kind.macroClose?]
  | unquoted slot text =>
    rcases closer_cases slot with hslot | hslot <;>
      simp [State.movePlace, State.moveUnquoted, State.moveEnded, ht, hslot, Kind.macroClose?]
  | ended slot value =>
    rcases closer_cases slot with hslot | hslot <;>
      simp [State.movePlace, State.moveEnded, ht, hslot]

/-- An unknown token can be read in a comment on its line, and nowhere else. -/
theorem reads_unknown (hs : Closes s) (ht : t.kind = .unknown) :
    Reads s (t :: ts) out ↔ s.skipped = some (.comment t.line) ∧ Reads s ts out := by
  obtain ⟨db, place, skipped⟩ := s
  obtain ⟨wanted, hrefuse⟩ := movePlace_unknown db place ht
  rw [reads_cons]
  cases skipped with
  | none => simp [State.move, hrefuse]
  | some skipped =>
    cases skipped with
    | nested m ms =>
      have hskip := skipToken_stray (hs m ms rfl m List.mem_cons_self) ms (.inr rfl)
      simp [State.move, ht, hskip]
    | comment k =>
      by_cases hline : t.line = k
      · simp [State.move, ht, hline]
      · have hother : k ≠ t.line := Ne.symm hline
        simp [State.move, hline, hother, hrefuse]

/-- One or more unknown tokens on a line. -/
structure UnknownRun (line : Nat) (xs : List Token) : Prop where
  ne_nil : xs ≠ []
  unknown : ∀ t ∈ xs, t.kind = .unknown ∧ t.line = line

theorem UnknownRun.reads_iff (h : UnknownRun n xs) (hs : Closes s) :
    Reads s (xs ++ ts) out ↔ s.skipped = some (.comment n) ∧ Reads s ts out := by
  obtain ⟨hne, hunknown⟩ := h
  induction xs with
  | nil => exact absurd rfl hne
  | cons t xs ih =>
    obtain ⟨ht, rfl⟩ := hunknown t List.mem_cons_self
    rw [List.cons_append, reads_unknown hs ht]
    by_cases hxs : xs = []
    · rw [hxs, List.nil_append]
    · rw [ih hxs fun u hu => hunknown u (List.mem_cons_of_mem t hu)]
      tauto

/-- The tokens are the same on the same lines, except that the unknown ones of a line may be cut in
another way. -/
inductive Respelled : List Token → List Token → Prop where
  | nil : Respelled [] []
  | alike {t v : Token} {ts vs : List Token} (h : t.Alike Eq v) (later : Respelled ts vs) :
      Respelled (t :: ts) (v :: vs)
  | unknown {line : Nat} {xs ys ts vs : List Token} (hxs : UnknownRun line xs)
      (hys : UnknownRun line ys) (later : Respelled ts vs) : Respelled (xs ++ ts) (ys ++ vs)

/-- Columns do not matter. -/
theorem move_eq_of_alike (h : t.Alike Eq v) : s.move t = s.move v := by
  obtain ⟨kind, line, column, text⟩ := t
  obtain ⟨kind', line', column', text'⟩ := v
  obtain ⟨hkind, htext, hline⟩ := h
  obtain rfl : kind' = kind := hkind
  obtain rfl : text' = text := htext
  obtain rfl : line = line' := hline
  rfl

theorem reads_respelled (h : Respelled ts vs) (hs : Closes s) :
    Reads s ts out ↔ Reads s vs out := by
  induction h generalizing s with
  | nil => exact Iff.rfl
  | @alike t v ts vs ht later ih =>
    have hproper := proper_move hs t
    rw [reads_cons, reads_cons, ← move_eq_of_alike ht]
    cases hmove : s.move t with
    | finish db => exact Iff.rfl
    | refuse wanted => exact Iff.rfl
    | take next =>
      rw [hmove] at hproper
      exact ih hproper.2
  | unknown hxs hys later ih => rw [hxs.reads_iff hs, hys.reads_iff hs, ih hs]

end Grammar

/-! ## Lexemes at the end of a line -/

/-- A carriage return behind a line leaves a quote where it is closed.  A quote that is not closed
goes on to the carriage return, even past a backslash at the end of the line. -/
theorem quotableLength_return (hline : '\n' ∉ line) :
    let n := Lexeme.quotableLength line
    let m := Lexeme.quotableLength (line ++ ['\r'])
    (line.drop n).head? = some '"' ∧ m = n ∨
      (line.drop n = [] ∨ line.drop n = ['\\']) ∧ m = line.length + 1 := by
  fun_induction Lexeme.quotableLength line with
  | case1 => exact .inr ⟨.inl rfl, rfl⟩
  | case2 cs => simp at hline
  | case3 c cs hc ih =>
    simp only [List.mem_cons, not_or] at hline
    simpa [Lexeme.quotableLength, hc] using ih hline.2.2
  | case4 c cs hescape hstop =>
    simp only [Bool.or_eq_true, decide_eq_true_eq] at hstop
    rcases hstop with (rfl | rfl) | rfl
    · exact .inl ⟨rfl, rfl⟩
    · -- the backslash is the last character of the line, and escapes the carriage return
      cases cs with
      | nil => exact .inr ⟨.inr rfl, rfl⟩
      | cons d ds => exact (hescape d ds rfl rfl).elim
    · simp at hline
  | case5 c cs hescape hplain ih =>
    simp only [Bool.or_eq_true, decide_eq_true_eq, not_or] at hplain
    simp only [List.mem_cons, not_or] at hline
    have hlength : Lexeme.quotableLength (c :: (cs ++ ['\r'])) =
        Lexeme.quotableLength (cs ++ ['\r']) + 1 :=
      quotableLength_plain hplain.1.1 hplain.1.2 hplain.2
    simpa [hlength] using ih hline.2

/-- A carriage return behind a line changes the first lexeme only if it is a quote that is not
closed on the line. -/
theorem first_return (hc : Lexeme.isBlank c = false) (hline : '\n' ∉ line) :
    Lexeme.first c (line ++ ['\r']) = Lexeme.first c line ∨
      ∃ n, (line.drop n = [] ∨ line.drop n = ['\\']) ∧ Lexeme.first c line = (.unknown, n) ∧
        Lexeme.first c (line ++ ['\r']) = (.unknown, line.length + 1) := by
  by_cases hquote : c = '"'
  · subst hquote
    rw [first_quote, first_quote]
    rcases quotableLength_return hline with ⟨hclosed, hlength⟩ | ⟨hopen, hlength⟩
    · left
      simp only [hlength, List.drop_append_of_le_length (quotableLength_le line),
        head?_append_cons _ [] (show '"' ≠ '\r' by decide)]
    · right
      have hnot : (line.drop (Lexeme.quotableLength line)).head? ≠ some '"' := by
        rcases hopen with h | h <;> simp [h]
      refine ⟨_, hopen, if_neg hnot, ?_⟩
      simp [hlength]
  · left
    have hword : Lexeme.isWordChar '\r' = false := by decide
    simp only [Lexeme.first, hc, hquote, takeWhile_append_cons line [] hword,
      head?_append_cons line [] (show '(' ≠ '\r' by decide),
      head?_append_cons line [] (show '\x7b' ≠ '\r' by decide), Bool.false_eq_true, if_false]

theorem cuts_take {kind : Kind} {n : Nat} {b : List Char} (hn : n ≤ line.length)
    (h : Lexeme.first c (line ++ b) = (kind, n)) :
    Cuts kind (c :: line.take n) (line.drop n ++ b) := by
  refine ⟨c, line.take n, rfl, ?_⟩
  rw [← List.append_assoc, List.take_append_drop, h, List.length_take_of_le hn]

/-- The first lexeme of a text stays what it is if lines end in carriage returns, unless it is a
quote that is not closed on its line.  Such a lexeme then goes on to the end of its line, and the
only thing that it may have left there is a backslash. -/
theorem exists_cuts_withReturns (hc : Lexeme.isBlank c = false) (cs : List Char) :
    (∃ kind w rest, c :: cs = w ++ rest ∧ kind ≠ .blank ∧ '\n' ∉ w ∧ Cuts kind w rest ∧
      Cuts kind w (withReturns rest)) ∨
    ∃ w slash later, c :: cs = w ++ slash ++ '\n' :: later ∧ (slash = [] ∨ slash = ['\\']) ∧
      '\n' ∉ w ∧ Cuts .unknown w (slash ++ '\n' :: later) ∧
      Cuts .unknown (w ++ slash ++ ['\r']) ('\n' :: withReturns later) := by
  have hnewline : '\n' ≠ c := by
    rintro rfl
    exact absurd hc (by decide)
  by_cases hmem : '\n' ∈ cs
  · obtain ⟨line, later, rfl, hline⟩ := List.eq_append_cons_of_mem hmem
    have hbelow : ∀ b, Lexeme.first c (line ++ '\n' :: b) = Lexeme.first c line :=
      first_append_newline hc line
    have hreturn : ∀ b, Lexeme.first c (line ++ '\r' :: '\n' :: b) =
        Lexeme.first c (line ++ ['\r']) := by
      intro b
      rw [List.append_cons, first_append_newline hc]
    have hle : (Lexeme.first c line).2 ≤ line.length := first_length_le c line
    have hword : ∀ n, '\n' ∉ c :: line.take n := by
      intro n
      rw [List.mem_cons, not_or]
      exact ⟨hnewline, fun h => hline (List.mem_of_mem_take h)⟩
    rcases first_return hc hline with hsame | ⟨n, hleft, hfirst, hlonger⟩
    · left
      let n := (Lexeme.first c line).2
      refine ⟨(Lexeme.first c line).1, c :: line.take n, line.drop n ++ '\n' :: later, ?_,
        first_kind_ne_blank hc line, hword n, cuts_take hle (hbelow later), ?_⟩
      · rw [List.cons_append, ← List.append_assoc, List.take_append_drop]
      · have hdrop : '\n' ∉ line.drop n := fun h => hline (List.mem_of_mem_drop h)
        rw [withReturns_append hdrop, withReturns_newline]
        exact cuts_take hle ((hreturn _).trans hsame)
    · right
      rw [hfirst] at hle
      have hsplit : c :: line.take n ++ line.drop n = c :: line := by
        rw [List.cons_append, List.take_append_drop]
      refine ⟨c :: line.take n, line.drop n, later, ?_, hleft, hword n,
        cuts_take hle ((hbelow later).trans hfirst), ?_⟩
      · rw [hsplit, List.cons_append]
      · rw [hsplit]
        refine ⟨c, line ++ ['\r'], rfl, ?_⟩
        rw [first_append_newline hc, hlonger, List.length_append, List.length_singleton]
  · left
    obtain ⟨kind, w, rest, hsplit, hkind, hw, hcuts, -⟩ := exists_cuts hc cs
    have hrest : '\n' ∉ rest := by
      intro h
      have htext : '\n' ∈ c :: cs := hsplit ▸ List.mem_append_right w h
      exact (List.mem_cons.mp htext).elim hnewline hmem
    exact ⟨kind, w, rest, hsplit, hkind, hw, hcuts, by rwa [withReturns_of_not_mem hrest]⟩

/-! ## Tokens of a text -/

open Grammar

/-- The position after text without line feeds is on the same line. -/
theorem after_line_of_not_mem (hw : '\n' ∉ w) (p : Position) : (p.after w).line = p.line := by
  rw [Position.after_line, List.count_eq_zero_of_not_mem hw, Nat.add_zero]

/-- An unknown lexeme gives one unknown token, and a backslash behind it another one. -/
theorem exists_unknownRun {slash later : List Char} (hslash : slash = [] ∨ slash = ['\\'])
    (hw : '\n' ∉ w) (hcuts : Cuts .unknown w (slash ++ '\n' :: later)) (p : Position) :
    ∃ xs next, tokensAt p (w ++ slash ++ '\n' :: later) = xs ++ tokensAt next later ∧
      UnknownRun p.line xs ∧ next.line = p.line + 1 := by
  have hnext : ∀ r : Position, tokensAt r ('\n' :: later) = tokensAt ⟨r.line + 1, 0⟩ later :=
    fun r => tokensAt_blank (by decide) r later
  have hline : (p.after w).line = p.line := after_line_of_not_mem hw p
  let quote : Token := ⟨.unknown, p.line, p.column, String.ofList w⟩
  have hquote : tokensAt p (w ++ slash ++ '\n' :: later) =
      quote :: tokensAt (p.after w) (slash ++ '\n' :: later) := by
    rw [List.append_assoc, hcuts.tokensAt (by decide)]
  rcases hslash with rfl | rfl
  · refine ⟨[quote], ⟨p.line + 1, 0⟩, ?_, ⟨by simp, by simp [quote]⟩, rfl⟩
    rw [hquote, List.nil_append, hnext, hline, List.singleton_append]
  · let back : Token := ⟨.unknown, (p.after w).line, (p.after w).column, "\\"⟩
    have hcut : Cuts .unknown ['\\'] ('\n' :: later) := ⟨'\\', [], rfl, rfl⟩
    have hback : ((p.after w).after ['\\']).line = p.line := by
      rw [after_line_of_not_mem (by decide), hline]
    refine ⟨[quote, back], ⟨p.line + 1, 0⟩, ?_, ⟨by simp, by simp [quote, back, hline]⟩, rfl⟩
    rw [hquote, hcut.tokensAt (by decide), hnext, hback]
    rfl

/-- Carriage returns change no token but unknown ones. -/
theorem respelled_withReturns (cs : List Char) (hpq : p.line = q.line) :
    Respelled (tokensAt p cs) (tokensAt q (withReturns cs)) := by
  induction hn : cs.length using Nat.strongRecOn generalizing cs p q with
  | ind n ih =>
    cases cs with
    | nil =>
      rw [withReturns_of_not_mem (by simp), tokensAt_nil, tokensAt_nil]
      exact .alike ⟨rfl, rfl, hpq⟩ .nil
    | cons c cs =>
      have hshorter : cs.length < n := by simp [← hn]
      cases hc : Lexeme.isBlank c with
      | true =>
        rw [tokensAt_blank hc]
        by_cases hnewline : c = '\n'
        · subst hnewline
          rw [withReturns_newline, tokensAt_blank (by decide), tokensAt_blank (by decide)]
          exact ih _ hshorter cs (by simp [Position.next, hpq]) rfl
        · rw [withReturns_cons_of_ne hnewline, tokensAt_blank hc]
          exact ih _ hshorter cs (by simp [Position.next, hnewline, hpq]) rfl
      | false =>
        rcases exists_cuts_withReturns hc cs with
          ⟨kind, w, rest, hsplit, hkind, hw, hcuts, hreturns⟩ |
          ⟨w, slash, later, hsplit, hslash, hw, hcuts, hreturns⟩
        · have hrest : rest.length < n := hn ▸ hcuts.length_lt hsplit
          have hlines : (p.after w).line = (q.after w).line := by
            rw [after_line_of_not_mem hw, after_line_of_not_mem hw, hpq]
          rw [hsplit, withReturns_append hw, hcuts.tokensAt hkind, hreturns.tokensAt hkind]
          exact .alike ⟨rfl, rfl, hpq⟩ (ih _ hrest rest hlines rfl)
        · have hlater : later.length < n := by
            rw [← hn, hsplit]
            simp only [List.length_append, List.length_cons]
            omega
          have hfree : '\n' ∉ w ++ slash := by
            rcases hslash with rfl | rfl <;> simp [hw]
          have hlonger : '\n' ∉ w ++ slash ++ ['\r'] := by simpa using hfree
          obtain ⟨xs, next, htokens, hxs, hnext⟩ := exists_unknownRun hslash hw hcuts p
          obtain ⟨ys, next', htokens', hys, hnext'⟩ :=
            exists_unknownRun (.inl rfl) hlonger hreturns q
          have htext : withReturns (w ++ slash ++ '\n' :: later) =
              w ++ slash ++ ['\r'] ++ [] ++ '\n' :: withReturns later := by
            rw [withReturns_append hfree, withReturns_newline]
            simp
          rw [hsplit, htext, htokens, htokens']
          rw [← hpq] at hys
          exact .unknown hxs hys (ih _ hlater later (by rw [hnext, hnext', hpq]) rfl)

/-- Whether lines end in line feeds or in carriage returns and line feeds, the text is the same
database or none. -/
theorem parse_withReturns (text : String) (db : Database) :
    Database.parse text = .ok db ↔
      Database.parse (String.ofList (withReturns text.toList)) = .ok db := by
  have hrespelled :
      Respelled (tokenize text) (tokenize (String.ofList (withReturns text.toList))) := by
    rw [tokenize, tokenize, String.toList_ofList]
    exact respelled_withReturns text.toList rfl
  rw [Database.parse, Database.parse, ofTokens_eq_result, ofTokens_eq_result, ← reads_iff_result,
    ← reads_iff_result]
  exact reads_respelled hrespelled (closes_of_none rfl)

-- at the end of a comment, a quote and a backslash behind it become one token
example :
    let text := "# \"A\\\n"
    (tokenize text).map (·.text) = ["#", "\"A", "\\", ""] ∧
      (tokenize (String.ofList (withReturns text.toList))).map (·.text) =
        ["#", "\"A\\\r", ""] := by
  decide +kernel

end EpicsDb
