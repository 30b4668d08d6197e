import EpicsDb.Proofs.Lines

/-!
# Nothing of a text is lost

The tokens of a text stand one behind the other, each at the place that it names, and only blanks
stand between them.

* `Token.StandsBehind` says what a place means: how many line feeds come before it, and how many
  characters since the last of them.
* `Tiles` says that tokens make up a text.  `Tiles.prepend_blanks` lets a gap grow to the left, and
  `tiles_tokensAt` is the induction along the lexemes.
* `Tiles.pairwise_before` derives from it that places increase.  It needs nothing else: tokens other
  than the last one are not empty.
-/

namespace EpicsDb

variable {before gap rest : List Char} {t u : Token} {ts : List Token}

/-! ## Places of tokens -/

/-- The token names the place behind the text: lines are counted from one, and columns from zero in
characters since the last line feed. -/
def Token.StandsBehind (t : Token) (before : List Char) : Prop :=
  t.line = 1 + before.count '\n' ∧ t.column = (before.rtakeWhile (· ≠ '\n')).length

/-- The place of the first token comes before the place of the second one. -/
def Token.Before (t u : Token) : Prop :=
  t.line < u.line ∨ t.line = u.line ∧ t.column < u.column

theorem standsBehind_after (kind : Kind) (before : List Char) (text : String) :
    Token.StandsBehind ⟨kind, (Position.start.after before).line,
      (Position.start.after before).column, text⟩ before :=
  ⟨Position.after_line .start before, Position.after_column 1 before⟩

/-- Places behind longer texts come later. -/
theorem Token.before_of_standsBehind {further : List Char} (ht : t.StandsBehind before)
    (hu : u.StandsBehind (before ++ further)) (hne : further ≠ []) : t.Before u := by
  obtain ⟨htline, htcolumn⟩ := ht
  obtain ⟨huline, hucolumn⟩ := hu
  rw [List.count_append] at huline
  by_cases hmem : '\n' ∈ further
  · -- a later line, whatever the columns
    have hpos : 0 < further.count '\n' := List.count_pos_iff.mpr hmem
    exact .inl (by omega)
  · have hcount : further.count '\n' = 0 := List.count_eq_zero_of_not_mem hmem
    have hlength : 0 < further.length := List.length_pos_of_ne_nil hne
    have hrun : (before ++ further).rtakeWhile (· ≠ '\n') =
        before.rtakeWhile (· ≠ '\n') ++ further := by
      have hfree : ∀ c ∈ further.reverse, decide (c ≠ '\n') = true := by
        intro c hc
        have hne : c ≠ '\n' := fun h => hmem (h ▸ List.mem_reverse.mp hc)
        simpa using hne
      rw [List.rtakeWhile, List.reverse_append, List.takeWhile_append_of_pos hfree,
        List.reverse_append, List.reverse_reverse]
      rfl
    rw [hrun, List.length_append] at hucolumn
    exact .inr ⟨by omega, by omega⟩

/-! ## Tokens that make up a text -/

/-- The tokens make up the text `rest` that stands behind `before`.  A gap of blanks may stand
before each of them; each is written with at least one character and on one line, up to the end of
file, which stands at the end of the text. -/
inductive Tiles : List Char → List Char → List Token → Prop where
  | last {before gap : List Char} {t : Token} (hgap : ∀ c ∈ gap, Lexeme.isBlank c = true)
      (hkind : t.kind = .endOfFile) (htext : t.text = "")
      (hplace : t.StandsBehind (before ++ gap)) : Tiles before gap [t]
  | more {before gap rest : List Char} {t : Token} {ts : List Token}
      (hgap : ∀ c ∈ gap, Lexeme.isBlank c = true) (hkind : t.kind ≠ .endOfFile)
      (htext : t.text ≠ "") (hline : '\n' ∉ t.text.toList) (hplace : t.StandsBehind (before ++ gap))
      (later : Tiles (before ++ gap ++ t.text.toList) rest ts) :
      Tiles before (gap ++ t.text.toList ++ rest) (t :: ts)

namespace Tiles

theorem prepend_blanks (hgap : ∀ c ∈ gap, Lexeme.isBlank c = true)
    (h : Tiles (before ++ gap) rest ts) : Tiles before (gap ++ rest) ts := by
  have hboth : ∀ {gap' : List Char}, (∀ c ∈ gap', Lexeme.isBlank c = true) →
      ∀ c ∈ gap ++ gap', Lexeme.isBlank c = true := by
    intro gap' hgap' c hc
    exact (List.mem_append.mp hc).elim (hgap c) (hgap' c)
  cases h with
  | last hgap' hkind htext hplace =>
    exact .last (hboth hgap') hkind htext (by rwa [← List.append_assoc])
  | more hgap' hkind htext hline hplace later =>
    rw [← List.append_assoc, ← List.append_assoc]
    rw [List.append_assoc before] at hplace later
    exact .more (hboth hgap') hkind htext hline hplace later

/-- A token without a gap before it. -/
theorem cons_word {w : List Char} (hkind : t.kind ≠ .endOfFile) (hne : w ≠ [])
    (hline : '\n' ∉ w) (htext : t.text = String.ofList w) (hplace : t.StandsBehind before)
    (h : Tiles (before ++ w) rest ts) : Tiles before (w ++ rest) (t :: ts) := by
  obtain rfl : t.text.toList = w := by rw [htext, String.toList_ofList]
  have hnone : ∀ c ∈ ([] : List Char), Lexeme.isBlank c = true := by simp
  refine .more hnone hkind ?_ hline ?_ ?_
  · simpa using hne
  · simpa using hplace
  · simpa using h

/-- Every token stands somewhere behind the text before. -/
theorem exists_standsBehind (h : Tiles before rest ts) (ht : t ∈ ts) :
    ∃ further, t.StandsBehind (before ++ further) := by
  induction h with
  | @last before gap last hgap hkind htext hplace =>
    obtain rfl := List.mem_singleton.mp ht
    exact ⟨gap, hplace⟩
  | @more before gap rest first ts hgap hkind htext hline hplace later ih =>
    rcases List.mem_cons.mp ht with rfl | ht
    · exact ⟨gap, hplace⟩
    · obtain ⟨further, hfurther⟩ := ih ht
      rw [List.append_assoc, List.append_assoc] at hfurther
      exact ⟨_, hfurther⟩

/-- Places increase from token to token. -/
theorem pairwise_before (h : Tiles before rest ts) : ts.Pairwise Token.Before := by
  induction h with
  | last => exact List.pairwise_singleton _ _
  | @more before gap rest first ts hgap hkind htext hline hplace later ih =>
    refine List.pairwise_cons.mpr ⟨?_, ih⟩
    intro u hu
    obtain ⟨further, hfurther⟩ := later.exists_standsBehind hu
    rw [List.append_assoc] at hfurther
    have hne : first.text.toList ++ further ≠ [] := by simp [htext]
    exact Token.before_of_standsBehind hplace hfurther hne

end Tiles

theorem Cuts.kind_ne_endOfFile {kind : Kind} {w : List Char} (h : Cuts kind w rest) :
    kind ≠ .endOfFile := by
  obtain ⟨c, cs, -, hfirst⟩ := h
  have hkind := first_kind_ne_endOfFile c (cs ++ rest)
  rwa [hfirst] at hkind

theorem tiles_tokensAt (before rest : List Char) :
    Tiles before rest (tokensAt (Position.start.after before) rest) := by
  induction hn : rest.length using Nat.strongRecOn generalizing before rest with
  | ind n ih =>
    cases rest with
    | nil =>
      rw [tokensAt_nil]
      exact .last (by simp) rfl rfl (by simpa using standsBehind_after _ before _)
    | cons c cs =>
      cases hc : Lexeme.isBlank c with
      | true =>
        have hlater := ih cs.length (by simp [← hn]) (before ++ [c]) cs rfl
        rw [Position.after_concat] at hlater
        rw [tokensAt_blank hc]
        have hgap : ∀ d ∈ [c], Lexeme.isBlank d = true := by simpa using hc
        exact hlater.prepend_blanks hgap
      | false =>
        obtain ⟨kind, w, rest, hsplit, hkind, hline, hcuts, -⟩ := exists_cuts hc cs
        have hrest : rest.length < n := hn ▸ hcuts.length_lt hsplit
        have hlater := ih rest.length hrest (before ++ w) rest rfl
        rw [Position.after_append] at hlater
        rw [hsplit, hcuts.tokensAt hkind]
        exact hlater.cons_word hcuts.kind_ne_endOfFile hcuts.ne_nil hline rfl
          (standsBehind_after kind before _)

/-- The tokens of a text, put at their places, make up the text apart from blanks between them, and
their places increase. -/
theorem tokenize_tiles_text (text : String) :
    Tiles [] text.toList (tokenize text) ∧ (tokenize text).Pairwise Token.Before := by
  have htiles : Tiles [] text.toList (tokenize text) := tiles_tokensAt [] text.toList
  exact ⟨htiles, htiles.pairwise_before⟩

end EpicsDb
