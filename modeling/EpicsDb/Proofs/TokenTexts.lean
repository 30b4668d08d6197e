import EpicsDb.Proofs.Coverage

/-!
# The texts of tokens

What a token is was decided with the text behind it in view.  Its own text decides it again: cut on
its own, it gives the same token.

* `first_take` says this of the scanner.  A run ends where it ended, a quote that was closed is
  closed, and one that was not stays open.
* `exists_cuts_of_mem` finds the lexeme of a token, and `tokenize_of_cuts` cuts its text again.
* `content_tokenize_joined` goes on to texts with line feeds between them, which keep the tokens
  apart.
-/

namespace EpicsDb

variable {c : Char} {cs w rest : List Char} {kind : Kind} {t : Token}

/-! ## One lexeme -/

theorem takeWhile_take_length (q : Char → Bool) (cs : List Char) :
    (cs.take (cs.takeWhile q).length).takeWhile q = cs.takeWhile q := by
  rw [← List.prefix_iff_eq_take.mp (List.takeWhile_prefix q), List.takeWhile_takeWhile]
  simp

theorem first_quote_take (cs : List Char) :
    Lexeme.first '"' (cs.take (Lexeme.first '"' cs).2) = Lexeme.first '"' cs := by
  have hquotable := quotable_take cs
  have hlength : (cs.take (Lexeme.quotableLength cs)).length = Lexeme.quotableLength cs :=
    List.length_take_of_le (quotableLength_le cs)
  rw [first_quote cs]
  split_ifs with hclosed
  · -- the closing quote is the last character of the lexeme
    rw [take_succ_of_head? hclosed, first_quote, quotableLength_append hquotable [],
      List.drop_left' rfl, hlength]
    rfl
  · rw [first_quote, quotable_iff.mp hquotable, List.drop_length, hlength]
    rfl

theorem first_dollar_take (cs : List Char) :
    Lexeme.first '$' (cs.take (Lexeme.first '$' cs).2) = Lexeme.first '$' cs := by
  rw [first_dollar cs]
  split_ifs with hbracket hbrace
  · rw [first_dollar, List.head?_take, hbracket]
    rfl
  · rw [first_dollar, List.head?_take, hbrace]
    rfl
  · rfl

/-- The scanner cuts a lexeme on its own as it cuts it at the head of its text. -/
theorem first_take (c : Char) (cs : List Char) :
    Lexeme.first c (cs.take (Lexeme.first c cs).2) = Lexeme.first c cs := by
  rcases char_cases c with hblank | hword | rfl | rfl | hmark
  · rw [first_blank hblank, first_blank hblank, takeWhile_take_length]
  · rw [first_wordChar hword, first_wordChar hword, takeWhile_take_length]
  · exact first_quote_take cs
  · exact first_dollar_take cs
  · rw [first_mark hmark, first_mark hmark]

theorem Cuts.alone (h : Cuts kind w rest) : Cuts kind w [] := by
  obtain ⟨c, cs, rfl, hfirst⟩ := h
  have halone := first_take c (cs ++ rest)
  rw [hfirst, List.take_left' rfl] at halone
  exact ⟨c, cs, rfl, by rw [List.append_nil, halone]⟩

/-! ## One token -/

theorem exists_cuts_of_mem {p : Position} (ht : t ∈ tokensAt p cs) (hkind : t.kind ≠ .endOfFile) :
    ∃ rest, Cuts t.kind t.text.toList rest ∧ t.kind ≠ .blank ∧ '\n' ∉ t.text.toList := by
  induction hn : cs.length using Nat.strongRecOn generalizing p cs with
  | ind n ih =>
    cases cs with
    | nil =>
      rw [tokensAt_nil, List.mem_singleton] at ht
      rw [ht] at hkind
      exact absurd rfl hkind
    | cons c cs =>
      cases hc : Lexeme.isBlank c with
      | true =>
        rw [tokensAt_blank hc] at ht
        exact ih cs.length (by simp [← hn]) ht rfl
      | false =>
        obtain ⟨kind, w, rest, hsplit, hblank, hline, hcuts, -⟩ := exists_cuts hc cs
        rw [hsplit, hcuts.tokensAt hblank] at ht
        rcases List.mem_cons.mp ht with rfl | ht
        · refine ⟨rest, ?_⟩
          rw [String.toList_ofList]
          exact ⟨hcuts, hblank, hline⟩
        · exact ih rest.length (hn ▸ hcuts.length_lt hsplit) ht rfl

theorem after_of_not_mem (line : Nat) (h : '\n' ∉ cs) :
    Position.after ⟨line, 0⟩ cs = ⟨line, cs.length⟩ := by
  have hrun : cs.rtakeWhile (· ≠ '\n') = cs := by
    apply List.rtakeWhile_eq_self_iff.mpr
    intro c hc
    have hne : c ≠ '\n' := fun hc' => h (hc' ▸ hc)
    simpa using hne
  have hline := Position.after_line ⟨line, 0⟩ cs
  have hcolumn := Position.after_column line cs
  rw [List.count_eq_zero_of_not_mem h] at hline
  rw [hrun] at hcolumn
  rw [← hcolumn]
  exact congrArg (Position.mk · _) hline

theorem tokenize_of_cuts {text : String} (h : Cuts kind text.toList rest) (hblank : kind ≠ .blank)
    (hline : '\n' ∉ text.toList) :
    tokenize text = [⟨kind, 1, 0, text⟩, ⟨.endOfFile, 1, text.length, ""⟩] := by
  have hafter : Position.start.after text.toList = ⟨1, text.length⟩ := by
    rw [Position.start, after_of_not_mem 1 hline, String.length_toList]
  have htokens := h.alone.tokensAt hblank .start
  rw [List.append_nil, hafter, tokensAt_nil, String.ofList_toList] at htokens
  exact htokens

theorem tokenize_text {source : String} (ht : t ∈ tokenize source) (hkind : t.kind ≠ .endOfFile) :
    tokenize t.text = [⟨t.kind, 1, 0, t.text⟩, ⟨.endOfFile, 1, t.text.length, ""⟩] := by
  obtain ⟨rest, hcuts, hblank, hline⟩ := exists_cuts_of_mem ht hkind
  exact tokenize_of_cuts hcuts hblank hline

/-! ## Tokens on lines of their own -/

/-- What a token is apart from its place. -/
def Token.content (t : Token) : Kind × String :=
  (t.kind, t.text)

theorem map_content_moveDown (n : Nat) (ts : List Token) :
    (ts.map (Token.moveDown n)).map Token.content = ts.map Token.content := by
  rw [List.map_map]
  rfl

/-- A token on a line of its own before a text. -/
theorem content_tokenize_cons
    (h : tokenize t.text = [⟨t.kind, 1, 0, t.text⟩, ⟨.endOfFile, 1, t.text.length, ""⟩])
    (later : String) :
    (tokenize (t.text ++ "\n" ++ later)).map Token.content =
      t.content :: (tokenize later).map Token.content := by
  rw [tokenize_append, h, List.map_append, map_content_moveDown]
  rfl

/-- Tokens on lines of their own, and a text behind them. -/
theorem content_tokenize_joined {ts : List Token}
    (h : ∀ t ∈ ts, tokenize t.text = [⟨t.kind, 1, 0, t.text⟩, ⟨.endOfFile, 1, t.text.length, ""⟩])
    (last : String) :
    (tokenize ("\n".intercalate (ts.map (·.text) ++ [last]))).map Token.content =
      ts.map Token.content ++ (tokenize last).map Token.content := by
  induction ts with
  | nil => rw [List.map_nil, List.nil_append, String.intercalate_singleton, List.map_nil,
      List.nil_append]
  | cons t ts ih =>
    rw [List.forall_mem_cons] at h
    rw [List.map_cons, List.cons_append, String.intercalate_cons_of_ne_nil (by simp),
      content_tokenize_cons h.1, ih h.2]
    rfl

theorem Tiles.text_of_endOfFile {before : List Char} {ts : List Token} (h : Tiles before rest ts)
    (ht : t ∈ ts) (hkind : t.kind = .endOfFile) : t.text = "" := by
  induction h with
  | last hgap hlast htext hplace =>
    obtain rfl := List.mem_singleton.mp ht
    exact htext
  | more hgap hfirst htext hline hplace later ih =>
    rcases List.mem_cons.mp ht with rfl | ht
    · exact absurd hkind hfirst
    · exact ih ht

/-- The tokens of a text before its end of file. -/
theorem exists_tokens_before_end (source : String) :
    ∃ ts last, tokenize source = ts ++ [last] ∧ last.content = (.endOfFile, "") ∧
      ∀ t ∈ ts, tokenize t.text = [⟨t.kind, 1, 0, t.text⟩, ⟨.endOfFile, 1, t.text.length, ""⟩] := by
  obtain ⟨ts, last, htokens, hlast, hbefore⟩ := endsOnce_tokenize source
  have htiles : Tiles [] source.toList (tokenize source) := tiles_tokensAt [] source.toList
  have htext : last.text = "" := htiles.text_of_endOfFile (by simp [htokens]) hlast
  refine ⟨ts, last, htokens, Prod.ext hlast htext, ?_⟩
  intro t ht
  have hmem : t ∈ tokenize source := by simp [htokens, ht]
  exact tokenize_text hmem (hbefore t ht)

/-- The text of a token is that token again.  The texts of the tokens of a text, on lines of their
own, are cut into tokens of the same kinds and texts, with or without a line for the end of file. -/
theorem tokens_survive_recutting (source : String) :
    (∀ t ∈ tokenize source, t.kind ≠ .endOfFile →
      tokenize t.text = [⟨t.kind, 1, 0, t.text⟩, ⟨.endOfFile, 1, t.text.length, ""⟩]) ∧
    (tokenize ("\n".intercalate ((tokenize source).dropLast.map (·.text)))).map Token.content =
      (tokenize source).map Token.content ∧
    (tokenize ("\n".intercalate ((tokenize source).map (·.text)))).map Token.content =
      (tokenize source).map Token.content := by
  refine ⟨fun t ht hkind => tokenize_text ht hkind, ?_⟩
  obtain ⟨ts, last, htokens, hlast, hts⟩ := exists_tokens_before_end source
  have hempty : (tokenize "").map Token.content = [last.content] := by
    have hnil : tokenize "" = [⟨.endOfFile, 1, 0, ""⟩] := tokensAt_nil .start
    rw [hlast, hnil]
    rfl
  have htext : last.text = "" := congrArg Prod.snd hlast
  rw [htokens, List.dropLast_concat, List.map_append, List.map_append, List.map_singleton,
    List.map_singleton, htext, content_tokenize_joined hts "", hempty]
  refine ⟨?_, rfl⟩
  rcases List.eq_nil_or_concat' ts with rfl | ⟨front, t, rfl⟩
  · exact hempty
  · -- the last line holds the last token, and ends the text
    rw [List.forall_mem_append] at hts
    have ht := hts.2 t List.mem_cons_self
    rw [List.map_append, List.map_singleton, content_tokenize_joined hts.1, ht, List.map_append,
      List.append_assoc, hlast]
    rfl

/-- The theorem at a quote that is not closed, before a backslash at the end of its line. -/
theorem tokens_survive_recutting_open_quote :
    let source := "$record \"A\\\n\""
    let t : Token := ⟨.unknown, 1, 8, "\"A"⟩
    t ∈ tokenize source ∧ t.kind ≠ .endOfFile ∧
      tokenize "\"A" = [⟨.unknown, 1, 0, "\"A"⟩, ⟨.endOfFile, 1, "\"A".length, ""⟩] := by
  intro source t
  have ht : t ∈ tokenize source := by decide +kernel
  have hkind : t.kind ≠ .endOfFile := by decide
  exact ⟨ht, hkind, (tokens_survive_recutting source).1 t ht hkind⟩

end EpicsDb
