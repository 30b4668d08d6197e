import EpicsDb.Proofs.Concatenation

/-!
# Comments on lines of their own

A line with a comment may be put below any database, and below any text behind it, without a change
to what is read.  The comment is cut into tokens like all other text, so it may open quotes, macros
and bodies; none of them is open any more on the next line.

* `exists_comment_tokens` says that the tokens of a comment are on its line, and that a hash is the
  first of them.
* `reads_comment_line` passes over such tokens at every place where comments may stand.
-/

namespace EpicsDb

variable {c : String} {out : Database}

/-- The tokens of a comment start with its hash and stay on its line. -/
theorem exists_comment_tokens (hc : '\n' ∉ c.toList) :
    ∃ hash words, (tokenize ("#" ++ c)).dropLast = hash :: words ∧ hash.kind = .hash ∧
      ∀ t ∈ hash :: words, t.line = 1 ∧ t.kind ≠ .endOfFile := by
  have htext : ("#" ++ c).toList = ['#'] ++ c.toList := by simp
  have hcuts : Cuts .hash ['#'] c.toList := cuts_mark (c := '#') (by decide)
  have htokens : tokenize ("#" ++ c) =
      ⟨.hash, 1, 0, "#"⟩ :: tokensAt (Position.start.after ['#']) c.toList := by
    rw [tokenize, htext]
    exact hcuts.tokensAt (by decide) .start
  have hdrop := List.dropLast_cons_of_ne_nil (x := ⟨.hash, 1, 0, "#"⟩)
    (tokensAt_ne_nil (Position.start.after ['#']) c.toList)
  rw [← htokens] at hdrop
  refine ⟨_, _, hdrop, rfl, ?_⟩
  rw [← hdrop]
  intro t ht
  constructor
  · have hmem : t ∈ tokenize ("#" ++ c) := (List.dropLast_sublist _).subset ht
    have htiles : Tiles [] ("#" ++ c).toList (tokenize ("#" ++ c)) := tiles_tokensAt [] _
    have hlower : 1 ≤ t.line := htiles.le_line hmem
    have hupper : t.line ≤ 1 + ("#" ++ c).toList.count '\n' := htiles.line_le hmem
    have hcount : ("#" ++ c).toList.count '\n' = 0 :=
      List.count_eq_zero_of_not_mem (by simpa [htext] using hc)
    omega
  · obtain ⟨before, last, hsplit, -, hbefore⟩ := endsOnce_tokenize ("#" ++ c)
    rw [hsplit, List.dropLast_concat] at ht
    exact hbefore t ht

namespace Grammar

variable {db : Database} {place : Place} {hash : Token} {words rest : List Token}

/-- A line with a comment is passed over where a comment may stand and leaves the place as it is. -/
theorem reads_comment_line (hplace : TakesFillers db place fun _ => place)
    (hhash : hash.kind = .hash)
    (hwords : ∀ t ∈ words, t.line = hash.line ∧ t.kind ≠ .endOfFile)
    (hrest : ∀ t ∈ rest, t.line ≠ hash.line) :
    Reads ⟨db, place, none⟩ (hash :: words ++ rest) out ↔ Reads ⟨db, place, none⟩ rest out := by
  have hinside : ∀ t ∈ words, inComment hash.line t = true := by
    intro t ht
    simpa [inComment] using hwords t ht
  rw [List.cons_append, reads_cons]
  simp only [State.move, hplace.comment hash hhash, State.enterComment]
  rw [reads_comment, List.dropWhile_append_of_pos hinside, dropWhile_inComment hrest]

end Grammar

open Grammar

/-- A comment on a line of its own below a database changes nothing, whatever stands in it and
whatever comes behind it.  The database may end in a record whose body opens below the comment. -/
theorem parse_insert_comment (a b c : String) (da : Database) (ha : Database.parse a = .ok da)
    (hc : '\n' ∉ c.toList) (out : Database) :
    Database.parse (a ++ "\n#" ++ c ++ "\n" ++ b) = .ok out ↔
      Database.parse (a ++ "\n" ++ b) = .ok out := by
  obtain ⟨db, place, hplace, hparse⟩ := exists_place_of_parse ha
  obtain ⟨hash, words, htokens, hhash, hwords⟩ := exists_comment_tokens hc
  have htext : a ++ "\n#" ++ c ++ "\n" ++ b = a ++ "\n" ++ ("#" ++ c ++ "\n" ++ b) := by
    rw [← String.toList_inj]
    simp
  have hfillers : TakesFillers db place fun _ => place := by
    rcases hplace with ⟨rfl, -⟩ | ⟨r, rfl, -⟩
    · exact takesFillers_top
    · exact takesFillers_header
  have hline : hash.line = 1 := (hwords hash List.mem_cons_self).1
  have hsame : ∀ t ∈ words, t.line = hash.line ∧ t.kind ≠ .endOfFile := by
    intro t ht
    rw [hline]
    exact hwords t (List.mem_cons_of_mem hash ht)
  have hbelow : ∀ u ∈ (tokenize b).map (Token.moveDown (1 + ("#" ++ c).toList.count '\n')),
      u.line ≠ hash.line := by
    intro u hu
    have hmem : hash ∈ tokenize ("#" ++ c) := by
      apply (List.dropLast_sublist _).subset
      rw [htokens]
      exact List.mem_cons_self
    exact (line_lt_of_mem hmem hu).ne'
  calc Database.parse (a ++ "\n#" ++ c ++ "\n" ++ b) = .ok out
      ↔ Reads ⟨db, place, none⟩ (tokenize ("#" ++ c ++ "\n" ++ b)) out := by rw [htext, hparse]
    _ ↔ Reads ⟨db, place, none⟩ (tokenize b) out := by
        rw [tokenize_append, htokens, reads_comment_line hfillers hhash hsame hbelow,
          reads_moveDown]
    _ ↔ Database.parse (a ++ "\n" ++ b) = .ok out := (hparse b out).symm

/-- The theorem at a record whose body opens below the comment, with a quote, a macro and a brace
that the comment leaves open. -/
theorem parse_insert_comment_before_body :
    let a := "record(ai, A) # $("
    let c := " \" $( \x7b record(\\"
    let b := "\x7b field(EGU, K) \x7d"
    let out : Database := ⟨"", [⟨"ai", "A", [.of "EGU" "K" false], [], []⟩]⟩
    (Database.parse a = .ok ⟨"", [.bare "ai" "A"]⟩ ∧ '\n' ∉ c.toList) ∧
      Database.parse (a ++ "\n" ++ b) = .ok out ∧
      Database.parse (a ++ "\n#" ++ c ++ "\n" ++ b) = .ok out := by
  intro a c b out
  have ha : Database.parse a = .ok ⟨"", [.bare "ai" "A"]⟩ := by decide +kernel
  have hc : '\n' ∉ c.toList := by decide +kernel
  have hbelow : Database.parse (a ++ "\n" ++ b) = .ok out := by decide +kernel
  exact ⟨⟨ha, hc⟩, hbelow, (parse_insert_comment a b c _ ha hc out).mpr hbelow⟩

end EpicsDb
