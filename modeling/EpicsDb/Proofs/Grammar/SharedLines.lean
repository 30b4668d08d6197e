import EpicsDb.Proofs.Grammar.Layout
import Mathlib.Data.List.Forall2

/-!
# Token lists that are laid out alike

Two lists of tokens are laid out alike if they have the same kinds and texts, and tokens share a
line in one of them if and only if they do in the other.  Such lists give the same database, or are
refused at tokens with the same index for the same reason.

* `Grammar.SameLayout` compares the lists index by index; `SameLayout.matchesLines` and
  `SameLayout.alike` turn it into a match of lines under which the tokens are alike.
* `Grammar.RefusedAt` says at which token a reading stops: the cursor is left there, with the
  tokens behind it still to come.
* `SameEnd` relates two readings that end in the same way, and `sameEnd_run` is the induction along
  the tokens.
-/

namespace EpicsDb.Grammar

variable {ts vs : List Token} {s u : State} {t v : Token} {R : Nat → Nat → Prop}

/-! ## Layouts -/

/-- The lists have the same kinds and texts, and tokens share a line in one of them if and only if
they do in the other. -/
structure SameLayout (ts vs : List Token) : Prop where
  kinds : ts.map (·.kind) = vs.map (·.kind)
  texts : ts.map (·.text) = vs.map (·.text)
  lines : ∀ i < ts.length, ∀ j < ts.length,
    (ts[i]?.map (·.line) = ts[j]?.map (·.line) ↔ vs[i]?.map (·.line) = vs[j]?.map (·.line))

/-- The lines of two tokens with the same index. -/
def LinesAt (ts vs : List Token) (k l : Nat) : Prop :=
  ∃ i < ts.length, ts[i]?.map (·.line) = some k ∧ vs[i]?.map (·.line) = some l

namespace SameLayout

theorem matchesLines (h : SameLayout ts vs) : MatchesLines (LinesAt ts vs) := by
  rintro k l m n ⟨i, hi, hk, hl⟩ ⟨j, hj, hm, hn⟩
  have hshared := h.lines i hi j hj
  rw [hk, hl, hm, hn] at hshared
  simpa using hshared

theorem alike (h : SameLayout ts vs) : List.Forall₂ (Token.Alike (LinesAt ts vs)) ts vs := by
  have hlength : ts.length = vs.length := by simpa using congrArg List.length h.kinds
  rw [List.forall₂_iff_get]
  refine ⟨hlength, ?_⟩
  intro i hts hvs
  refine ⟨?_, ?_, ?_⟩
  · have hkind := congrArg (·[i]?) h.kinds
    simpa [hts, hvs, eq_comm] using hkind
  · have htext := congrArg (·[i]?) h.texts
    simpa [hts, hvs, eq_comm] using htext
  · exact ⟨i, hts, by simp [hts], by simp [hvs]⟩

end SameLayout

/-! ## How readings end -/

/-- Reading the tokens stops at the one with the given index, which is not what is wanted there. -/
def RefusedAt (tokens : List Token) (i : Nat) (wanted : Expectation) : Prop :=
  ∃ found cursor, tokens[i]? = some found ∧ Cursor.ofItems (tokens.map .ok) = .ok cursor ∧
    cursor.read =
      (.error (.unexpected found wanted), ⟨found, (tokens.drop (i + 1)).map .ok⟩)

/-- Readings of the two lists end with the same database, or at tokens with the same index for the
same reason. -/
inductive SameEnd (ts vs : List Token) :
    Except SyntaxError Database × Cursor → Except SyntaxError Database × Cursor → Prop where
  | accepted (db : Database) (c d : Cursor) : SameEnd ts vs (.ok db, c) (.ok db, d)
  | refused {i : Nat} {t v : Token} (ht : ts[i]? = some t) (hv : vs[i]? = some v)
      (wanted : Expectation) :
      SameEnd ts vs (.error (.unexpected t wanted), ⟨t, (ts.drop (i + 1)).map .ok⟩)
        (.error (.unexpected v wanted), ⟨v, (vs.drop (i + 1)).map .ok⟩)

/-- Tokens before those that have been read shift the index. -/
theorem SameEnd.cons {x y : Except SyntaxError Database × Cursor} (h : SameEnd ts vs x y)
    (t v : Token) : SameEnd (t :: ts) (v :: vs) x y := by
  cases h with
  | accepted db c d => exact .accepted db c d
  | @refused i found found' ht hv wanted =>
    exact .refused (i := i + 1) (by simpa using ht) (by simpa using hv) wanted

/-- Readings of lists that are alike end in the same way. -/
theorem sameEnd_run (hR : MatchesLines R) (hs : s.Alike R u) (ht : t.Alike R v)
    (hts : List.Forall₂ (Token.Alike R) ts vs) :
    SameEnd (t :: ts) (v :: vs) (Cursor.run s t (ts.map .ok)) (Cursor.run u v (vs.map .ok)) := by
  induction hts generalizing s u t v with
  | nil =>
    have hmove := alike_move hR hs ht
    unfold Cursor.run
    generalize s.move t = m at hmove ⊢
    generalize u.move v = n at hmove ⊢
    cases hmove with
    | finish db => exact .accepted db _ _
    | refuse wanted => exact .refused (i := 0) rfl rfl wanted
    | take hnext => exact .refused (i := 0) rfl rfl .furtherToken
  | @cons t' v' ts vs ht' hts ih =>
    have hmove := alike_move hR hs ht
    unfold Cursor.run
    generalize s.move t = m at hmove ⊢
    generalize u.move v = n at hmove ⊢
    cases hmove with
    | finish db => exact .accepted db _ _
    | refuse wanted => exact .refused (i := 0) rfl rfl wanted
    | take hnext => exact (ih hnext ht').cons t v

end EpicsDb.Grammar

namespace EpicsDb

open Grammar

/-- Lists of tokens that are laid out alike give the same database, or are refused at tokens with
the same index for the same reason.  Only the empty list has no token to be refused at. -/
theorem ofTokens_of_sameLayout (ts vs : List Token) (h : SameLayout ts vs) :
    (∃ db, Database.ofTokens ts = .ok db ∧ Database.ofTokens vs = .ok db) ∨
      (∃ i wanted, RefusedAt ts i wanted ∧ RefusedAt vs i wanted) ∨
      ts = [] ∧ vs = [] ∧
        Database.ofTokens ts = .error .noTokens ∧ Database.ofTokens vs = .error .noTokens := by
  have halike := h.alike
  cases ts with
  | nil =>
    obtain rfl : vs = [] := List.forall₂_nil_left_iff.mp halike
    exact .inr (.inr ⟨rfl, rfl, rfl, rfl⟩)
  | cons t ts =>
    obtain ⟨v, vs, ht, hts, rfl⟩ := List.forall₂_cons_left_iff.mp halike
    have hinitial : State.Alike (LinesAt (t :: ts) (v :: vs)) .initial .initial :=
      ⟨rfl, rfl, .none⟩
    have hend := sameEnd_run (fun hk hm => h.matchesLines hk hm) hinitial ht hts
    generalize hx : Cursor.run .initial t (ts.map .ok) = x at hend
    generalize hy : Cursor.run .initial v (vs.map .ok) = y at hend
    cases hend with
    | accepted db c d => exact .inl ⟨db, congrArg Prod.fst hx, congrArg Prod.fst hy⟩
    | @refused i found found' hfound hfound' wanted =>
      exact .inr (.inl ⟨i, wanted, ⟨found, ⟨t, ts.map .ok⟩, hfound, rfl, hx⟩,
        ⟨found', ⟨v, vs.map .ok⟩, hfound', rfl, hy⟩⟩)

/-- The theorem at tokens with a comment in a header and one in a body, on four lines and on eight.
What stands in the comments is not read, and the word `info` behind them is followed by a brace. -/
theorem sameLayout_two_comments :
    let low := tokenize "record(ai, A) # (\n\x7b field(EGU, $(U=#)\n) # info (\ninfo \x7d"
    let high :=
      tokenize "\nrecord(ai,A)   #(\n\n\n\x7b field (EGU, $(U = #)\n)# info(\n\n  info\x7d"
    low ≠ high ∧ SameLayout low high ∧
      ∃ i wanted, RefusedAt low i wanted ∧ RefusedAt high i wanted := by
  intro low high
  have hlayout : SameLayout low high := ⟨by decide +kernel, by decide +kernel, by decide +kernel⟩
  refine ⟨by decide +kernel, hlayout, ?_⟩
  rcases ofTokens_of_sameLayout low high hlayout with ⟨db, hlow, -⟩ | hrefused | ⟨hempty, -⟩
  · have hnone : (Database.ofTokens low).toOption = none := by decide +kernel
    rw [hlow] at hnone
    cases hnone
  · exact hrefused
  · exact absurd hempty (by decide +kernel)

end EpicsDb
