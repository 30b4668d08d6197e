import EpicsDb.Macro
import Mathlib.Tactic.Common

/-!
# Replacing and cutting text

What `Text.replaceAll` and `Text.pieces` do to the first characters of a text.

* `replaceAll_append` says that text in which nothing matches stays as it is, and
  `replaceAll_flatMap` that pieces which are each replaced on their own may be put in a row.
* `Macro.replaceAll_atDollar_append` says the same of text without a dollar, for every pattern that
  matches at a dollar; `Macro.atDollar_eq_some_iff` says where such a pattern matches.
* `pieces_cons` and `pieces_append` take the first piece off a text.
-/

namespace EpicsDb

variable {c : Char} {cs w rest : List Char}

namespace Text

variable {pattern : Pattern} {p : Char → Bool}

theorem replaceAll_nil : replaceAll pattern [] = [] := by
  rw [replaceAll]

theorem replaceAll_cons_of_none (h : pattern c cs = none) :
    replaceAll pattern (c :: cs) = c :: replaceAll pattern cs := by
  rw [replaceAll, h]

theorem replaceAll_cons_of_some {replacement : List Char} {n : Nat}
    (h : pattern c cs = some (replacement, n)) :
    replaceAll pattern (c :: cs) = replacement ++ replaceAll pattern (cs.drop n) := by
  rw [replaceAll, h]

/-- A match is replaced, and what follows it is read on its own. -/
theorem replaceAll_match_append {replacement : List Char}
    (h : pattern c (w ++ rest) = some (replacement, w.length)) :
    replaceAll pattern (c :: w ++ rest) = replacement ++ replaceAll pattern rest := by
  rw [List.cons_append, replaceAll_cons_of_some h, List.drop_left]

/-- Text in which nothing matches stays as it is. -/
theorem replaceAll_append (h : ∀ c ∈ w, ∀ cs, pattern c cs = none) (rest : List Char) :
    replaceAll pattern (w ++ rest) = w ++ replaceAll pattern rest := by
  induction w with
  | nil => rfl
  | cons c w ih =>
    have hc : pattern c (w ++ rest) = none := h c List.mem_cons_self _
    rw [List.cons_append, replaceAll_cons_of_none hc,
      ih fun d hd => h d (List.mem_cons_of_mem c hd), List.cons_append]

/-- Pieces that are each replaced whatever follows are replaced one after the other. -/
theorem replaceAll_flatMap {α : Type} {text value : α → List Char}
    (h : ∀ piece rest, replaceAll pattern (text piece ++ rest) =
      value piece ++ replaceAll pattern rest) (row : List α) :
    replaceAll pattern (row.flatMap text) = row.flatMap value := by
  induction row with
  | nil => exact replaceAll_nil
  | cons piece row ih => rw [List.flatMap_cons, List.flatMap_cons, h, ih]

theorem pieces_nil : pieces p [] = [] :=
  rfl

theorem pieces_cons (hc : p c = true) (cs : List Char) : pieces p (c :: cs) = pieces p cs := by
  simp [pieces, List.splitOnP_cons_eq_if_modifyHead, hc]

/-- A piece ends where the text ends or a character that satisfies `p` follows. -/
theorem pieces_append (hne : w ≠ []) (hw : ∀ c ∈ w, p c = false)
    (hrest : ∀ c, rest.head? = some c → p c = true) :
    pieces p (w ++ rest) = w :: pieces p rest := by
  cases rest with
  | nil => simp [pieces, List.splitOnP_eq_singleton hw, hne]
  | cons c rest =>
    have hc : p c = true := hrest c rfl
    rw [pieces_cons hc, pieces, List.splitOnP_append_cons_of_forall_mem hw c hc]
    simp [hne, pieces]

end Text

namespace Macro

variable {opens : Char → Bool} {inside : List Char → Option (List Char × Nat)}

theorem atDollar_cons (o : Char) (cs : List Char) :
    atDollar opens inside '$' (o :: cs) = if opens o then inside cs else none :=
  rfl

/-- A match is a dollar, a character that opens it, and what matches inside. -/
theorem atDollar_eq_some_iff {found : List Char × Nat} :
    atDollar opens inside c cs = some found ↔
      c = '$' ∧ ∃ o ds, cs = o :: ds ∧ opens o = true ∧ inside ds = some found := by
  constructor
  · intro h
    rw [atDollar.eq_def] at h
    split at h
    · next o ds =>
      by_cases ho : opens o = true
      · rw [if_pos ho] at h
        exact ⟨rfl, o, ds, rfl, ho, h⟩
      · rw [if_neg ho] at h
        cases h
    · cases h
  · rintro ⟨rfl, o, ds, rfl, ho, hinside⟩
    rw [atDollar_cons, if_pos ho, hinside]

theorem atDollar_eq_none (hc : c ≠ '$') (cs : List Char) : atDollar opens inside c cs = none := by
  rw [Option.eq_none_iff_forall_ne_some]
  intro found hfound
  exact hc (atDollar_eq_some_iff.mp hfound).1

/-- Text without a dollar stays as it is, whatever follows. -/
theorem replaceAll_atDollar_append (h : '$' ∉ cs) (rest : List Char) :
    Text.replaceAll (atDollar opens inside) (cs ++ rest) =
      cs ++ Text.replaceAll (atDollar opens inside) rest := by
  apply Text.replaceAll_append
  intro c hc
  apply atDollar_eq_none
  rintro rfl
  exact h hc

/-- Text without a dollar has no macros. -/
theorem expand_eq_self (h : '$' ∉ cs) : expand cs = cs := by
  have hself : ∀ {opens inside}, Text.replaceAll (atDollar opens inside) cs = cs := by
    intro opens inside
    simpa [Text.replaceAll_nil] using replaceAll_atDollar_append h []
  rw [expand, withDefault, hself, asMetre, hself]

end Macro

end EpicsDb
