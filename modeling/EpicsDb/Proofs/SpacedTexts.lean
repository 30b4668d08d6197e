import EpicsDb.Text.Enclosed
import Mathlib.Data.List.Forall2
import Mathlib.Data.List.TakeWhile
import Mathlib.Tactic.Common

/-!
# Texts with blanks between their pieces

Formats say which pieces a text is made of, and leave it open which blanks stand between them.

* `Spaced blank pieces text` says that the text is made of the pieces, each with blanks before it.
  `Spaced.skip` takes the first piece off, which is what a reader does that skips blanks first.
* `Reads blank item a pieces` says that a reader finds `a` wherever the pieces stand and whatever
  follows them.  `Reads.bracketed` goes from the items of a list to the list.
-/

namespace EpicsDb.Text

variable {blank : Char → Bool} {c : Char} {cs gap text rest u v : List Char}
  {pieces ps qs : List (List Char)}

/-! ## Skipping blanks -/

theorem dropWhile_gap (hgap : ∀ c ∈ gap, blank c = true) (hc : blank c = false) (cs : List Char) :
    (gap ++ c :: cs).dropWhile blank = c :: cs := by
  rw [List.dropWhile_append_of_pos hgap, List.dropWhile_cons_of_neg (by simp [hc])]

/-- Skipping blanks goes no further than a character that is none. -/
theorem length_lt_dropWhile {ds : List Char} (h : ds.dropWhile blank = c :: cs) (u : List Char) :
    (cs.dropWhile blank).length < ((u ++ ds).dropWhile blank).length := by
  have hcs : (cs.dropWhile blank).length ≤ cs.length := (List.dropWhile_sublist blank).length_le
  have hds : (ds.dropWhile blank).length ≤ ds.length := (List.dropWhile_sublist blank).length_le
  rw [h, List.length_cons] at hds
  induction u with
  | nil =>
    rw [List.nil_append, h, List.length_cons]
    omega
  | cons d u ih =>
    rw [List.cons_append, List.dropWhile_cons]
    split
    · exact ih
    · simp only [List.length_cons, List.length_append]
      omega

/-! ## Pieces -/

/-- The text is made of the pieces, with blanks before each of them. -/
inductive Spaced (blank : Char → Bool) : List (List Char) → List Char → Prop where
  | nil : Spaced blank [] []
  | cons {piece gap text : List Char} {pieces : List (List Char)}
      (hgap : ∀ c ∈ gap, blank c = true) (later : Spaced blank pieces text) :
      Spaced blank (piece :: pieces) (gap ++ piece ++ text)

namespace Spaced

theorem eq_nil (h : Spaced blank [] text) : text = [] := by
  cases h
  rfl

/-- A piece with nothing before it. -/
theorem cons_piece (piece : List Char) (h : Spaced blank pieces text) :
    Spaced blank (piece :: pieces) (piece ++ text) := by
  have hcons : Spaced blank (piece :: pieces) ([] ++ piece ++ text) := .cons (by simp) h
  simpa using hcons

/-- The text that is made of gaps and pieces in turn. -/
theorem of_gaps (gs : List (List Char × List Char)) (h : ∀ g ∈ gs, g.1.all blank = true) :
    Spaced blank (gs.map (·.2)) (gs.flatMap fun g => g.1 ++ g.2) := by
  induction gs with
  | nil => exact .nil
  | cons g gs ih =>
    rw [List.forall_mem_cons] at h
    exact .cons (List.all_eq_true.mp h.1) (ih h.2)

/-- More blanks before the first piece. -/
theorem prepend (hgap : ∀ c ∈ gap, blank c = true) (hne : pieces ≠ [])
    (h : Spaced blank pieces text) : Spaced blank pieces (gap ++ text) := by
  cases h with
  | nil => exact absurd rfl hne
  | @cons piece gap' text pieces hgap' later =>
    rw [← List.append_assoc, ← List.append_assoc]
    exact .cons (List.forall_mem_append.mpr ⟨hgap, hgap'⟩) later

theorem append (hu : Spaced blank ps u) (hv : Spaced blank qs v) :
    Spaced blank (ps ++ qs) (u ++ v) := by
  induction hu with
  | nil => exact hv
  | cons hgap later ih =>
    rw [List.append_assoc, List.cons_append]
    exact .cons hgap ih

theorem exists_append (h : Spaced blank (ps ++ qs) text) :
    ∃ u v, text = u ++ v ∧ Spaced blank ps u ∧ Spaced blank qs v := by
  induction ps generalizing text with
  | nil => exact ⟨[], text, rfl, .nil, h⟩
  | cons p ps ih =>
    cases h with
    | @cons _ gap later _ hgap hlater =>
      obtain ⟨u, v, rfl, hu, hv⟩ := ih hlater
      exact ⟨gap ++ p ++ u, v, by simp, .cons hgap hu, hv⟩

/-- Skipping blanks leads to the first piece. -/
theorem skip (h : Spaced blank ((c :: cs) :: pieces) text) (hc : blank c = false)
    (rest : List Char) :
    ∃ later, Spaced blank pieces later ∧
      (text ++ rest).dropWhile blank = c :: (cs ++ (later ++ rest)) := by
  cases h with
  | @cons _ gap later _ hgap hlater =>
    refine ⟨later, hlater, ?_⟩
    rw [List.append_assoc, List.append_assoc, List.cons_append, dropWhile_gap hgap hc]

theorem skip_last (h : Spaced blank [c :: cs] text) (hc : blank c = false) (rest : List Char) :
    (text ++ rest).dropWhile blank = c :: (cs ++ rest) := by
  obtain ⟨later, hlater, hskip⟩ := h.skip hc rest
  rw [hskip, hlater.eq_nil, List.nil_append]

/-- The same for a piece in quotes. -/
theorem skip_quoted {raw : List Char} (h : Spaced blank (('"' :: (raw ++ ['"'])) :: pieces) text)
    (hquote : blank '"' = false) (rest : List Char) :
    ∃ later, Spaced blank pieces later ∧
      (text ++ rest).dropWhile blank = '"' :: (raw ++ '"' :: (later ++ rest)) := by
  obtain ⟨later, hlater, hskip⟩ := h.skip hquote rest
  refine ⟨later, hlater, ?_⟩
  rw [hskip, List.append_assoc, List.singleton_append]

/-- Pieces that are not empty take up room. -/
theorem length_le (h : Spaced blank pieces text) (hne : ∀ p ∈ pieces, p ≠ []) :
    pieces.length ≤ text.length := by
  induction h with
  | nil => exact Nat.le_refl 0
  | cons hgap later ih =>
    rw [List.forall_mem_cons] at hne
    have hpos := List.length_pos_of_ne_nil hne.1
    have hle := ih hne.2
    simp only [List.length_cons, List.length_append]
    omega

end Spaced

/-! ## Readers -/

variable {α : Type} {item : Reader α} {a : α} {as : List α} {pss : List (List (List Char))}
  {close : Char}

/-- The reader finds `a` where the pieces stand, and leaves what follows them. -/
def Reads (blank : Char → Bool) (item : Reader α) (a : α) (pieces : List (List Char)) : Prop :=
  ∀ text rest, Spaced blank pieces text → item ((text ++ rest).dropWhile blank) = some (a, rest)

/-- The pieces of a list after its opening bracket. -/
def listPieces (close : Char) : List (List (List Char)) → List (List Char)
  | [] => [[close]]
  | [ps] => ps ++ [[close]]
  | ps :: qs :: pss => ps ++ [','] :: listPieces close (qs :: pss)

/-- A list that is written with the same gap before all items and another one before its end. -/
theorem Spaced.list {ts : List (List Char)} {gap' : List Char} (close : Char)
    (hgap : ∀ c ∈ gap, blank c = true) (hgap' : ∀ c ∈ gap', blank c = true)
    (hfirst : Spaced blank ps text)
    (hlater : List.Forall₂ (fun ps t => ps ≠ [] ∧ Spaced blank ps t) pss ts) :
    Spaced blank (listPieces close (ps :: pss))
      (text ++ (ts.flatMap (fun t => [','] ++ (gap ++ t)) ++ (gap' ++ [close]))) := by
  induction hlater generalizing ps text with
  | nil =>
    have hlast : Spaced blank [[close]] (gap' ++ [close] ++ []) := .cons hgap' .nil
    rw [List.append_nil] at hlast
    exact hfirst.append hlast
  | @cons qs t pss ts hnext hlater ih =>
    have hitem : Spaced blank qs (gap ++ t) := hnext.2.prepend hgap hnext.1
    rw [List.flatMap_cons, List.append_assoc, List.append_assoc]
    exact hfirst.append ((ih hitem).cons_piece [','])

theorem ne_nil_of_mem_listPieces {p : List Char} (h : ∀ ps ∈ pss, ∀ p ∈ ps, p ≠ [])
    (hp : p ∈ listPieces close pss) : p ≠ [] := by
  fun_induction listPieces close pss with
  | case1 =>
    obtain rfl := List.mem_singleton.mp hp
    exact List.cons_ne_nil _ _
  | case2 qs =>
    rcases List.mem_append.mp hp with hp | hp
    · exact h qs List.mem_cons_self p hp
    · obtain rfl := List.mem_singleton.mp hp
      exact List.cons_ne_nil _ _
  | case3 qs rs pss ih =>
    rw [List.forall_mem_cons] at h
    rcases List.mem_append.mp hp with hp | hp
    · exact h.1 p hp
    · rcases List.mem_cons.mp hp with rfl | hp
      · exact List.cons_ne_nil _ _
      · exact ih h.2 hp

/-- Each item takes fewer pieces than the list. -/
theorem length_lt_listPieces (close : Char) (h : ps ∈ pss) :
    ps.length < (listPieces close pss).length := by
  fun_induction listPieces close pss with
  | case1 => simp at h
  | case2 qs =>
    obtain rfl := List.mem_singleton.mp h
    simp
  | case3 qs rs pss ih =>
    simp only [List.length_append, List.length_cons]
    rcases List.mem_cons.mp h with rfl | h
    · omega
    · have hlt := ih h
      omega

theorem Reads.items (hclose : blank close = false) (hcomma : blank ',' = false) (hne : close ≠ ',')
    (hfirst : Reads blank item a ps) (hlater : List.Forall₂ (Reads blank item) as pss)
    (htext : Spaced blank (listPieces close (ps :: pss)) text) (rest : List Char) :
    Text.items ⟨List.dropWhile blank, close, false⟩ item ((text ++ rest).dropWhile blank) =
      some (a :: as, rest) := by
  induction hlater generalizing a ps text with
  | nil =>
    obtain ⟨u, v, rfl, hu, hv⟩ := htext.exists_append
    obtain ⟨w, hw, hskip⟩ := hv.skip hclose rest
    obtain rfl := hw.eq_nil
    rw [Text.items, List.append_assoc, hfirst u (v ++ rest) hu]
    simp only [hskip, List.nil_append, if_true]
  | @cons b qs as pss hnext hlater ih =>
    obtain ⟨u, v, rfl, hu, hv⟩ := htext.exists_append
    obtain ⟨w, hw, hskip⟩ := hv.skip hcomma rest
    have hshorter : ((w ++ rest).dropWhile blank).length <
        ((u ++ (v ++ rest)).dropWhile blank).length := length_lt_dropWhile hskip u
    rw [Text.items, List.append_assoc, hfirst u (v ++ rest) hu]
    simp only [hskip, List.nil_append, if_neg hne.symm, if_true, hshorter, ih hnext hw]
    simp

/-- A reader of items reads lists of them. -/
theorem Reads.enclosed (hclose : blank close = false) (hcomma : blank ',' = false)
    (hne : close ≠ ',') (hnone : ∀ cs, item (close :: cs) = none)
    (h : List.Forall₂ (Reads blank item) as pss) (htext : Spaced blank (listPieces close pss) text)
    (rest : List Char) :
    Text.enclosed ⟨List.dropWhile blank, close, false⟩ item (text ++ rest) = some (as, rest) := by
  cases h with
  | nil =>
    obtain ⟨w, hw, hskip⟩ := htext.skip hclose rest
    obtain rfl := hw.eq_nil
    simp [Text.enclosed, hskip]
  | @cons a ps as pss hfirst hlater =>
    have hitems := Reads.items hclose hcomma hne hfirst hlater htext rest
    have hhead : ((text ++ rest).dropWhile blank).head? ≠ some close := by
      intro hhead
      obtain ⟨cs, hcs⟩ := List.head?_eq_some_iff.mp hhead
      rw [Text.items, hcs, hnone cs] at hitems
      exact absurd hitems (by simp)
    rw [Text.enclosed, if_neg hhead]
    exact hitems

/-- A reader that reads a list after an opening bracket. -/
theorem Reads.bracketed {β : Type} {reader : Reader β} {f : List α → β} {start : Char}
    (hstart : blank start = false) (hclose : blank close = false) (hcomma : blank ',' = false)
    (hne : close ≠ ',') (hnone : ∀ cs, item (close :: cs) = none)
    (hreader : ∀ cs, reader (start :: cs) =
      (Text.enclosed ⟨List.dropWhile blank, close, false⟩ item cs).map fun (as, rest) =>
        (f as, rest))
    (h : List.Forall₂ (Reads blank item) as pss) :
    Reads blank reader (f as) ([start] :: listPieces close pss) := by
  intro text rest htext
  obtain ⟨later, hlater, hskip⟩ := htext.skip hstart rest
  rw [hskip, List.nil_append, hreader, Reads.enclosed hclose hcomma hne hnone h hlater rest]
  rfl

end EpicsDb.Text
