import EpicsDb.Proofs.PvName
import Mathlib.Data.List.Basic

/-!
# Endings and the tables of their words

The words of the endings overlap: `SETP` is the start of `SETPT`, and `RB` is the start of `RBV`.
A stem can end in such words itself.  Nevertheless a name can be put together from a stem and the
pieces of an ending in one way only, since no word holds a separator.

* `Tail` and `Ending` are the pieces, and `Ending.append_text_inj` says that a name determines them.
* `search?` tries the words of two tables one by one.  By `stripWord?_eq_filter` the first word that
  fits is the only one, so that `search?_eq_split?` holds for the tables in every order.
-/

namespace EpicsDb.PvName

variable {name front word stem stem' : String} {words : List String}

theorem isSeparator_iff {c : Char} : isSeparator c = true ↔ c = '_' ∨ c = ':' := by
  simp [isSeparator]

theorem SeparatorFree.of_perm {table : List String} (hfree : SeparatorFree table)
    (hperm : words.Perm table) : SeparatorFree words :=
  fun word hword => hfree word (hperm.mem_iff.mp hword)

/-! ## Pieces -/

/-- A separator and a word of the table behind it. -/
@[ext]
structure Tail (words : List String) where
  sep : Char
  word : String
  sep_eq : sep = '_' ∨ sep = ':'
  word_mem : word ∈ words

namespace Tail

def text (t : Tail words) : String :=
  String.singleton t.sep ++ t.word

@[simp]
theorem toList_text (t : Tail words) : t.text.toList = t.sep :: t.word.toList := by
  simp [text]

/-- The cut is in front of the separator, as there is none in the word. -/
theorem cutLast?_append_text (hfree : SeparatorFree words) (t : Tail words) :
    cutLast? (front ++ t.text) = some (front, t.word) :=
  cutLast?_eq_some t.sep (isSeparator_iff.mpr t.sep_eq) (by simp) (hfree t.word t.word_mem)

/-- Tails of two tables that complete the same name agree, with what stands before them. -/
theorem eq_of_append_text {table : List String} (hfree : SeparatorFree words)
    (hfree' : SeparatorFree table) {t : Tail words} {t' : Tail table}
    (h : stem ++ t.text = stem' ++ t'.text) : stem = stem' ∧ t.sep = t'.sep ∧ t.word = t'.word := by
  have hcut : some (stem, t.word) = some (stem', t'.word) := by
    rw [← cutLast?_append_text hfree t, ← cutLast?_append_text hfree' t', h]
  obtain ⟨rfl, hword⟩ : stem = stem' ∧ t.word = t'.word := by simpa using hcut
  have hlists := congrArg String.toList h
  simp only [String.toList_append, toList_text, List.append_cancel_left_eq] at hlists
  exact ⟨rfl, (List.cons.inj hlists).1, hword⟩

theorem append_text_inj (hfree : SeparatorFree words) {t t' : Tail words}
    (h : stem ++ t.text = stem' ++ t'.text) : stem = stem' ∧ t = t' := by
  obtain ⟨hstem, hsep, hword⟩ := eq_of_append_text hfree hfree h
  exact ⟨hstem, Tail.ext hsep hword⟩

end Tail

/-- The endings of both kinds, piece by piece. -/
inductive Ending
  | setpoint (set : Tail setpointWords)
  | setpointReadback (set : Tail setpointWords) (read : Tail readbackWords)

def Ending.text : Ending → String
  | setpoint set => set.text
  | setpointReadback set read => set.text ++ read.text

/-- The last word of a name belongs to one table only. -/
theorem append_setpoint_ne_append_readback (set : Tail setpointWords) (read : Tail readbackWords) :
    stem ++ set.text ≠ stem' ++ read.text := by
  intro h
  obtain ⟨-, -, hword⟩ := Tail.eq_of_append_text setpointWords_free readbackWords_free h
  exact not_mem_setpointWords read.word read.word_mem (hword ▸ set.word_mem)

/-- A name can be put together in one way only, also where nothing is left for the stem. -/
theorem Ending.append_text_inj {e e' : Ending} (h : stem ++ e.text = stem' ++ e'.text) :
    stem = stem' ∧ e = e' := by
  cases e with
  | setpoint set =>
    cases e' with
    | setpoint set' =>
      obtain ⟨rfl, rfl⟩ := Tail.append_text_inj setpointWords_free h
      exact ⟨rfl, rfl⟩
    | setpointReadback set' read' =>
      rw [text, text, ← String.append_assoc] at h
      exact absurd h (append_setpoint_ne_append_readback set read')
  | setpointReadback set read =>
    cases e' with
    | setpoint set' =>
      rw [text, text, ← String.append_assoc] at h
      exact absurd h.symm (append_setpoint_ne_append_readback set' read)
    | setpointReadback set' read' =>
      rw [text, text, ← String.append_assoc, ← String.append_assoc] at h
      obtain ⟨hfront, rfl⟩ := Tail.append_text_inj readbackWords_free h
      obtain ⟨rfl, rfl⟩ := Tail.append_text_inj setpointWords_free hfront
      exact ⟨rfl, rfl⟩

theorem split?_eq_setpoint_iff_tail :
    split? name = some (stem, .setpoint) ↔
      stem ≠ "" ∧ ∃ set : Tail setpointWords, name = stem ++ set.text := by
  rw [split?_eq_setpoint_iff]
  refine and_congr_right fun _ => ⟨?_, ?_⟩
  · rintro ⟨sep, word, hsep, hword, hname⟩
    exact ⟨⟨sep, word, isSeparator_iff.mp hsep, hword⟩, by simp [← String.toList_inj, hname]⟩
  · rintro ⟨set, rfl⟩
    exact ⟨set.sep, set.word, isSeparator_iff.mpr set.sep_eq, set.word_mem, by simp⟩

theorem split?_eq_setpointReadback_iff_tails :
    split? name = some (stem, .setpointReadback) ↔
      stem ≠ "" ∧ ∃ (set : Tail setpointWords) (read : Tail readbackWords),
        name = stem ++ set.text ++ read.text := by
  rw [split?_eq_setpointReadback_iff]
  refine and_congr_right fun _ => ⟨?_, ?_⟩
  · rintro ⟨sep, middle, sep', word, hsep, hmiddle, hsep', hword, hname⟩
    exact ⟨⟨sep, middle, isSeparator_iff.mp hsep, hmiddle⟩,
      ⟨sep', word, isSeparator_iff.mp hsep', hword⟩, by simp [← String.toList_inj, hname]⟩
  · rintro ⟨set, read, rfl⟩
    exact ⟨set.sep, set.word, read.sep, read.word, isSeparator_iff.mpr set.sep_eq, set.word_mem,
      isSeparator_iff.mpr read.sep_eq, read.word_mem, by simp⟩

/-! ## Trying the words of a table -/

/-- What stands before the word and a separator at the end of a name. -/
def beforeWord? (name word : String) : Option String :=
  (name.toList.dropSuffix? word.toList).bind fun rest =>
    (rest.getLast?.filter isSeparator).map fun _ => String.ofList rest.dropLast

/-- What stands before the first word of the table that fits, and that word. -/
def stripWord? (words : List String) (name : String) : Option (String × String) :=
  words.findSome? fun word => (beforeWord? name word).map (·, word)

/-- The stem and the ending by tables of words.  A setpoint readback is tried first, and a setpoint
where there is none or where its stem is empty. -/
def search? (setpoints readbacks : List String) (name : String) : Option (String × Suffix) :=
  let setpointReadback := (stripWord? readbacks name).bind fun (front, _) =>
    (stripWord? setpoints front).bind fun (stem, _) => withStem? stem .setpointReadback
  setpointReadback.or ((stripWord? setpoints name).bind fun (stem, _) => withStem? stem .setpoint)

theorem beforeWord?_eq_some_iff :
    beforeWord? name word = some front ↔
      ∃ sep, isSeparator sep = true ∧ name.toList = front.toList ++ sep :: word.toList := by
  constructor
  · intro h
    obtain ⟨rest, hrest, hfront⟩ := Option.bind_eq_some_iff.mp h
    obtain ⟨sep, hsep, rfl⟩ := Option.map_eq_some_iff.mp hfront
    obtain ⟨hlast, hsep⟩ := Option.filter_eq_some_iff.mp hsep
    obtain ⟨_, hname, hword⟩ := List.dropSuffix?_eq_some_iff.mp hrest
    refine ⟨sep, hsep, ?_⟩
    rw [hname, eq_of_beq hword, String.toList_ofList, ← List.singleton_append, ← List.append_assoc,
      List.dropLast_append_getLast? sep hlast]
  · rintro ⟨sep, hsep, hname⟩
    have hrest : name.toList.dropSuffix? word.toList = some (front.toList ++ [sep]) :=
      List.dropSuffix?_eq_some_iff.mpr ⟨word.toList, by simp [hname], beq_self_eq_true _⟩
    simp [beforeWord?, hrest, hsep]

theorem beforeWord?_eq_some_iff_cutLast? (hfree : SeparatorFree words) (hword : word ∈ words) :
    beforeWord? name word = some front ↔ cutLast? name = some (front, word) := by
  have hall : ∀ c ∈ word.toList, isSeparator c = false := by simpa using hfree word hword
  rw [beforeWord?_eq_some_iff, cutLast?_eq_some_iff, and_iff_left hall]

/-- A word that fits is the one behind the last separator, so that none can hide another. -/
theorem stripWord?_eq_some_iff (hfree : SeparatorFree words) :
    stripWord? words name = some (front, word) ↔
      cutLast? name = some (front, word) ∧ word ∈ words := by
  have hfound : ∀ {front word}, stripWord? words name = some (front, word) →
      cutLast? name = some (front, word) ∧ word ∈ words := by
    intro front word h
    obtain ⟨tried, hmem, htried⟩ := List.exists_of_findSome?_eq_some h
    obtain ⟨before, hbefore, hpair⟩ := Option.map_eq_some_iff.mp htried
    obtain ⟨rfl, rfl⟩ := Prod.mk.inj hpair
    exact ⟨(beforeWord?_eq_some_iff_cutLast? hfree hmem).mp hbefore, hmem⟩
  refine ⟨hfound, ?_⟩
  rintro ⟨hcut, hmem⟩
  cases hstrip : stripWord? words name with
  | none =>
    have hnone := List.findSome?_eq_none_iff.mp hstrip word hmem
    rw [(beforeWord?_eq_some_iff_cutLast? hfree hmem).mpr hcut] at hnone
    cases hnone
  | some pair => exact (hfound hstrip).1.symm.trans hcut

theorem stripWord?_eq_filter (hfree : SeparatorFree words) :
    stripWord? words name = (cutLast? name).filter (words.contains ·.2) := by
  apply Option.ext
  rintro ⟨front, word⟩
  rw [stripWord?_eq_some_iff hfree, Option.filter_eq_some_iff, List.contains_iff_mem]

/-- The tables can be tried in any order. -/
theorem search?_eq_split? {setpoints readbacks : List String}
    (hset : setpoints.Perm setpointWords) (hread : readbacks.Perm readbackWords) (name : String) :
    search? setpoints readbacks name = split? name := by
  have hsetFree : SeparatorFree setpoints := setpointWords_free.of_perm hset
  have hreadFree : SeparatorFree readbacks := readbackWords_free.of_perm hread
  simp only [search?, split?, stripWord?_eq_filter hsetFree, stripWord?_eq_filter hreadFree,
    hset.contains_eq, hread.contains_eq]
  cases cutLast? name with
  | none => rfl
  | some cut =>
    obtain ⟨front, word⟩ := cut
    -- no word is in both tables, so that what is tried first hides nothing
    by_cases hback : word ∈ readbackWords
    · have hnot : word ∉ setpointWords := not_mem_setpointWords word hback
      simp only [Option.filter_some, List.contains_iff_mem, hback, hnot, if_true, if_false,
        Option.bind_some, Option.bind_none, Option.or_none]
      cases cutLast? front with
      | none => rfl
      | some inner =>
        by_cases hmiddle : inner.2 ∈ setpointWords <;> simp [Option.filter_some, hmiddle]
    · by_cases hword : word ∈ setpointWords <;> simp [Option.filter_some, hword, hback]

/-- An empty stem is no stem, and the name is not that of a setpoint either. -/
example : search? setpointWords readbackWords ":SP:RBV" = none := by decide

/-! ## One ending -/

/-- A name has an ending if and only if it is put together from a stem that is not empty and the
pieces of that ending.  There is one way at most to put it together, so that it has one kind of
ending at most, and the words can be tried in any order. -/
theorem split_finds_only_ending (name : String) :
    (∀ stem, split? name = some (stem, .setpoint) ↔
      stem ≠ "" ∧ ∃ set : Tail setpointWords, name = stem ++ set.text) ∧
    (∀ stem, split? name = some (stem, .setpointReadback) ↔
      stem ≠ "" ∧ ∃ (set : Tail setpointWords) (read : Tail readbackWords),
        name = stem ++ set.text ++ read.text) ∧
    (∀ stem stem' (e e' : Ending), name = stem ++ e.text → name = stem' ++ e'.text →
      stem = stem' ∧ e = e') ∧
    ∀ setpoints readbacks : List String, setpoints.Perm setpointWords →
      readbacks.Perm readbackWords → search? setpoints readbacks name = split? name := by
  refine ⟨fun _ => split?_eq_setpoint_iff_tail, fun _ => split?_eq_setpointReadback_iff_tails,
    ?_, fun _ _ hset hread => search?_eq_split? hset hread name⟩
  intro stem stem' e e' h h'
  exact Ending.append_text_inj (h.symm.trans h')

/-- The theorem at a stem that has an ending itself, with the tables read backwards. -/
theorem split_finds_last_ending :
    let set : Tail setpointWords := ⟨'_', "SETPT", by decide, by decide⟩
    let read : Tail readbackWords := ⟨':', "RB", by decide, by decide⟩
    split? "A:SP_SETPT:RB" = some ("A:SP", .setpointReadback) ∧
      (∀ stem e, "A:SP_SETPT:RB" = stem ++ Ending.text e →
        stem = "A:SP" ∧ e = .setpointReadback set read) ∧
      search? setpointWords.reverse readbackWords.reverse "A:SP_SETPT:RB" =
        some ("A:SP", .setpointReadback) := by
  intro set read
  have hname : "A:SP_SETPT:RB" = "A:SP" ++ set.text ++ read.text := by decide
  obtain ⟨-, hread, hunique, horder⟩ := split_finds_only_ending "A:SP_SETPT:RB"
  have hsplit : split? "A:SP_SETPT:RB" = some ("A:SP", .setpointReadback) :=
    (hread "A:SP").mpr ⟨by decide, set, read, hname⟩
  refine ⟨hsplit, fun stem e he => hunique stem "A:SP" e _ he (by decide), ?_⟩
  rw [horder _ _ (List.reverse_perm _) (List.reverse_perm _), hsplit]

end EpicsDb.PvName
