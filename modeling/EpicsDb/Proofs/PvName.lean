import EpicsDb.Proofs.ByteOrder
import EpicsDb.PvName

/-!
# Taking names apart

`PvName.split?` works from the end of a name.  Here its results are described by the pieces that a
name is put together from.

* `cutLast?_eq_some_iff` says that the last separator is where a name is cut, so that the two pieces
  are determined by the name.
* `split?_eq_setpoint_iff` and `split?_eq_setpointReadback_iff` give the shapes of the two endings.
* `suffix_setpoint_iff` and `suffix_setpointReadback_iff` single out the spellings `:SP` and
  `:SP:RBV`.
* `stem_lt` puts a stem before the names that are made from it.
-/

namespace EpicsDb.PvName

variable {name front word stem family : String} {suffix : Suffix}

/-! ## The last separator -/

/-- A name is cut at its last separator. -/
theorem cutLast?_eq_some_iff :
    cutLast? name = some (front, word) ↔
      (∃ sep, isSeparator sep = true ∧ name.toList = front.toList ++ sep :: word.toList) ∧
        ∀ c ∈ word.toList, isSeparator c = false := by
  rw [cutLast?]
  constructor
  · intro h
    split at h
    · simp at h
    · next sep back hdrop =>
      obtain ⟨rfl, rfl⟩ : String.ofList back.reverse = front ∧
          String.ofList (name.toList.reverse.takeWhile (!isSeparator ·)).reverse = word := by
        simpa using h
      have hname :=
        List.takeWhile_append_dropWhile (p := (!isSeparator ·)) (l := name.toList.reverse)
      rw [hdrop] at hname
      refine ⟨⟨sep, ?_, ?_⟩, ?_⟩
      · have hhead := List.head?_dropWhile_not (!isSeparator ·) name.toList.reverse
        rw [hdrop] at hhead
        simpa using hhead
      · simpa using (congrArg List.reverse hname).symm
      · intro c hc
        rw [String.toList_ofList, List.mem_reverse] at hc
        simpa using List.all_eq_true.mp List.all_takeWhile c hc
  · rintro ⟨⟨sep, hsep, hname⟩, hword⟩
    have hback : name.toList.reverse = word.toList.reverse ++ sep :: front.toList.reverse := by
      simp [hname]
    have hfree : ∀ c ∈ word.toList.reverse, (!isSeparator c) = true := by
      intro c hc
      simp [hword c (List.mem_reverse.mp hc)]
    rw [hback, List.dropWhile_append_of_pos hfree, List.takeWhile_append_of_pos hfree]
    simp [hsep]

theorem cutLast?_eq_some (sep : Char) (hsep : isSeparator sep = true)
    (hname : name.toList = front.toList ++ sep :: word.toList)
    (hword : word.toList.all (!isSeparator ·) = true) : cutLast? name = some (front, word) :=
  cutLast?_eq_some_iff.mpr ⟨⟨sep, hsep, hname⟩, by simpa using hword⟩

/-! ## Endings -/

/-- No word of the table holds a separator. -/
def SeparatorFree (words : List String) : Prop :=
  ∀ word ∈ words, word.toList.all (!isSeparator ·) = true

instance : DecidablePred SeparatorFree :=
  fun words => inferInstanceAs (Decidable (∀ word ∈ words, word.toList.all (!isSeparator ·) = true))

theorem setpointWords_free : SeparatorFree setpointWords := by
  decide

theorem readbackWords_free : SeparatorFree readbackWords := by
  decide

theorem not_mem_setpointWords : ∀ word ∈ readbackWords, word ∉ setpointWords := by
  decide

theorem withStem?_eq_some_iff {other : Suffix} :
    withStem? front other = some (stem, suffix) ↔ stem ≠ "" ∧ front = stem ∧ other = suffix := by
  unfold withStem?
  split_ifs with hempty
  · simp only [String.isEmpty_iff] at hempty
    constructor
    · simp
    · rintro ⟨hne, rfl, rfl⟩
      exact absurd hempty hne
  · simp only [String.isEmpty_iff] at hempty
    constructor
    · simp only [Option.some.injEq, Prod.mk.injEq]
      rintro ⟨rfl, rfl⟩
      exact ⟨hempty, rfl, rfl⟩
    · rintro ⟨-, rfl, rfl⟩
      rfl

/-- What an ending is: a word for "setpoint", or a word for "readback" after one for "setpoint". -/
inductive Ends : Suffix → String → String → String → Prop where
  | setpoint {stem word : String} (hword : word ∈ setpointWords) : Ends .setpoint stem stem word
  | setpointReadback {front stem middle word : String} (hword : word ∈ readbackWords)
      (hfront : cutLast? front = some (stem, middle)) (hmiddle : middle ∈ setpointWords) :
      Ends .setpointReadback stem front word

theorem split?_eq_some_iff :
    split? name = some (stem, suffix) ↔
      stem ≠ "" ∧ ∃ front word,
        cutLast? name = some (front, word) ∧ Ends suffix stem front word := by
  rw [split?]
  constructor
  · intro h
    split at h
    · simp at h
    · next front word hcut =>
      split_ifs at h with hset hread
      · obtain ⟨hne, rfl, rfl⟩ := withStem?_eq_some_iff.mp h
        exact ⟨hne, front, word, hcut, .setpoint (by simpa using hset)⟩
      · split at h
        · simp at h
        · next inner middle hinner =>
          split_ifs at h with hmiddle
          obtain ⟨hne, rfl, rfl⟩ := withStem?_eq_some_iff.mp h
          exact ⟨hne, front, word, hcut,
            .setpointReadback (by simpa using hread) hinner (by simpa using hmiddle)⟩
  · rintro ⟨hne, front, word, hcut, hends⟩
    cases hends with
    | setpoint hword =>
      simp only [hcut, List.contains_iff_mem, hword, if_true]
      exact withStem?_eq_some_iff.mpr ⟨hne, rfl, rfl⟩
    | setpointReadback hword hfront hmiddle =>
      have hnot : word ∉ setpointWords := not_mem_setpointWords word hword
      simp only [hcut, hfront, List.contains_iff_mem, hnot, hword, hmiddle, if_true, if_false]
      exact withStem?_eq_some_iff.mpr ⟨hne, rfl, rfl⟩

/-- A setpoint is its stem with a separator and a word for "setpoint". -/
theorem split?_eq_setpoint_iff :
    split? name = some (stem, .setpoint) ↔
      stem ≠ "" ∧ ∃ sep word, isSeparator sep = true ∧ word ∈ setpointWords ∧
        name.toList = stem.toList ++ sep :: word.toList := by
  rw [split?_eq_some_iff]
  constructor
  · rintro ⟨hne, front, word, hcut, hends⟩
    cases hends with
    | setpoint hword =>
      obtain ⟨⟨sep, hsep, hname⟩, -⟩ := cutLast?_eq_some_iff.mp hcut
      exact ⟨hne, sep, word, hsep, hword, hname⟩
  · rintro ⟨hne, sep, word, hsep, hword, hname⟩
    exact ⟨hne, stem, word, cutLast?_eq_some sep hsep hname (setpointWords_free word hword),
      .setpoint hword⟩

/-- A setpoint readback is a setpoint with a separator and a word for "readback". -/
theorem split?_eq_setpointReadback_iff :
    split? name = some (stem, .setpointReadback) ↔
      stem ≠ "" ∧ ∃ sep middle sep' word, isSeparator sep = true ∧ middle ∈ setpointWords ∧
        isSeparator sep' = true ∧ word ∈ readbackWords ∧
        name.toList = stem.toList ++ sep :: (middle.toList ++ sep' :: word.toList) := by
  rw [split?_eq_some_iff]
  constructor
  · rintro ⟨hne, front, word, hcut, hends⟩
    cases hends with
    | @setpointReadback _ _ middle _ hword hfront hmiddle =>
      obtain ⟨⟨sep', hsep', hname⟩, -⟩ := cutLast?_eq_some_iff.mp hcut
      obtain ⟨⟨sep, hsep, hinner⟩, -⟩ := cutLast?_eq_some_iff.mp hfront
      refine ⟨hne, sep, middle, sep', word, hsep, hmiddle, hsep', hword, ?_⟩
      rw [hname, hinner, List.append_assoc, List.cons_append]
  · rintro ⟨hne, sep, middle, sep', word, hsep, hmiddle, hsep', hword, hname⟩
    let front := String.ofList (stem.toList ++ sep :: middle.toList)
    have hfront : front.toList = stem.toList ++ sep :: middle.toList := String.toList_ofList
    have houter : name.toList = front.toList ++ sep' :: word.toList := by
      rw [hname, hfront, List.append_assoc, List.cons_append]
    exact ⟨hne, front, word, cutLast?_eq_some sep' hsep' houter (readbackWords_free word hword),
      .setpointReadback hword (cutLast?_eq_some sep hsep hfront (setpointWords_free middle hmiddle))
        hmiddle⟩

/-! ## The proper spellings -/

/-- Among the spellings of a setpoint, the one that ends in `:SP`. -/
theorem suffix_setpoint_iff (h : split? name = some (stem, .setpoint)) :
    ":SP".toList <:+ name.toList ↔ name = stem ++ ":SP" := by
  obtain ⟨-, front, word, hcut, hends⟩ := split?_eq_some_iff.mp h
  cases hends
  constructor
  · rintro ⟨before, hname⟩
    have hproper : cutLast? name = some (String.ofList before, "SP") :=
      cutLast?_eq_some ':' rfl (by simp [← hname]) (by decide)
    obtain ⟨rfl, -⟩ := Prod.mk.inj (Option.some.inj (hcut.symm.trans hproper))
    rw [← String.toList_inj, ← hname]
    simp
  · rintro rfl
    exact ⟨stem.toList, by simp⟩

/-- Among the spellings of a setpoint readback, the one that ends in `:SP:RBV`. -/
theorem suffix_setpointReadback_iff (h : split? name = some (stem, .setpointReadback)) :
    ":SP:RBV".toList <:+ name.toList ↔ name = stem ++ ":SP:RBV" := by
  obtain ⟨-, front, word, hcut, hends⟩ := split?_eq_some_iff.mp h
  cases hends with
  | @setpointReadback _ _ middle _ hword hfront hmiddle =>
    constructor
    · rintro ⟨before, hname⟩
      have hproper : cutLast? name = some (String.ofList (before ++ ":SP".toList), "RBV") :=
        cutLast?_eq_some ':' rfl (by simp [← hname]) (by decide)
      obtain ⟨rfl, -⟩ := Prod.mk.inj (Option.some.inj (hcut.symm.trans hproper))
      have hinner : cutLast? (String.ofList (before ++ ":SP".toList)) =
          some (String.ofList before, "SP") :=
        cutLast?_eq_some ':' rfl (by simp) (by decide)
      obtain ⟨rfl, -⟩ := Prod.mk.inj (Option.some.inj (hfront.symm.trans hinner))
      rw [← String.toList_inj, ← hname]
      simp
    · rintro rfl
      exact ⟨stem.toList, by simp⟩

/-! ## Stems -/

/-- A stem has an ending after it. -/
theorem exists_eq_append_of_split? (h : split? name = some (stem, suffix)) :
    ∃ sep ending, name.toList = stem.toList ++ sep :: ending := by
  cases suffix with
  | setpoint =>
    obtain ⟨-, sep, word, -, -, hname⟩ := split?_eq_setpoint_iff.mp h
    exact ⟨sep, _, hname⟩
  | setpointReadback =>
    obtain ⟨-, sep, middle, sep', word, -, -, -, -, hname⟩ := split?_eq_setpointReadback_iff.mp h
    exact ⟨sep, _, hname⟩

/-- A stem comes before the names that are made from it. -/
theorem stem_lt (h : split? name = some (stem, suffix)) : stem < name := by
  obtain ⟨sep, ending, hname⟩ := exists_eq_append_of_split? h
  exact Text.lt_of_append_cons hname

theorem stem_of_split? (h : split? name = some (stem, suffix)) : PvName.stem name = stem := by
  rw [PvName.stem, h]

theorem stem_of_split?_none (h : split? name = none) : PvName.stem name = name := by
  rw [PvName.stem, h]

theorem stem_le (name : String) : PvName.stem name ≤ name := by
  cases h : split? name with
  | none => exact (stem_of_split?_none h).le
  | some pair => exact (stem_of_split? h).le.trans (stem_lt h).le

/-- A name is its own stem if and only if it has no ending. -/
theorem stem_eq_self_iff : PvName.stem name = name ↔ split? name = none := by
  refine ⟨fun hstem => ?_, stem_of_split?_none⟩
  cases h : split? name with
  | none => rfl
  | some pair => exact absurd ((stem_of_split? h).symm.trans hstem) (stem_lt h).ne

theorem suffixIn?_eq_some_iff : suffixIn? family name = some suffix ↔
    split? name = some (family, suffix) := by
  rw [suffixIn?]
  cases split? name with
  | none => simp
  | some pair => simp [Prod.ext_iff]

theorem suffixIn?_self (name : String) : suffixIn? name name = none := by
  rw [Option.eq_none_iff_forall_ne_some]
  intro suffix h
  exact (stem_lt (suffixIn?_eq_some_iff.mp h)).false

end EpicsDb.PvName
