import EpicsDb.Proofs.UnitRuns

/-!
# Products of units

The factors of a product are written with spaces between them.  The spaces are taken out before a
unit is cut into atoms, so the factors are read as one word, and most products are refused.

* `isAllowed_spaced` says that a product is accepted if and only if it is a standalone unit or its
  factors, written without spaces, are a known unit.
* `tables_uncut` and `tables_scaled` are the facts about the tables of units: no unit of them can be
  cut into known units, not even behind a scale.
* `known_flatten_iff` concludes that known units in a row make up a known unit only if the first one
  is taken for a scale.
-/

namespace EpicsDb.EngineeringUnit

variable {c : Char} {unit : String} {front back word : List Char} {words : List (List Char)}

/-! ## Words in a row -/

/-- The word starts with a known unit. -/
def StartsWithUnit (word : List Char) : Prop :=
  ∃ n < word.length + 1, isKnown (word.take n) = true

instance : DecidablePred StartsWithUnit :=
  fun _ => inferInstanceAs (Decidable (∃ n < _, _))

theorem startsWithUnit_append (h : Known front) (back : List Char) :
    StartsWithUnit (front ++ back) := by
  refine ⟨front.length, ?_, ?_⟩
  · rw [List.length_append]
    omega
  · rw [List.take_left]
    exact isKnown_iff.mpr h

theorem Known.ne_nil (h : Known word) : word ≠ [] := by
  have htables : ∀ unit ∈ plain ++ scalable, unit.toList ≠ [] := by decide +kernel
  cases h with
  | ofPlain h => exact htables _ (List.mem_append_left _ h)
  | ofScalable h => exact htables _ (List.mem_append_right _ h)
  | ofScale hscale h => exact List.cons_ne_nil _ _

/-- No unit of the tables is a known unit before the start of another one. -/
theorem tables_uncut : ∀ unit ∈ plain ++ scalable, ∀ n < unit.toList.length, 0 < n →
    isKnown (unit.toList.take n) = true → ¬StartsWithUnit (unit.toList.drop n) := by
  decide +kernel

/-- The same holds of a unit with a scale, where a unit of the tables starts with the scale. -/
theorem tables_scaled : ∀ unit ∈ plain ++ scalable, ∀ base ∈ scalable,
    unit.toList.head?.any scales.contains = true → unit.toList.tail ≠ [] →
      unit.toList.tail <+: base.toList →
        ¬StartsWithUnit (base.toList.drop unit.toList.tail.length) := by
  decide +kernel

theorem not_startsWithUnit (hunit : unit ∈ plain ++ scalable)
    (hsplit : unit.toList = front ++ back) (hfront : Known front) : ¬StartsWithUnit back := by
  intro hback
  have hne : back ≠ [] := by
    rintro rfl
    exact absurd hback (by decide +kernel)
  have hpos : 0 < front.length := List.length_pos_iff.mpr hfront.ne_nil
  have hlt : front.length < unit.toList.length := by
    rw [hsplit, List.length_append]
    exact Nat.lt_add_of_pos_right (List.length_pos_iff.mpr hne)
  have huncut := tables_uncut unit hunit front.length hlt hpos
  rw [hsplit, List.take_left, List.drop_left] at huncut
  exact huncut (isKnown_iff.mpr hfront) hback

theorem not_startsWithUnit_of_scale {scale : Char} {base : String}
    (hunit : unit ∈ plain ++ scalable) (hbase : base ∈ scalable) (hscale : scale ∈ scales)
    (hfront : front ≠ []) (htext : unit.toList = scale :: front)
    (hsplit : base.toList = front ++ back) :
    ¬StartsWithUnit back := by
  have hscaled := tables_scaled unit hunit base hbase
  rw [htext, hsplit, List.tail_cons, List.drop_left] at hscaled
  exact hscaled (by simpa using hscale) hfront (List.prefix_append front back)

/-- A known unit before the start of another one makes up a known unit with it only if it is taken
for a scale. -/
theorem Known.eq_scale (hfront : Known front) (hback : StartsWithUnit back)
    (h : Known (front ++ back)) :
    ∃ scale ∈ scales, ∃ base ∈ scalable, front = [scale] ∧ back = base.toList := by
  generalize htext : front ++ back = text at h
  cases h with
  | ofPlain h =>
    exact absurd hback (not_startsWithUnit (List.mem_append_left _ h) htext.symm hfront)
  | ofScalable h =>
    exact absurd hback (not_startsWithUnit (List.mem_append_right _ h) htext.symm hfront)
  | @ofScale scale base hscale h =>
    obtain ⟨d, tail, rfl⟩ := List.exists_cons_of_ne_nil hfront.ne_nil
    obtain ⟨rfl, hbase⟩ := List.cons.inj htext
    by_cases htail : tail = []
    · subst htail
      exact ⟨d, hscale, base, h, rfl, hbase⟩
    · -- the scale is the first character of a longer unit
      exfalso
      generalize hword : d :: tail = word at hfront
      cases hfront with
      | ofPlain hunit =>
        exact not_startsWithUnit_of_scale (List.mem_append_left _ hunit) h hscale htail hword.symm
          hbase.symm hback
      | ofScalable hunit =>
        exact not_startsWithUnit_of_scale (List.mem_append_right _ hunit) h hscale htail hword.symm
          hbase.symm hback
      | @ofScale other unit hother hunit =>
        obtain ⟨rfl, rfl⟩ := List.cons.inj hword
        exact not_startsWithUnit (List.mem_append_right _ h) hbase.symm (.ofScalable hunit) hback

/-- Known units in a row make up a known unit only if there is one of them, or two of which the
first is taken for a scale. -/
theorem known_flatten_iff (hne : words ≠ []) (hwords : ∀ word ∈ words, Known word) :
    Known words.flatten ↔
      (∃ word, words = [word]) ∨
        ∃ scale ∈ scales, ∃ base ∈ scalable, words = [[scale], base.toList] := by
  constructor
  · intro h
    match words, hne, hwords with
    | [word], _, _ => exact .inl ⟨word, rfl⟩
    | first :: second :: words, _, hwords =>
      right
      have hfirst : Known first := hwords first (by simp)
      have hsecond : Known second := hwords second (by simp)
      obtain ⟨scale, hscale, base, hbase, rfl, hflatten⟩ :=
        hfirst.eq_scale (startsWithUnit_append hsecond words.flatten) h
      refine ⟨scale, hscale, base, hbase, ?_⟩
      cases words with
      | nil =>
        rw [List.flatten_nil, List.append_nil] at hflatten
        rw [hflatten]
      | cons third words =>
        have hthird : Known third := hwords third (by simp)
        exact absurd (startsWithUnit_append hthird words.flatten)
          (not_startsWithUnit (List.mem_append_right _ hbase) hflatten.symm hsecond)
  · rintro (⟨word, rfl⟩ | ⟨scale, hscale, base, hbase, rfl⟩)
    · simpa using hwords word
    · simpa using Known.ofScale hscale hbase

/-! ## Products -/

/-- Without its spaces, a product is its factors in a row. -/
theorem filter_intercalate (h : ∀ word ∈ words, ' ' ∉ word) :
    ([' '].intercalate words).filter (· != ' ') = words.flatten := by
  induction words with
  | nil => rfl
  | cons word words ih =>
    have hword : word.filter (· != ' ') = word := by
      rw [List.filter_eq_self]
      intro c hc
      have hne : c ≠ ' ' := fun heq => h word List.mem_cons_self (heq ▸ hc)
      simpa using hne
    have hwords := ih fun other hother => h other (List.mem_cons_of_mem word hother)
    cases words with
    | nil => simpa using hword
    | cons next words =>
      rw [List.intercalate_cons_cons, List.filter_append, List.filter_append, hwords, hword]
      simp

theorem mem_flatten_of_mem_intercalate (h : ∀ word ∈ words, ' ' ∉ word)
    (hmem : c ∈ [' '].intercalate words) (hc : c ≠ ' ') : c ∈ words.flatten := by
  rw [← filter_intercalate h]
  exact List.mem_filter.mpr ⟨hmem, by simpa using hc⟩

theorem isUnitChar_of_isDelimiter (h : isDelimiter c = true) : isUnitChar c = false := by
  simp only [isDelimiter, Bool.or_eq_true, beq_iff_eq] at h
  rcases h with (rfl | rfl) | rfl <;> decide

/-- A text of letters is one run, and it remains. -/
theorem remaining_of_unitChars (hne : word ≠ []) (hword : ∀ c ∈ word, isUnitChar c = true) :
    remaining [] word = [⟨[], word, []⟩] := by
  have hfree : ∀ c ∈ word, isDelimiter c = false := by
    intro c hc
    by_contra hdelimiter
    have hother := isUnitChar_of_isDelimiter (by simpa using hdelimiter)
    exact absurd (hword c hc) (by simp [hother])
  have hone : ¬StartsWithOne (word ++ []) := by
    rw [List.append_nil]
    rintro ⟨rest, rfl⟩
    exact absurd (hword '1' List.mem_cons_self) (by decide)
  have hruns : remaining [] (word ++ []) = ⟨[], word, []⟩ :: remaining ([] ++ word) [] :=
    remaining_append hne hfree (by simp) fun _ => hone
  rw [List.append_nil] at hruns
  rw [hruns, remaining, runs_nil]
  rfl

section Factors

variable {units : List String} (h : ∀ word ∈ units.map String.toList, Known word)
include h

theorem isUnitChar_of_mem_flatten :
    ∀ c ∈ (units.map String.toList).flatten, isUnitChar c = true := by
  intro c hc
  obtain ⟨word, hword, hmem⟩ := List.mem_flatten.mp hc
  exact (h word hword).isUnitChar_of_mem hmem

theorem space_not_mem : ∀ word ∈ units.map String.toList, ' ' ∉ word :=
  fun word hword => (h word hword).not_mem (by decide)

/-- A product is written with letters and spaces. -/
theorem not_mem_spaced (hspace : c ≠ ' ') (hc : isUnitChar c = false) :
    c ∉ (" ".intercalate units).toList := by
  intro hmem
  rw [String.toList_intercalate] at hmem
  have hflatten := mem_flatten_of_mem_intercalate (space_not_mem h) hmem hspace
  exact absurd (isUnitChar_of_mem_flatten h c hflatten) (by simp [hc])

/-- A product is accepted if and only if it is a standalone unit, or its factors in a row are a
known unit. -/
theorem isAllowed_spaced (hne : units ≠ []) :
    isAllowed (" ".intercalate units) = true ↔
      " ".intercalate units ∈ standalone ∨ Known (units.map String.toList).flatten := by
  have hflatten : (units.map String.toList).flatten ≠ [] := by
    obtain ⟨unit, units, rfl⟩ := List.exists_cons_of_ne_nil hne
    have hunit : unit.toList ≠ [] := (h unit.toList (by simp)).ne_nil
    rw [List.map_cons, List.flatten_cons]
    exact List.append_ne_nil_of_left_ne_nil hunit _
  have hatoms : atoms (" ".intercalate units).toList = [(units.map String.toList).flatten] := by
    rw [atoms_eq, String.toList_intercalate]
    change (remaining [] (([' '].intercalate _).filter (· != ' '))).map Run.text = _
    rw [filter_intercalate (space_not_mem h),
      remaining_of_unitChars hflatten (isUnitChar_of_mem_flatten h)]
    rfl
  have hcaret : '^' ∉ (units.map String.toList).flatten := fun hmem =>
    absurd (isUnitChar_of_mem_flatten h '^' hmem) (by decide)
  rw [isAllowed_iff, Macro.expand_eq_self (not_mem_spaced h (by decide) (by decide)), hatoms,
    ← isKnown_iff, ← isPower_of_not_mem hcaret]
  refine or_congr_right ⟨?_, fun hpower => ⟨[], _, rfl, by simp, hpower⟩⟩
  rintro ⟨front, last, hsplit, -, hlast⟩
  obtain ⟨-, hword⟩ := List.append_inj' (show [] ++ [_] = front ++ [last] from hsplit) rfl
  obtain rfl : _ = last := List.singleton_inj.mp hword
  exact hlast

/-- The only standalone unit that is a product. -/
theorem spaced_mem_standalone_iff (hne : units ≠ []) :
    " ".intercalate units ∈ standalone ↔ units = ["uA", "hour"] := by
  constructor
  · intro hmem
    have hstroke : '/' ∉ (" ".intercalate units).toList := not_mem_spaced h (by decide) (by decide)
    rcases List.mem_cons.mp hmem with htext | hmem
    · rw [htext] at hstroke
      exact absurd (by decide +kernel) hstroke
    · have htext : " ".intercalate units = "uA hour" := List.mem_singleton.mp hmem
      have hsplit := List.splitOn_intercalate ' ' (space_not_mem h) (by simpa using hne)
      have hwords : (" ".intercalate units).toList = [' '].intercalate (units.map String.toList) :=
        String.toList_intercalate
      rw [← hwords, htext] at hsplit
      have hpair : "uA hour".toList.splitOn ' ' = ["uA", "hour"].map String.toList := by
        decide +kernel
      rw [hpair] at hsplit
      exact (List.map_injective_iff.mpr fun _ _ => String.toList_inj.mp) hsplit.symm
  · rintro rfl
    decide +kernel

end Factors

/-- Known units with spaces between them are accepted if and only if there is one of them, they are
the standalone unit, or there are two of which the first is taken for a scale of the second. -/
theorem product_isAllowed_iff (units : List String) (hne : units ≠ [])
    (h : ∀ unit ∈ units, isKnown unit.toList = true) :
    isAllowed (" ".intercalate units) = true ↔
      (∃ unit, units = [unit]) ∨ units = ["uA", "hour"] ∨
        ∃ scale ∈ scales, ∃ base ∈ scalable, units = [String.singleton scale, base] := by
  have hwords : ∀ word ∈ units.map String.toList, Known word := by
    intro word hword
    obtain ⟨unit, hunit, rfl⟩ := List.mem_map.mp hword
    exact isKnown_iff.mp (h unit hunit)
  rw [isAllowed_spaced hwords hne, spaced_mem_standalone_iff hwords hne,
    known_flatten_iff (by simpa using hne) hwords, or_left_comm]
  refine or_congr ?_ (or_congr_right ?_)
  · rw [← List.length_eq_one_iff, List.length_map, List.length_eq_one_iff]
  · have hpair : ∀ scale base, units.map String.toList = [[scale], base.toList] ↔
        units = [String.singleton scale, base] := by
      intro scale base
      have hmap : [[scale], base.toList] = [String.singleton scale, base].map String.toList := by
        simp
      rw [hmap]
      exact (List.map_injective_iff.mpr fun _ _ => String.toList_inj.mp).eq_iff
    simp only [hpair]

/-- The theorem at a metre and a second, which are taken for a millisecond. -/
theorem product_isAllowed_milli :
    let units := ["m", "s"]
    units ≠ [] ∧ (∀ unit ∈ units, isKnown unit.toList = true) ∧
      isAllowed (" ".intercalate units) = true := by
  intro units
  have hne : units ≠ [] := by decide
  have hknown : ∀ unit ∈ units, isKnown unit.toList = true := by decide +kernel
  refine ⟨hne, hknown, (product_isAllowed_iff units hne hknown).mpr ?_⟩
  exact .inr (.inr ⟨'m', by decide, "s", by decide, rfl⟩)

/-- A product of two known units that is refused. -/
theorem product_refused :
    (∀ unit ∈ ["A", "s"], isKnown unit.toList = true) ∧ " ".intercalate ["A", "s"] = "A s" ∧
      isAllowed "A s" = false := by
  decide +kernel

end EpicsDb.EngineeringUnit
