import EpicsDb.EngineeringUnit
import EpicsDb.Proofs.Replacing
import Mathlib.Data.List.Basic

/-!
# The runs of a unit

`EngineeringUnit.isAllowed` works on the text of a unit: it takes out the ones of quotients, and
then cuts what is left into atoms.  Here a unit is described by the runs that stand between its
strokes and brackets, where they stand in the text as it was written.

* `Known` and `KnownPower` say what a unit and a power of a unit are; `isKnown_iff` and
  `isPower_iff` say that the program decides them.
* `IsRun` describes the runs of a text by their surroundings.  `runs` lists them, by `mem_runs_iff`
  and `pairwise_runs`.
* `pieces_replaceAll` is the induction along the text: the ones that are taken out are exactly the
  runs that `Run.IsOne` describes, and the other runs are not changed by it.  `atoms_eq` adds the
  one at the start of the text.
-/

namespace EpicsDb.EngineeringUnit

variable {c : Char} {cs before word rest : List Char}

/-! ## Known units -/

/-- The units, with their scales. -/
inductive Known : List Char → Prop where
  | ofPlain {unit : String} (h : unit ∈ plain) : Known unit.toList
  | ofScalable {unit : String} (h : unit ∈ scalable) : Known unit.toList
  | ofScale {scale : Char} {unit : String} (hscale : scale ∈ scales) (h : unit ∈ scalable) :
      Known (scale :: unit.toList)

/-- A unit that is raised to a power by a caret and digits. -/
def KnownPower (word : List Char) : Prop :=
  ∃ base exponent, word = base ++ '^' :: exponent ∧ Known base ∧ exponent ≠ [] ∧
    ∀ d ∈ exponent, d.isDigit = true

theorem isKnown_iff : isKnown word = true ↔ Known word := by
  simp only [isKnown, Bool.or_eq_true, List.contains_iff_mem]
  constructor
  · rintro ((h | h) | h)
    · simpa using Known.ofPlain h
    · simpa using Known.ofScalable h
    · cases word with
      | nil => simp [isScaled] at h
      | cons scale base =>
        simp only [isScaled, Bool.and_eq_true, List.contains_iff_mem] at h
        simpa using Known.ofScale h.1 h.2
  · intro h
    cases h with
    | ofPlain h => exact .inl (.inl (by simpa using h))
    | ofScalable h => exact .inl (.inr (by simpa using h))
    | ofScale hscale h => exact .inr (by simpa [isScaled] using ⟨hscale, h⟩)

/-- Units are written with letters and the percent sign. -/
def isUnitChar (c : Char) : Bool :=
  c.isAlpha || c == '%'

theorem tables_unitChars :
    (∀ unit ∈ plain ++ scalable, unit.toList.all isUnitChar = true) ∧
      scales.all isUnitChar = true := by
  decide +kernel

theorem Known.isUnitChar_of_mem (h : Known word) (hc : c ∈ word) : isUnitChar c = true := by
  obtain ⟨hunits, hscales⟩ := tables_unitChars
  simp only [List.all_eq_true] at hunits hscales
  cases h with
  | ofPlain h => exact hunits _ (List.mem_append_left _ h) c hc
  | ofScalable h => exact hunits _ (List.mem_append_right _ h) c hc
  | ofScale hscale h =>
    rcases List.mem_cons.mp hc with rfl | hc
    · exact hscales c hscale
    · exact hunits _ (List.mem_append_right _ h) c hc

theorem Known.not_mem (h : Known word) (hc : isUnitChar c = false) : c ∉ word := by
  intro hmem
  rw [h.isUnitChar_of_mem hmem] at hc
  exact absurd hc (by decide)

theorem takeWhile_caret (h : '^' ∉ word) (rest : List Char) :
    (word ++ rest).takeWhile (· != '^') = word ++ rest.takeWhile (· != '^') := by
  apply List.takeWhile_append_of_pos
  intro c hc
  have hne : c ≠ '^' := fun heq => h (heq ▸ hc)
  simpa using hne

/-- The caret, if there is one, ends the unit that is raised to a power. -/
theorem isPower_append {base exponent : List Char} (hbase : '^' ∉ base) :
    isPower (base ++ '^' :: exponent) =
      (!exponent.isEmpty && exponent.all Char.isDigit && isKnown base) := by
  simp [isPower, takeWhile_caret hbase]

theorem isPower_of_not_mem (h : '^' ∉ word) : isPower word = isKnown word := by
  have htake : word.takeWhile (· != '^') = word := by simpa using takeWhile_caret h []
  simp [isPower, htake]

theorem isPower_iff : isPower word = true ↔ Known word ∨ KnownPower word := by
  have hcaret : isUnitChar '^' = false := by decide
  constructor
  · intro h
    by_cases hmem : '^' ∈ word
    · obtain ⟨base, exponent, rfl, hbase⟩ := List.eq_append_cons_of_mem hmem
      rw [isPower_append hbase] at h
      simp only [Bool.and_eq_true, Bool.not_eq_true', List.isEmpty_eq_false_iff,
        List.all_eq_true] at h
      exact .inr ⟨base, exponent, rfl, isKnown_iff.mp h.2, h.1.1, h.1.2⟩
    · rw [isPower_of_not_mem hmem] at h
      exact .inl (isKnown_iff.mp h)
  · rintro (h | ⟨base, exponent, rfl, hbase, hne, hdigits⟩)
    · rw [isPower_of_not_mem (h.not_mem hcaret)]
      exact isKnown_iff.mpr h
    · rw [isPower_append (hbase.not_mem hcaret)]
      simpa [isKnown_iff.mpr hbase, hne] using hdigits

/-! ## Runs -/

/-- The characters between the atoms of a unit. -/
def isDelimiter (c : Char) : Bool :=
  c == '/' || c == '(' || c == ')'

/-- A stretch of a text, with what stands before and after it. -/
structure Run where
  before : List Char
  text : List Char
  after : List Char
  deriving DecidableEq, Repr

/-- The stretch has no delimiters in it and cannot be made longer. -/
structure IsRun (cs : List Char) (r : Run) : Prop where
  split : cs = r.before ++ (r.text ++ r.after)
  nonempty : r.text ≠ []
  free : ∀ c ∈ r.text, isDelimiter c = false
  starts : ∀ c, r.before.getLast? = some c → isDelimiter c = true
  stops : ∀ c, r.after.head? = some c → isDelimiter c = true

/-- The run is the one of a quotient: a stroke follows it, and it stands at the start of the text or
of what is in brackets. -/
def Run.IsOne (r : Run) : Prop :=
  r.text = ['1'] ∧ r.after.head? = some '/' ∧ (r.before = [] ∨ r.before.getLast? = some '(')

instance : DecidablePred Run.IsOne :=
  fun _ => inferInstanceAs (Decidable (_ ∧ _ ∧ _))

/-- The run counts as an atom. -/
def Remains (cs : List Char) (r : Run) : Prop :=
  IsRun cs r ∧ ¬r.IsOne

/-- The runs of a text that stands behind `before`, from left to right. -/
def runs (before : List Char) : List Char → List Run
  | [] => []
  | c :: cs =>
    if isDelimiter c then runs (before ++ [c]) cs
    else
      let text := c :: cs.takeWhile (!isDelimiter ·)
      let after := cs.dropWhile (!isDelimiter ·)
      ⟨before, text, after⟩ :: runs (before ++ text) after
termination_by cs => cs.length
decreasing_by
  · exact Nat.lt_succ_self _
  · exact Nat.lt_succ_of_le (List.dropWhile_sublist _).length_le

theorem runs_nil : runs before [] = [] := by
  rw [runs]

theorem runs_delimiter (hc : isDelimiter c = true) (cs : List Char) :
    runs before (c :: cs) = runs (before ++ [c]) cs := by
  rw [runs, if_pos hc]

/-- A stretch without delimiters ends where the text ends or a delimiter follows. -/
theorem takeWhile_append_rest (hword : ∀ c ∈ word, isDelimiter c = false)
    (hrest : ∀ c, rest.head? = some c → isDelimiter c = true) :
    (word ++ rest).takeWhile (!isDelimiter ·) = word := by
  have hstop : rest.takeWhile (!isDelimiter ·) = [] := by
    cases rest with
    | nil => rfl
    | cons c rest => simp [hrest c rfl]
  have hfree : ∀ c ∈ word, (!isDelimiter c) = true := fun c hc => by simp [hword c hc]
  rw [List.takeWhile_append_of_pos hfree, hstop, List.append_nil]

theorem dropWhile_append_rest (hword : ∀ c ∈ word, isDelimiter c = false)
    (hrest : ∀ c, rest.head? = some c → isDelimiter c = true) :
    (word ++ rest).dropWhile (!isDelimiter ·) = rest := by
  have hsplit := List.takeWhile_append_dropWhile (p := (!isDelimiter ·)) (l := word ++ rest)
  rw [takeWhile_append_rest hword hrest] at hsplit
  exact List.append_cancel_left hsplit

theorem free_takeWhile (hc : isDelimiter c = false) (cs : List Char) :
    ∀ d ∈ c :: cs.takeWhile (!isDelimiter ·), isDelimiter d = false := by
  intro d hd
  rcases List.mem_cons.mp hd with rfl | hd
  · exact hc
  · simpa using List.all_eq_true.mp List.all_takeWhile d hd

theorem head?_dropWhile (cs : List Char) :
    ∀ d, (cs.dropWhile (!isDelimiter ·)).head? = some d → isDelimiter d = true := by
  intro d hd
  have hhead := List.head?_dropWhile_not (!isDelimiter ·) cs
  rw [hd] at hhead
  simpa using hhead

theorem exists_run (hc : isDelimiter c = false) (cs : List Char) :
    ∃ word rest, c :: cs = word ++ rest ∧ word ≠ [] ∧ (∀ d ∈ word, isDelimiter d = false) ∧
      ∀ d, rest.head? = some d → isDelimiter d = true := by
  refine ⟨_, _, ?_, List.cons_ne_nil _ _, free_takeWhile hc cs, head?_dropWhile cs⟩
  rw [List.cons_append, List.takeWhile_append_dropWhile]

/-- A text that does not start with a delimiter starts with a run. -/
theorem runs_append (hne : word ≠ []) (hword : ∀ c ∈ word, isDelimiter c = false)
    (hrest : ∀ c, rest.head? = some c → isDelimiter c = true) :
    runs before (word ++ rest) = ⟨before, word, rest⟩ :: runs (before ++ word) rest := by
  obtain ⟨c, cs, rfl⟩ := List.exists_cons_of_ne_nil hne
  have hc : ¬isDelimiter c = true := by simp [hword c List.mem_cons_self]
  have hcs : ∀ d ∈ cs, isDelimiter d = false := fun d hd => hword d (List.mem_cons_of_mem c hd)
  rw [List.cons_append, runs, if_neg hc]
  simp only [takeWhile_append_rest hcs hrest, dropWhile_append_rest hcs hrest]

theorem prefix_of_mem_runs {r : Run} (h : r ∈ runs before cs) : before <+: r.before := by
  fun_induction runs before cs with
  | case1 => simp at h
  | case2 before c cs hc ih => exact (List.prefix_append before [c]).trans (ih h)
  | case3 before c cs hc text after ih =>
    rcases List.mem_cons.mp h with rfl | h
    · exact List.prefix_rfl
    · exact (List.prefix_append before text).trans (ih h)

/-- Runs are listed from left to right. -/
theorem pairwise_runs (before cs : List Char) :
    (runs before cs).Pairwise fun r s => r.before.length < s.before.length := by
  fun_induction runs before cs with
  | case1 => exact .nil
  | case2 before c cs hc ih => exact ih
  | case3 before c cs hc text after ih =>
    refine .cons ?_ ih
    intro s hs
    have hlater : (before ++ text).length ≤ s.before.length := (prefix_of_mem_runs hs).length_le
    simp only [text, List.length_append, List.length_cons] at hlater
    change before.length < s.before.length
    omega

/-- Where a run stands that starts behind `before`. -/
theorem IsRun.exists_further {r : Run} (h : IsRun (before ++ cs) r)
    (hbefore : before <+: r.before) :
    ∃ further, r.before = before ++ further ∧ cs = further ++ (r.text ++ r.after) := by
  obtain ⟨further, hfurther⟩ := hbefore
  have hsplit := h.split
  rw [← hfurther, List.append_assoc] at hsplit
  exact ⟨further, hfurther.symm, List.append_cancel_left hsplit⟩

/-- A run of a text that starts with a delimiter stands behind it. -/
theorem IsRun.prefix_of_delimiter {r : Run} (h : IsRun (before ++ c :: cs) r)
    (hc : isDelimiter c = true) (hbefore : before <+: r.before) : before ++ [c] <+: r.before := by
  obtain ⟨further, hfurther, hsplit⟩ := h.exists_further hbefore
  cases further with
  | nil =>
    obtain ⟨d, ds, htext⟩ := List.exists_cons_of_ne_nil h.nonempty
    rw [htext] at hsplit
    obtain ⟨rfl, -⟩ := List.cons.inj hsplit
    have hfree : isDelimiter c = false := h.free c (by simp [htext])
    exact absurd hc (by simp [hfree])
  | cons d further =>
    obtain ⟨rfl, -⟩ := List.cons.inj hsplit
    exact ⟨further, by simp [hfurther]⟩

/-- A run of a text that starts with a stretch without delimiters is this stretch, or stands behind
it. -/
theorem IsRun.eq_or_prefix {r : Run} (h : IsRun (before ++ (word ++ rest)) r)
    (hword : ∀ c ∈ word, isDelimiter c = false)
    (hrest : ∀ c, rest.head? = some c → isDelimiter c = true) (hbefore : before <+: r.before) :
    r = ⟨before, word, rest⟩ ∨ before ++ word <+: r.before := by
  obtain ⟨further, hfurther, hsplit⟩ := h.exists_further hbefore
  rcases List.eq_nil_or_concat' further with rfl | ⟨init, d, rfl⟩
  · have htext : word = r.text := by
      rw [← takeWhile_append_rest hword hrest, hsplit]
      exact takeWhile_append_rest h.free h.stops
    rw [← htext] at hsplit
    have hafter : rest = r.after := List.append_cancel_left hsplit
    left
    cases r
    simp_all
  · right
    rcases List.append_eq_append_iff.mp hsplit with ⟨more, hmore, -⟩ | ⟨more, hmore, -⟩
    · exact ⟨more, by rw [hfurther, hmore, List.append_assoc]⟩
    · -- the delimiter before the run would stand within the stretch
      have hd : isDelimiter d = true := h.starts d (by simp [hfurther])
      have hfree : isDelimiter d = false := hword d (by simp [hmore])
      exact absurd hd (by simp [hfree])

/-- The list holds the runs of the text that start in it. -/
theorem mem_runs_iff {r : Run} (hstarts : ∀ c, cs.head? = some c → isDelimiter c = false →
      ∀ d, before.getLast? = some d → isDelimiter d = true) :
    r ∈ runs before cs ↔ IsRun (before ++ cs) r ∧ before <+: r.before := by
  fun_induction runs before cs with
  | case1 before =>
    refine iff_of_false List.not_mem_nil ?_
    rintro ⟨h, hbefore⟩
    obtain ⟨further, -, hsplit⟩ := h.exists_further hbefore
    simp only [List.nil_eq, List.append_eq_nil_iff] at hsplit
    exact h.nonempty hsplit.2.1
  | case2 before c cs hc ih =>
    have hlast : ∀ d, (before ++ [c]).getLast? = some d → isDelimiter d = true := by
      simpa using hc
    rw [ih fun _ _ _ => hlast, List.append_assoc, List.singleton_append]
    constructor
    · rintro ⟨h, hbefore⟩
      exact ⟨h, (List.prefix_append before [c]).trans hbefore⟩
    · rintro ⟨h, hbefore⟩
      exact ⟨h, h.prefix_of_delimiter hc hbefore⟩
  | case3 before c cs hc text after ih =>
    have hcs : text ++ after = c :: cs := by
      simp [text, after, List.takeWhile_append_dropWhile]
    have hfree : isDelimiter c = false := by simpa using hc
    have htext : ∀ d ∈ text, isDelimiter d = false := free_takeWhile hfree cs
    have hafter : ∀ d, after.head? = some d → isDelimiter d = true := head?_dropWhile cs
    have hbefore := hstarts c rfl hfree
    have hskip : ∀ d, after.head? = some d → isDelimiter d = false →
        ∀ e, (before ++ text).getLast? = some e → isDelimiter e = true := by
      intro d hd hfree
      exact absurd (hafter d hd) (by simp [hfree])
    rw [List.mem_cons, ih hskip, ← hcs, List.append_assoc]
    constructor
    · rintro (rfl | ⟨h, hlater⟩)
      · exact ⟨⟨rfl, List.cons_ne_nil _ _, htext, hbefore, hafter⟩, List.prefix_rfl⟩
      · exact ⟨h, (List.prefix_append before text).trans hlater⟩
    · rintro ⟨h, hprefix⟩
      exact (h.eq_or_prefix htext hafter hprefix).imp id fun hlater => ⟨h, hlater⟩

/-! ## Atoms -/

/-- The atoms of a text that stands behind `before`. -/
def remaining (before cs : List Char) : List Run :=
  (runs before cs).filter fun r => ¬r.IsOne

theorem remaining_delimiter (hc : isDelimiter c = true) (cs : List Char) :
    remaining before (c :: cs) = remaining (before ++ [c]) cs := by
  rw [remaining, runs_delimiter hc, remaining]

/-- The one of a quotient is passed over. -/
theorem remaining_one (h : before = [] ∨ before.getLast? = some '(') (rest : List Char) :
    remaining before ('1' :: '/' :: rest) = remaining (before ++ ['1'] ++ ['/']) rest := by
  have hruns : runs before ('1' :: '/' :: rest) =
      ⟨before, ['1'], '/' :: rest⟩ :: runs (before ++ ['1']) ('/' :: rest) := by
    show runs before (['1'] ++ '/' :: rest) = _
    exact runs_append (by simp) (by simp [isDelimiter]) (by simp [isDelimiter])
  have hone : Run.IsOne ⟨before, ['1'], '/' :: rest⟩ := ⟨rfl, rfl, h⟩
  rw [remaining, hruns, List.filter_cons_of_neg (by simpa using hone),
    runs_delimiter (by decide), remaining]

/-- The text starts with a one and a stroke. -/
def StartsWithOne (cs : List Char) : Prop :=
  ∃ rest, cs = '1' :: '/' :: rest

/-- Nothing else is passed over. -/
theorem remaining_append (hne : word ≠ []) (hword : ∀ c ∈ word, isDelimiter c = false)
    (hrest : ∀ c, rest.head? = some c → isDelimiter c = true)
    (h : before = [] ∨ before.getLast? = some '(' → ¬StartsWithOne (word ++ rest)) :
    remaining before (word ++ rest) =
      ⟨before, word, rest⟩ :: remaining (before ++ word) rest := by
  have hone : ¬Run.IsOne ⟨before, word, rest⟩ := by
    rintro ⟨htext, hstroke, hbefore⟩
    obtain ⟨later, hlater⟩ := List.head?_eq_some_iff.mp hstroke
    obtain rfl : word = ['1'] := htext
    obtain rfl : rest = '/' :: later := hlater
    exact h hbefore ⟨later, rfl⟩
  rw [remaining, runs_append hne hword hrest, List.filter_cons_of_pos (by simpa using hone),
    remaining]

/-! ## Taking out the ones of quotients -/

theorem bracketedOne_eq_none (h : c = '(' → ¬StartsWithOne cs) : bracketedOne c cs = none := by
  rw [bracketedOne.eq_def]
  split
  · exact absurd ⟨_, rfl⟩ (h rfl)
  · rfl

theorem replaceAll_one (rest : List Char) :
    Text.replaceAll bracketedOne ('(' :: '1' :: '/' :: rest) =
      '(' :: Text.replaceAll bracketedOne rest := by
  have hsome : bracketedOne '(' ('1' :: '/' :: rest) = some (['('], 2) := rfl
  rw [Text.replaceAll_cons_of_some hsome]
  rfl

theorem replaceAll_free (hword : '(' ∉ word) (rest : List Char) :
    Text.replaceAll bracketedOne (word ++ rest) = word ++ Text.replaceAll bracketedOne rest := by
  apply Text.replaceAll_append
  intro c hc cs
  exact bracketedOne_eq_none fun heq => absurd (heq ▸ hc) hword

/-- The first character stays. -/
theorem head?_replaceAll (cs : List Char) :
    (Text.replaceAll bracketedOne cs).head? = cs.head? := by
  cases cs with
  | nil => rw [Text.replaceAll_nil]
  | cons c cs =>
    by_cases hone : c = '(' ∧ StartsWithOne cs
    · obtain ⟨rfl, rest, rfl⟩ := hone
      rw [replaceAll_one]
      rfl
    · rw [Text.replaceAll_cons_of_none (bracketedOne_eq_none fun hc h => hone ⟨hc, h⟩)]
      rfl

/-- The atoms of a text are the runs that remain, unless the text starts with the one of a
quotient. -/
theorem pieces_replaceAll (h : before = [] ∨ before.getLast? = some '(' → ¬StartsWithOne cs) :
    Text.pieces isDelimiter (Text.replaceAll bracketedOne cs) =
      (remaining before cs).map Run.text := by
  -- on the length of the text, since a match covers three characters and a run any number of them
  induction hn : cs.length using Nat.strongRecOn generalizing before cs with
  | ind n ih =>
    cases cs with
    | nil =>
      rw [Text.replaceAll_nil, Text.pieces_nil, remaining, runs_nil]
      rfl
    | cons c cs =>
      cases hc : isDelimiter c with
      | true =>
        rw [remaining_delimiter hc]
        by_cases hone : c = '(' ∧ StartsWithOne cs
        · obtain ⟨rfl, rest, rfl⟩ := hone
          have hrest : rest.length < n := by
            rw [← hn]
            simp only [List.length_cons]
            omega
          rw [replaceAll_one, Text.pieces_cons hc, remaining_one (.inr (by simp))]
          exact ih rest.length hrest (by simp) rfl
        · have hnone : bracketedOne c cs = none :=
            bracketedOne_eq_none fun heq hstarts => hone ⟨heq, hstarts⟩
          rw [Text.replaceAll_cons_of_none hnone, Text.pieces_cons hc]
          refine ih cs.length (by simp [← hn]) ?_ rfl
          intro hbefore hstarts
          exact hone ⟨by simpa using hbefore, hstarts⟩
      | false =>
        obtain ⟨word, rest, hsplit, hne, hword, hrest⟩ := exists_run hc cs
        have hbracket : '(' ∉ word := fun hmem => absurd (hword '(' hmem) (by decide)
        have hstops : ∀ d, (Text.replaceAll bracketedOne rest).head? = some d →
            isDelimiter d = true := by
          rw [head?_replaceAll]
          exact hrest
        have hlength : rest.length < n := by
          rw [← hn, hsplit, List.length_append]
          exact Nat.lt_add_of_pos_left (List.length_pos_iff.mpr hne)
        have hlater : ¬StartsWithOne rest := by
          rintro ⟨later, rfl⟩
          exact absurd (hrest '1' rfl) (by decide)
        rw [hsplit] at h ⊢
        rw [replaceAll_free hbracket, Text.pieces_append hne hword hstops,
          remaining_append hne hword hrest h, List.map_cons,
          ih rest.length hlength (fun _ => hlater) rfl]

theorem startsWithOne_of_replaceAll (h : StartsWithOne (Text.replaceAll bracketedOne cs)) :
    StartsWithOne cs := by
  obtain ⟨rest, hrest⟩ := h
  have hfirst := head?_replaceAll cs
  rw [hrest] at hfirst
  obtain ⟨later, rfl⟩ := List.head?_eq_some_iff.mp hfirst.symm
  have hlater : Text.replaceAll bracketedOne later = '/' :: rest := by
    rw [Text.replaceAll_cons_of_none (bracketedOne_eq_none fun heq => absurd heq (by decide))]
      at hrest
    exact (List.cons.inj hrest).2
  have hsecond := head?_replaceAll later
  rw [hlater] at hsecond
  obtain ⟨further, rfl⟩ := List.head?_eq_some_iff.mp hsecond.symm
  exact ⟨further, rfl⟩

/-- The atoms of a unit are the runs that remain of it without its spaces. -/
theorem atoms_eq (cs : List Char) :
    atoms cs = (remaining [] (cs.filter (· != ' '))).map Run.text := by
  change Text.pieces isDelimiter (compact cs) = _
  rw [compact]
  generalize cs.filter (· != ' ') = text
  by_cases hone : StartsWithOne text
  · obtain ⟨rest, rfl⟩ := hone
    have hreplace : Text.replaceAll bracketedOne ('1' :: '/' :: rest) =
        '1' :: '/' :: Text.replaceAll bracketedOne rest :=
      replaceAll_free (show '(' ∉ ['1', '/'] by decide) rest
    rw [hreplace, remaining_one (.inl rfl), ← pieces_replaceAll (by simp)]
    rfl
  · rw [← pieces_replaceAll fun _ => hone]
    split
    · next rest hrest => exact absurd (startsWithOne_of_replaceAll ⟨rest, hrest⟩) hone
    · rfl

/-! ## Units -/

theorem pairwise_remaining (before cs : List Char) :
    (remaining before cs).Pairwise fun r s => r.before.length < s.before.length :=
  (pairwise_runs before cs).filter _

theorem mem_remaining_iff {r : Run} : r ∈ remaining [] cs ↔ Remains cs r := by
  have hruns : r ∈ runs [] cs ↔ IsRun cs r := by
    rw [mem_runs_iff (by simp)]
    simp
  simp [remaining, Remains, hruns]

theorem isAllowed_iff (text : String) :
    isAllowed text = true ↔ text ∈ standalone ∨
      ∃ front last, atoms (Macro.expand text.toList) = front ++ [last] ∧
        (∀ atom ∈ front, isKnown atom = true) ∧ isPower last = true := by
  simp only [isAllowed, Bool.or_eq_true, List.contains_iff_mem]
  refine or_congr_right ?_
  rcases List.eq_nil_or_concat' (atoms (Macro.expand text.toList)) with
    hparts | ⟨front, last, hparts⟩
  · simp [hparts]
  · constructor
    · intro h
      simp only [hparts, List.getLast?_concat, List.dropLast_concat, Bool.and_eq_true,
        List.all_eq_true] at h
      exact ⟨front, last, hparts, h⟩
    · rintro ⟨front', last', hparts', h⟩
      simp only [hparts', List.getLast?_concat, List.dropLast_concat, Bool.and_eq_true,
        List.all_eq_true]
      exact h

/-- What is asked of the last one of some runs, in terms of where the runs stand. -/
theorem exists_last_iff {rs : List Run}
    (hrs : rs.Pairwise fun r s => r.before.length < s.before.length) :
    (∃ front last, rs.map Run.text = front ++ [last] ∧ (∀ atom ∈ front, isKnown atom = true) ∧
      isPower last = true) ↔
    (∃ r, r ∈ rs) ∧ ∀ r ∈ rs, Known r.text ∨
      KnownPower r.text ∧ ∀ s ∈ rs, s.before.length ≤ r.before.length := by
  rcases List.eq_nil_or_concat' rs with rfl | ⟨init, final, rfl⟩
  · simp
  · obtain ⟨-, -, hbelow⟩ := List.pairwise_append.mp hrs
    have hlt : ∀ r ∈ init, r.before.length < final.before.length :=
      fun r hr => hbelow r hr final List.mem_cons_self
    rw [List.map_append]
    constructor
    · rintro ⟨front, last, hsplit, hfront, hlast⟩
      obtain ⟨rfl, hfinal⟩ := List.append_inj' hsplit rfl
      obtain rfl : final.text = last := by simpa using hfinal
      refine ⟨⟨final, by simp⟩, ?_⟩
      intro r hr
      rcases List.mem_append.mp hr with hr | hr
      · exact .inl (isKnown_iff.mp (hfront _ (List.mem_map_of_mem hr)))
      · obtain rfl := List.mem_singleton.mp hr
        refine (isPower_iff.mp hlast).imp id fun hpower => ⟨hpower, ?_⟩
        intro s hs
        rcases List.mem_append.mp hs with hs | hs
        · exact Nat.le_of_lt (hlt s hs)
        · obtain rfl := List.mem_singleton.mp hs
          exact Nat.le_refl _
    · rintro ⟨-, hall⟩
      refine ⟨init.map Run.text, final.text, rfl, ?_, ?_⟩
      · intro atom hatom
        obtain ⟨r, hr, rfl⟩ := List.mem_map.mp hatom
        rcases hall r (List.mem_append_left _ hr) with hknown | ⟨-, hlast⟩
        · exact isKnown_iff.mpr hknown
        · exact absurd (hlast final (by simp)) (Nat.not_le.mpr (hlt r hr))
      · exact isPower_iff.mpr ((hall final (by simp)).imp id And.left)

/-- A text without macros is a unit if and only if it is one of the standalone ones, or runs remain
of it without its spaces, and they are known units, of which the last one may be raised to a
power. -/
theorem isAllowed_iff_remaining_runs (text : String) (h : '$' ∉ text.toList) :
    isAllowed text = true ↔ text ∈ standalone ∨
      let cs := text.toList.filter (· != ' ')
      (∃ r, Remains cs r) ∧ ∀ r, Remains cs r → Known r.text ∨
        KnownPower r.text ∧ ∀ s, Remains cs s → s.before.length ≤ r.before.length := by
  rw [isAllowed_iff, Macro.expand_eq_self h, atoms_eq]
  simp only [← mem_remaining_iff]
  exact or_congr_right (exists_last_iff (pairwise_remaining [] _))

/-- The theorem at a unit with spaces, two ones of quotients, and a power at the end. -/
theorem isAllowed_nested_quotient :
    let text := "1 / (1 / m m) k g ^ 2"
    let cs := text.toList.filter (· != ' ')
    '$' ∉ text.toList ∧ isAllowed text = true ∧
      (∃ r, Remains cs r) ∧ ∀ r, Remains cs r → Known r.text ∨
        KnownPower r.text ∧ ∀ s, Remains cs s → s.before.length ≤ r.before.length := by
  intro text cs
  have hdollar : '$' ∉ text.toList := by decide +kernel
  have hallowed : isAllowed text = true := by decide +kernel
  have hother : text ∉ standalone := by decide +kernel
  refine ⟨hdollar, hallowed, ?_⟩
  exact ((isAllowed_iff_remaining_runs text hdollar).mp hallowed).resolve_left hother

-- a second one in a row is an atom, and no unit
example : isAllowed "m/(1/1/s)" = false := by decide +kernel

end EpicsDb.EngineeringUnit
