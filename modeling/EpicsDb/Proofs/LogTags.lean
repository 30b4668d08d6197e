import EpicsDb.Content.Rules
import Mathlib.Data.Finset.Card
import Mathlib.Data.List.DropRight

/-!
# How many findings logging tags give, and about which entries

The rule for logging tags goes through the tags of a file with the tags before in mind.  How many
findings it gives depends on which tags there are and how often, and not on their order: all but the
first occurrence of a tag are found as repeated, and all but the first tag that sets the logging
period as changing it.

* `freshTags` counts the tags that have not been given before; `freshTags_cons` is its step.
* `countP_repeatsTag` and `countP_changesPeriod` count the two kinds of findings by induction along
  the tags, and `length_logFindings` puts them together.
* `entryTag`, `logEntries` and `SetsPeriod` say which entries are about logging, apart from the
  rule; `logTags_eq_map` and `isPeriodTag_iff` say that the rule takes the same ones.
* `entryFindings` says what is to be found about an info entry, from the entries before it alone.
  `Remembers` is the invariant of the rule: `Remembers.concat` and `Remembers.logFindings_cons` are
  its step, and `logFindings_eq_flatten` is the run.
-/

namespace EpicsDb.Content

/-- Whether a finding is about a repeated logging tag. -/
def repeatsTag : ContentFinding → Bool
  | .repeatedLogTag _ _ => true
  | _ => false

/-- Whether a finding is about the logging period. -/
def changesPeriod : ContentFinding → Bool
  | .logPeriodChanged _ => true
  | _ => false

/-- How many different tags there are that have not been given before. -/
def freshTags (seen : List String) (tags : List (String × String)) : Nat :=
  ((tags.map (·.2)).toFinset \ seen.toFinset).card

theorem freshTags_cons (seen : List String) (record tag : String) (tags : List (String × String)) :
    freshTags seen ((record, tag) :: tags) =
      (if tag ∈ seen then 0 else 1) + freshTags (tag :: seen) tags := by
  simp only [freshTags, List.map_cons, List.toFinset_cons]
  split_ifs with hseen
  · have hmem : tag ∈ seen.toFinset := List.mem_toFinset.mpr hseen
    rw [Finset.insert_eq_of_mem hmem, Finset.insert_sdiff_of_mem _ hmem, Nat.zero_add]
  · have hnot : tag ∉ seen.toFinset := fun h => hseen (List.mem_toFinset.mp h)
    have hnew : tag ∉ (tags.map (·.2)).toFinset \ insert tag seen.toFinset := by simp
    have hsplit : insert tag (tags.map (·.2)).toFinset \ seen.toFinset =
        insert tag ((tags.map (·.2)).toFinset \ insert tag seen.toFinset) := by
      ext other
      by_cases hother : other = tag
      · simp only [hother, hnot, Finset.mem_sdiff, Finset.mem_insert_self, not_false_eq_true,
          and_self]
      · simp only [hother, Finset.mem_sdiff, Finset.mem_insert, false_or]
    rw [hsplit, Finset.card_insert_of_notMem hnew, Nat.add_comm]

/-- Every tag is found as repeated unless it is fresh. -/
theorem countP_repeatsTag (seen : List String) (periodSet : Bool) (tags : List (String × String)) :
    (logFindings seen periodSet tags).countP repeatsTag + freshTags seen tags = tags.length := by
  induction tags generalizing seen periodSet with
  | nil => simp [logFindings, freshTags]
  | cons pair tags ih =>
    obtain ⟨record, tag⟩ := pair
    have hlater := ih (tag :: seen) (periodSet || isPeriodTag tag)
    have hperiod : (if isPeriodTag tag && periodSet then [ContentFinding.logPeriodChanged record]
        else []).countP repeatsTag = 0 := by
      split_ifs <;> rfl
    have hrepeat : (if seen.contains tag then [ContentFinding.repeatedLogTag record tag]
        else []).countP repeatsTag = if tag ∈ seen then 1 else 0 := by
      simp only [List.contains_iff_mem]
      split_ifs <;> rfl
    rw [logFindings, List.countP_append, List.countP_append, hperiod, hrepeat, freshTags_cons,
      List.length_cons]
    split_ifs <;> omega

/-- Every tag that sets the logging period is found as changing it, unless it is the first one. -/
theorem countP_changesPeriod (seen : List String) (periodSet : Bool)
    (tags : List (String × String)) :
    (logFindings seen periodSet tags).countP changesPeriod =
      tags.countP (isPeriodTag ·.2) - if periodSet then 0 else 1 := by
  induction tags generalizing seen periodSet with
  | nil => simp [logFindings]
  | cons pair tags ih =>
    obtain ⟨record, tag⟩ := pair
    have hlater := ih (tag :: seen) (periodSet || isPeriodTag tag)
    have hrepeat : (if seen.contains tag then [ContentFinding.repeatedLogTag record tag]
        else []).countP changesPeriod = 0 := by
      split_ifs <;> rfl
    rw [logFindings, List.countP_append, List.countP_append, hrepeat, hlater, List.countP_cons]
    cases hperiod : isPeriodTag tag with
    | false => simp
    | true =>
      cases periodSet with
      | false => simp
      | true => simp [changesPeriod, Nat.add_comm]

theorem length_logFindings (seen : List String) (periodSet : Bool)
    (tags : List (String × String)) :
    (logFindings seen periodSet tags).length =
      (logFindings seen periodSet tags).countP repeatsTag +
        (logFindings seen periodSet tags).countP changesPeriod := by
  induction tags generalizing seen periodSet with
  | nil => rfl
  | cons pair tags ih =>
    obtain ⟨record, tag⟩ := pair
    have hlater := ih (tag :: seen) (periodSet || isPeriodTag tag)
    rw [logFindings]
    simp only [List.length_append, List.countP_append, hlater]
    split_ifs <;> simp [repeatsTag, changesPeriod] <;> omega

/-! ## Which entry a finding is about -/

/-- The tag of an info entry that is given with its record: the name of the entry in small letters,
without the double quotes before and behind it. -/
def entryTag (entry : Record × Field) : String :=
  String.ofList (((Text.lower entry.2.name.toList).dropWhile (· = '"')).rdropWhile (· = '"'))

/-- The info entries whose tags start with `log`, each with its record. -/
def logEntries (db : Database) : List (Record × Field) :=
  (db.records.flatMap fun r => r.infos.map fun info => (r, info)).filter
    fun entry => "log".toList <+: (entryTag entry).toList

/-- The tag is one of the two that set the logging period. -/
def SetsPeriod (tag : String) : Prop :=
  tag = "log_period_seconds" ∨ tag = "log_period_pv"

instance : DecidablePred SetsPeriod :=
  fun tag => inferInstanceAs (Decidable (tag = "log_period_seconds" ∨ tag = "log_period_pv"))

theorem isPeriodTag_iff {tag : String} : isPeriodTag tag = true ↔ SetsPeriod tag := by
  simp [isPeriodTag, SetsPeriod]

theorem isLogTag_tagOf (entry : Record × Field) :
    isLogTag (tagOf entry.2.name) = decide ("log".toList <+: (entryTag entry).toList) := by
  rw [isLogTag, Bool.eq_iff_iff, List.isPrefixOf_iff_prefix, decide_eq_true_iff]
  rfl

/-- The rule goes through the tags of the entries about logging. -/
theorem logTags_eq_map (db : Database) :
    logTags db = (logEntries db).map fun entry => (entry.1.name, entryTag entry) := by
  simp only [logTags, logEntries, ← isLogTag_tagOf, List.filter_flatMap, List.map_flatMap,
    List.filter_map, List.map_map]
  rfl

theorem logTags_map_snd (db : Database) : (logTags db).map (·.2) = (logEntries db).map entryTag := by
  rw [logTags_eq_map, List.map_map]
  rfl

/-- What is found about an entry, told by the entries before it. -/
def entryFindings (earlier : List (Record × Field)) (entry : Record × Field) :
    List ContentFinding :=
  (if entryTag entry ∈ earlier.map entryTag then
    [.repeatedLogTag entry.1.name (entryTag entry)] else []) ++
  (if SetsPeriod (entryTag entry) ∧ ∃ other ∈ earlier, SetsPeriod (entryTag other) then
    [.logPeriodChanged entry.1.name] else [])

/-- What is reported about an entry. -/
def entryMessages (earlier : List (Record × Field)) (entry : Record × Field) : List String :=
  (if entryTag entry ∈ earlier.map entryTag then
    ["Invalid logging config: " ++ entry.1.name ++ " repeats the log info tag " ++ entryTag entry]
    else []) ++
  (if SetsPeriod (entryTag entry) ∧ ∃ other ∈ earlier, SetsPeriod (entryTag other) then
    ["Invalid logging config: " ++ entry.1.name ++ " alters the logging period type"] else [])

theorem map_message_entryFindings (earlier : List (Record × Field)) (entry : Record × Field) :
    (entryFindings earlier entry).map (·.message) = entryMessages earlier entry := by
  rw [entryFindings, entryMessages]
  split_ifs <;> rfl

/-- The rule has in mind what it needs to know of the entries before. -/
structure Remembers (earlier : List (Record × Field)) (seen : List String) (periodSet : Bool) :
    Prop where
  tags : ∀ tag, tag ∈ seen ↔ tag ∈ earlier.map entryTag
  period : periodSet = true ↔ ∃ other ∈ earlier, SetsPeriod (entryTag other)

theorem remembers_nil : Remembers [] [] false :=
  ⟨by simp, by simp⟩

section Step

variable {earlier : List (Record × Field)} {seen : List String} {periodSet : Bool}
  (h : Remembers earlier seen periodSet) (entry : Record × Field)

include h

theorem Remembers.concat :
    Remembers (earlier ++ [entry]) (entryTag entry :: seen)
      (periodSet || isPeriodTag (entryTag entry)) := by
  constructor
  · intro tag
    rw [List.mem_cons, h.tags, List.map_append, List.mem_append, or_comm]
    simp
  · rw [Bool.or_eq_true, h.period, isPeriodTag_iff]
    constructor
    · rintro (⟨other, hother, hperiod⟩ | hperiod)
      · exact ⟨other, List.mem_append_left _ hother, hperiod⟩
      · exact ⟨entry, List.mem_append_right _ (List.mem_singleton_self entry), hperiod⟩
    · rintro ⟨other, hother, hperiod⟩
      rcases List.mem_append.mp hother with hother | hother
      · exact .inl ⟨other, hother, hperiod⟩
      · obtain rfl := List.mem_singleton.mp hother
        exact .inr hperiod

/-- The rule finds what is to be found about the next entry. -/
theorem Remembers.logFindings_cons (tags : List (String × String)) :
    logFindings seen periodSet ((entry.1.name, entryTag entry) :: tags) =
      entryFindings earlier entry ++
        logFindings (entryTag entry :: seen) (periodSet || isPeriodTag (entryTag entry)) tags := by
  rw [logFindings, entryFindings]
  simp only [List.contains_iff_mem, h.tags, Bool.and_eq_true, isPeriodTag_iff, h.period]

end Step

/-- The rule goes through the entries and finds, about each, what the entries before it tell. -/
theorem logFindings_eq_flatten (earlier entries : List (Record × Field)) {seen : List String}
    {periodSet : Bool} (h : Remembers earlier seen periodSet) :
    logFindings seen periodSet (entries.map fun entry => (entry.1.name, entryTag entry)) =
      (entries.mapIdx fun i entry => entryFindings (earlier ++ entries.take i) entry).flatten := by
  induction entries generalizing earlier seen periodSet with
  | nil => rfl
  | cons entry entries ih =>
    rw [List.map_cons, h.logFindings_cons, ih _ (h.concat entry), List.mapIdx_cons,
      List.flatten_cons]
    simp

/-! ## Whole files -/

theorem inconsistentLogTags_eq_flatten (db : Database) :
    inconsistentLogTags db =
      ((logEntries db).mapIdx fun i entry =>
        entryFindings ((logEntries db).take i) entry).flatten := by
  rw [inconsistentLogTags, logTags_eq_map]
  exact logFindings_eq_flatten [] (logEntries db) remembers_nil

theorem countP_repeatsTag_add_card (db : Database) :
    (inconsistentLogTags db).countP repeatsTag + ((logEntries db).map entryTag).toFinset.card =
      ((logEntries db).map entryTag).length := by
  have hcount := countP_repeatsTag [] false (logTags db)
  have hfresh : freshTags [] (logTags db) = ((logEntries db).map entryTag).toFinset.card := by
    rw [freshTags, logTags_map_snd, List.toFinset_nil, Finset.sdiff_empty]
  have hlength : (logTags db).length = ((logEntries db).map entryTag).length := by
    rw [← logTags_map_snd, List.length_map]
  rw [hfresh, hlength] at hcount
  exact hcount

theorem countP_changesPeriod_eq (db : Database) :
    (inconsistentLogTags db).countP changesPeriod =
      ((logEntries db).map entryTag).countP isPeriodTag - 1 := by
  have hcount := countP_changesPeriod [] false (logTags db)
  rw [← logTags_map_snd, List.countP_map]
  exact hcount

/-- The findings about logging tags, entry by entry and in numbers.  Each occurrence of a tag but the
first is found as repeated, each tag but the first that sets the logging period as changing it, and
the finding names the record of that occurrence. -/
theorem inconsistentLogTags_entry_by_entry (db : Database) :
    let entries := logEntries db
    let tags := entries.map entryTag
    let periods := tags.countP fun tag => tag = "log_period_seconds" ∨ tag = "log_period_pv"
    let findings := inconsistentLogTags db
    findings = (entries.mapIdx fun i entry => entryFindings (entries.take i) entry).flatten ∧
      findings.map (·.message) =
        (entries.mapIdx fun i entry => entryMessages (entries.take i) entry).flatten ∧
      findings.countP repeatsTag = tags.length - tags.toFinset.card ∧
      findings.countP changesPeriod = periods - 1 ∧
      (findings = [] ↔ tags.Nodup ∧ periods ≤ 1) := by
  intro entries tags periods findings
  have hperiods : tags.countP isPeriodTag = periods := by
    apply List.countP_congr
    intro tag _
    rw [isPeriodTag_iff, decide_eq_true_iff]
    rfl
  have hrepeats : findings.countP repeatsTag + tags.toFinset.card = tags.length :=
    countP_repeatsTag_add_card db
  have hchanges : findings.countP changesPeriod = periods - 1 := by
    rw [← hperiods]
    exact countP_changesPeriod_eq db
  have hlength : findings.length = findings.countP repeatsTag + findings.countP changesPeriod :=
    length_logFindings [] false (logTags db)
  have hdifferent : tags.toFinset.card = tags.length ↔ tags.Nodup :=
    Multiset.toFinset_card_eq_card_iff_nodup (m := Multiset.ofList tags)
  have hflatten : findings =
      (entries.mapIdx fun i entry => entryFindings (entries.take i) entry).flatten :=
    inconsistentLogTags_eq_flatten db
  refine ⟨hflatten, ?_, by omega, hchanges, ?_⟩
  · rw [hflatten, List.map_flatten]
    simp only [List.mapIdx_eq_zipIdx_map, List.map_map, Function.comp_def,
      map_message_entryFindings]
  · rw [← List.length_eq_zero_iff, ← hdifferent]
    omega

/-- Case and quotes do not count, so that the second entry repeats the first one and changes the
period.  Another tag only changes it, and a tag that does not start with `log` is none of these. -/
example :
    let entry (name : String) : Field := ⟨name, "", false⟩
    let db : Database := ⟨"", [⟨"ai", "A", [], [entry "Log_Period_PV", entry "archive"], []⟩,
      ⟨"ai", "B", [], [entry "\"log_period_pv\"\"", entry "a_log"], []⟩,
      ⟨"ai", "C", [], [entry "\"LOG_PERIOD_SECONDS"], []⟩]⟩
    (logEntries db).map entryTag = ["log_period_pv", "log_period_pv", "log_period_seconds"] ∧
      inconsistentLogTags db =
        [.repeatedLogTag "B" "log_period_pv", .logPeriodChanged "B", .logPeriodChanged "C"] := by
  decide +kernel

end EpicsDb.Content
