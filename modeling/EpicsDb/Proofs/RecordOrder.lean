import EpicsDb.Proofs.LogTags
import EpicsDb.Proofs.Strictness

/-!
# The order of records

The first record of a database sets the rule for colons.  The others may stand in any order: if no
two records have the same name, a check finds as much whatever the order is, though some errors may
name other records.

* `byName_eq_of_perm` says that the records by name are the same, and so the groups.
* `perm_namingFindings` and `namingReport_warnings` are the two facts about names: the findings are
  the same up to their order, and those that may be warnings are about groups only.
* `perm_recordFindings` is for the rules that look at one record at a time.  The rule for logging
  tags looks at all records; `length_inconsistentLogTags` says that the number of its findings does
  not depend on the order.
* `check_ignores_record_order` puts them together.
-/

namespace EpicsDb

variable {db other : Database}

/-! ## Records by name and groups -/

/-- If names are not repeated, all records count. -/
theorem mem_byName_of_nodup {r : Record} (hnames : (db.records.map (·.name)).Nodup) :
    r ∈ db.byName ↔ r ∈ db.records := by
  rw [mem_byName_iff]
  constructor
  · intro h
    exact (mem_of_named? h).1
  · intro h
    obtain ⟨s, hs⟩ := exists_named? h
    obtain ⟨hmem, hname⟩ := mem_of_named? hs
    rwa [List.inj_on_of_nodup_map hnames hmem h hname] at hs

theorem nodup_byName (db : Database) : db.byName.Nodup := by
  refine (pairwise_byName db).imp ?_
  rintro r s hlt rfl
  exact lt_irrefl _ hlt

theorem byName_eq_of_perm (hperm : db.records.Perm other.records)
    (hnames : (db.records.map (·.name)).Nodup) : db.byName = other.byName := by
  have hothers : (other.records.map (·.name)).Nodup := (hperm.map _).nodup_iff.mp hnames
  have hmem : ∀ r, r ∈ db.byName ↔ r ∈ other.byName := by
    intro r
    rw [mem_byName_of_nodup hnames, mem_byName_of_nodup hothers, hperm.mem_iff]
  have hsame : db.byName.Perm other.byName :=
    (List.perm_ext_iff_of_nodup (nodup_byName db) (nodup_byName other)).mpr hmem
  refine hsame.eq_of_pairwise ?_ (pairwise_byName db) (pairwise_byName other)
  intro r s _ _ hrs hsr
  exact absurd hsr (lt_asymm hrs)

/-- The groups are made of the records by name. -/
theorem groups_eq_of_byName (h : db.byName = other.byName) : db.groups = other.groups := by
  rw [Database.groups, Database.groups, h]

/-! ## Findings about names -/

/-- With the same first record, colons are judged alike. -/
theorem perm_colonFindings (hperm : db.records.Perm other.records)
    (hfirst : db.records.head? = other.records.head?) :
    (Naming.colonFindings db).Perm (Naming.colonFindings other) := by
  cases hdb : db.records with
  | nil =>
    have hother : other.records = [] := by rw [hdb] at hperm; exact hperm.nil_eq.symm
    rw [Naming.colonFindings, Naming.colonFindings, hdb, hother]
  | cons first rest =>
    cases hother : other.records with
    | nil =>
      rw [hdb, hother] at hfirst
      simp at hfirst
    | cons first' rest' =>
      obtain rfl : first = first' := by simpa [hdb, hother] using hfirst
      rw [hdb, hother] at hperm
      simp only [Naming.colonFindings, hdb, hother]
      exact hperm.filterMap _

theorem perm_namingFindings (hperm : db.records.Perm other.records)
    (hfirst : db.records.head? = other.records.head?) (hbyName : db.byName = other.byName) :
    db.namingFindings.Perm other.namingFindings := by
  rw [Database.namingFindings, Database.namingFindings, groups_eq_of_byName hbyName, hbyName]
  exact (perm_colonFindings hperm hfirst).append_right _

/-- Only findings about groups can be warnings. -/
theorem namingReport_warnings (db : Database) (strict : Bool) :
    (db.namingReport strict).warnings =
      ((db.groups.flatMap (Naming.groupFindings db.byName)).filter
        (·.category.severity strict = .warning)).map (·.message) := by
  have hcolon : (Naming.colonFindings db).filter (·.category.severity strict = .warning) = [] := by
    rw [List.filter_eq_nil_iff]
    intro f hf
    rw [Naming.category_of_mem_colonFindings hf]
    simp [Category.severity]
  have hmessages := namingReport_messages db strict .warning
  rw [Database.namingFindings, List.filter_append, hcolon, List.nil_append] at hmessages
  exact hmessages

theorem length_namingReport_errors (hperm : db.records.Perm other.records)
    (hfirst : db.records.head? = other.records.head?) (hbyName : db.byName = other.byName)
    (strict : Bool) :
    (db.namingReport strict).errors.length = (other.namingReport strict).errors.length := by
  have hfindings := perm_namingFindings hperm hfirst hbyName
  have hmessages := ((hfindings.filter (·.category.severity strict = .error)).map (·.message))
  rw [← namingReport_messages, ← namingReport_messages] at hmessages
  exact hmessages.length_eq

/-! ## Findings about contents -/

namespace Content

/-- Names that are not repeated are not found. -/
theorem repeated_eq_nil {seen names : List String} (hnames : names.Nodup)
    (hseen : ∀ name ∈ names, name ∉ seen) : repeated seen names = [] := by
  induction names generalizing seen with
  | nil => rfl
  | cons name names ih =>
    obtain ⟨hname, hrest⟩ := List.nodup_cons.mp hnames
    have hfirst : seen.count name ≠ 1 := by
      rw [List.count_eq_zero_of_not_mem (hseen name List.mem_cons_self)]
      omega
    rw [repeated, if_neg hfirst]
    apply ih hrest
    intro later hlater hmem
    rcases List.mem_cons.mp hmem with rfl | hmem
    · exact hname hlater
    · exact hseen later (List.mem_cons_of_mem name hlater) hmem

theorem repeatedRecords_eq_nil (hnames : (db.records.map (·.name)).Nodup) :
    repeatedRecords db = [] := by
  rw [repeatedRecords, repeated_eq_nil hnames (by simp)]
  rfl

/-- The findings of the rules that look at one record at a time. -/
def recordFindings (db : Database) : List ContentFinding :=
  missingDescriptions db ++ invalidUnits db ++ longDescriptions db ++
    unrestrictedCalculations db ++ missingUnits db ++ repeatedFields db

theorem perm_recordFindings (hperm : db.records.Perm other.records) :
    (recordFindings db).Perm (recordFindings other) := by
  have hinterest : (interestRecords db).Perm (interestRecords other) := hperm.filter _
  have hdescriptions : (missingDescriptions db).Perm (missingDescriptions other) :=
    (hinterest.filter _).map _
  have hinvalid : (invalidUnits db).Perm (invalidUnits other) := hperm.filterMap _
  have hlong : (longDescriptions db).Perm (longDescriptions other) := (hperm.filter _).map _
  have haccess : (unrestrictedCalculations db).Perm (unrestrictedCalculations other) :=
    (hperm.filter _).map _
  have hunits : (missingUnits db).Perm (missingUnits other) := (hinterest.filter _).map _
  have hfields : (repeatedFields db).Perm (repeatedFields other) := hperm.filterMap _
  exact ((((hdescriptions.append hinvalid).append hlong).append haccess).append hunits).append
    hfields

theorem perm_logTags (hperm : db.records.Perm other.records) :
    (logTags db).Perm (logTags other) :=
  hperm.flatMap_right _

/-- The number of findings about logging tags does not depend on the order of the tags. -/
theorem length_inconsistentLogTags (hperm : db.records.Perm other.records) :
    (inconsistentLogTags db).length = (inconsistentLogTags other).length := by
  have htags : (logTags db).Perm (logTags other) := perm_logTags hperm
  have hfresh : freshTags [] (logTags db) = freshTags [] (logTags other) := by
    rw [freshTags, freshTags, List.toFinset_eq_of_perm _ _ (htags.map _)]
  have hrepeats := countP_repeatsTag [] false (logTags db)
  have hrepeats' := countP_repeatsTag [] false (logTags other)
  have hperiods := countP_changesPeriod [] false (logTags db)
  have hperiods' := countP_changesPeriod [] false (logTags other)
  have hlength : (logTags db).length = (logTags other).length := htags.length_eq
  rw [htags.countP_eq] at hperiods
  rw [inconsistentLogTags, inconsistentLogTags, length_logFindings, length_logFindings]
  omega

end Content

theorem contentReport_warnings_eq_nil (hnames : (db.records.map (·.name)).Nodup) :
    db.contentReport.warnings = [] := by
  simp [Database.contentReport, Database.contentWarnings, Content.repeatedRecords_eq_nil hnames]

theorem length_contentReport_errors (hperm : db.records.Perm other.records) :
    db.contentReport.errors.length = other.contentReport.errors.length := by
  have hsplit : ∀ db : Database, db.contentReport.errors.length =
      (Content.recordFindings db).length + (Content.inconsistentLogTags db).length := by
    intro db
    rw [← List.length_append]
    exact List.length_map _
  rw [hsplit, hsplit, (Content.perm_recordFindings hperm).length_eq,
    Content.length_inconsistentLogTags hperm]

/-! ## Whole checks -/

/-- Whether a report is clean, and whether it has errors, is told by the numbers of findings. -/
theorem Report.hasErrors_and_isClean_eq {r s : Report} (hwarnings : r.warnings = s.warnings)
    (herrors : r.errors.length = s.errors.length) :
    r.hasErrors = s.hasErrors ∧ r.isClean = s.isClean := by
  have hempty : r.errors.isEmpty = s.errors.isEmpty := by
    rw [Bool.eq_iff_iff, List.isEmpty_iff_length_eq_zero, List.isEmpty_iff_length_eq_zero, herrors]
  constructor
  · rw [hasErrors, hasErrors, hempty]
  · rw [isClean, isClean, hempty, hwarnings]

/-- Records without repeated names may stand in any order that keeps the first one: the groups and
the warnings are the same, and so is the number of errors. -/
theorem check_ignores_record_order (db other : Database) (config : Config)
    (hnames : (db.records.map (·.name)).Nodup) (hperm : db.records.Perm other.records)
    (hfirst : db.records.head? = other.records.head?) :
    db.groups = other.groups ∧
      (db.check config).warnings = (other.check config).warnings ∧
      (db.check config).errors.length = (other.check config).errors.length ∧
      (db.check config).hasErrors = (other.check config).hasErrors ∧
      (db.check config).isClean = (other.check config).isClean := by
  have hbyName : db.byName = other.byName := byName_eq_of_perm hperm hnames
  have hgroups : db.groups = other.groups := groups_eq_of_byName hbyName
  have hwarnings : (db.check config).warnings = (other.check config).warnings := by
    have hothers : (other.records.map (·.name)).Nodup := (hperm.map _).nodup_iff.mp hnames
    rw [check_warnings, check_warnings, namingReport_warnings, namingReport_warnings, hgroups,
      hbyName, contentReport_warnings_eq_nil hnames, contentReport_warnings_eq_nil hothers]
  have herrors : (db.check config).errors.length = (other.check config).errors.length := by
    have hnaming := length_namingReport_errors hperm hfirst hbyName config.strict
    have hcontent := length_contentReport_errors hperm
    rw [check_errors, check_errors, List.length_append, List.length_append]
    split_ifs <;> simp only [hnaming, hcontent]
  exact ⟨hgroups, hwarnings, herrors, Report.hasErrors_and_isClean_eq hwarnings herrors⟩

/-- The theorem at two records that set the same logging tag: the second of them is in error,
whichever it is, and so the two lists of errors are not equal. -/
theorem check_shared_log_tag :
    let first : Record := ⟨"ai", "P:A", [], [], []⟩
    let second : Record := ⟨"ai", "P:B", [], [⟨"log_header1", "b", false⟩], []⟩
    let third : Record := ⟨"ai", "p:c", [], [⟨"log_header1", "c", false⟩], []⟩
    let db : Database := ⟨"", [first, second, third]⟩
    let other : Database := ⟨"", [first, third, second]⟩
    ((db.records.map (·.name)).Nodup ∧ db.records.Perm other.records) ∧
      (db.check .default).errors ≠ (other.check .default).errors ∧
      (db.check .default).warnings ≠ [] ∧
      (db.check .default).warnings = (other.check .default).warnings ∧
      (db.check .default).errors.length = (other.check .default).errors.length := by
  intro first second third db other
  have hnames : (db.records.map (·.name)).Nodup := by decide +kernel
  have hperm : db.records.Perm other.records := (List.Perm.swap third second []).cons first
  obtain ⟨-, hwarnings, herrors, -⟩ :=
    check_ignores_record_order db other .default hnames hperm rfl
  exact ⟨⟨hnames, hperm⟩, by decide +kernel, by decide +kernel, hwarnings, herrors⟩

end EpicsDb
