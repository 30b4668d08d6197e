import EpicsDb.CommandLine.Outcome
import EpicsDb.Proofs.NameFindings

/-!
# Strictness and the flags of a check

A strict check finds what a tolerant one finds, and only counts small letters as errors.  So a check
that asks for less never fails where one that asks for more passes.

* `namingReport_messages` says which findings about names a report lists under a severity, and
  `strict_reclassifies` compares the two reports on one database.
* `Config.Milder` orders configurations by how much they ask for.  `errors_eq_nil_of_milder` is the
  step for one database, `length_check_add` counts its findings.
* `Summary.NoWorse` and `Summary.SameTotal` relate the summaries of two runs over the same files;
  they hold at the start, one more file keeps them, and so do any number of files.
* `check_monotone_in_flags` is the result for whole runs of the program.
-/

namespace EpicsDb

variable {db : Database}

/-! ## Strict reports -/

/-- A report lists the findings of a severity in the order in which they were found. -/
theorem namingReport_messages (db : Database) (strict : Bool) (severity : Severity) :
    (db.namingReport strict).messages severity =
      (db.namingFindings.filter (·.category.severity strict = severity)).map (·.message) := by
  rw [Database.namingReport, report_messages]
  cases severity <;> rfl

theorem Report.ext_messages {r s : Report}
    (h : ∀ severity, r.messages severity = s.messages severity) : r = s := by
  obtain ⟨warnings, errors⟩ := r
  obtain rfl : warnings = s.warnings := h .warning
  obtain rfl : errors = s.errors := h .error
  rfl

/-- A strict report has all findings among its errors. -/
theorem namingReport_true (db : Database) :
    db.namingReport true = ⟨[], db.namingFindings.map (·.message)⟩ := by
  have hstrict : ∀ c : Category, c.severity true = .error := by
    intro c
    cases c <;> rfl
  refine Report.ext_messages fun severity => ?_
  rw [namingReport_messages]
  cases severity <;> simp [Report.messages, hstrict]

/-- A tolerant report tells findings about small letters from the others. -/
theorem namingReport_false (db : Database) :
    db.namingReport false =
      ⟨(db.namingFindings.filter (·.category = .casing)).map (·.message),
        (db.namingFindings.filter (·.category ≠ .casing)).map (·.message)⟩ := by
  have hwarning : ∀ c : Category, c.severity false = .warning ↔ c = .casing := by
    intro c
    cases c <;> simp [Category.severity]
  have herror : ∀ c : Category, c.severity false = .error ↔ c ≠ .casing := by
    intro c
    cases c <;> simp [Category.severity]
  refine Report.ext_messages fun severity => ?_
  rw [namingReport_messages]
  cases severity <;> simp only [Report.messages, hwarning, herror]

/-- The message of a finding tells whether it is about small letters. -/
theorem casing_isPrefixOf_message (f : NamingFinding) :
    "CASING ERROR: ".toList.isPrefixOf f.message.toList = decide (f.category = .casing) := by
  have htitle : "CASING ERROR: " = Category.casing.title ++ ": " := by decide +kernel
  rw [Bool.eq_iff_iff, List.isPrefixOf_iff_prefix, htitle, prefix_message_iff, decide_eq_true_iff]

/-- A strict report has no warnings, and a tolerant one lists as warnings what it says about small
letters and as errors all the rest, each in the same order. -/
theorem strict_reclassifies (db : Database) :
    (db.namingReport true).warnings = [] ∧
      (db.namingReport false).warnings =
        (db.namingReport true).errors.filter ("CASING ERROR: ".toList.isPrefixOf ·.toList) ∧
      (db.namingReport false).errors =
        (db.namingReport true).errors.filter (!"CASING ERROR: ".toList.isPrefixOf ·.toList) := by
  rw [namingReport_true, namingReport_false]
  refine ⟨rfl, ?_, ?_⟩
  · simp only [List.filter_map, Function.comp_def, casing_isPrefixOf_message]
  · simp only [List.filter_map, Function.comp_def, casing_isPrefixOf_message, decide_not]

/-! ## One database -/

/-- The first configuration asks for no more than the second one. -/
structure Config.Milder (c d : Config) : Prop where
  strict : c.strict = true → d.strict = true
  names : c.names = true → d.names = true
  contents : c.contents = true → d.contents = true

theorem check_errors (db : Database) (config : Config) :
    (db.check config).errors =
      (if config.names then (db.namingReport config.strict).errors else []) ++
        if config.contents then db.contentReport.errors else [] := by
  unfold Database.check
  split_ifs <;> rfl

theorem check_warnings (db : Database) (config : Config) :
    (db.check config).warnings =
      (if config.names then (db.namingReport config.strict).warnings else []) ++
        if config.contents then db.contentReport.warnings else [] := by
  unfold Database.check
  split_ifs <;> rfl

/-- Where a strict check of names finds no errors, a tolerant one finds none. -/
theorem namingReport_errors_eq_nil {strict stricter : Bool}
    (hstrict : strict = true → stricter = true)
    (h : (db.namingReport stricter).errors = []) : (db.namingReport strict).errors = [] := by
  cases strict with
  | true => rwa [hstrict rfl] at h
  | false =>
    cases stricter with
    | false => exact h
    | true =>
      have hnone : db.namingFindings = [] := by simpa [namingReport_true] using h
      simp [namingReport_false, hnone]

/-- Where a check finds no errors, a milder one finds none. -/
theorem errors_eq_nil_of_milder {c d : Config} (h : c.Milder d)
    (hd : (db.check d).errors = []) : (db.check c).errors = [] := by
  rw [check_errors, List.append_eq_nil_iff] at hd ⊢
  obtain ⟨hnames, hcontents⟩ := hd
  constructor
  · split
    · next hc =>
      rw [if_pos (h.names hc)] at hnames
      exact namingReport_errors_eq_nil h.strict hnames
    · rfl
  · split
    · next hc => rwa [if_pos (h.contents hc)] at hcontents
    · rfl

/-- The findings about names are counted once, whatever their severity. -/
theorem length_namingReport_add (db : Database) (strict : Bool) :
    (db.namingReport strict).errors.length + (db.namingReport strict).warnings.length =
      db.namingFindings.length := by
  cases strict with
  | true => simp [namingReport_true]
  | false =>
    have hsplit := db.namingFindings.length_eq_length_filter_add (·.category = .casing)
    simp only [namingReport_false, List.length_map, ne_eq, decide_not] at hsplit ⊢
    omega

/-- Strictness does not change the number of findings. -/
theorem length_check_add {c d : Config} (hnames : c.names = d.names)
    (hcontents : c.contents = d.contents) (db : Database) :
    (db.check c).errors.length + (db.check c).warnings.length =
      (db.check d).errors.length + (db.check d).warnings.length := by
  have hc := length_namingReport_add db c.strict
  have hd := length_namingReport_add db d.strict
  simp only [check_errors, check_warnings, List.length_append, hnames, hcontents]
  split_ifs
  · omega
  · simp only [List.length_nil]
    omega
  · rfl
  · rfl

/-! ## Files one after another -/

section Summaries

variable {read : FileReader} {c d : Config} {s t : Summary}

/-- The first summary passes if the second one does, and lists the same files as failed. -/
structure Summary.NoWorse (s t : Summary) : Prop where
  failed : s.failed = t.failed
  errors : t.errors = 0 → s.errors = 0

/-- The summaries have the same number of findings and list the same files as failed. -/
structure Summary.SameTotal (s t : Summary) : Prop where
  failed : s.failed = t.failed
  total : s.errors + s.warnings = t.errors + t.warnings

theorem Summary.add_of_error {e : FileError} {path : String}
    (he : Database.load read path = .error e) :
    Summary.add read c s path = { s with failed := s.failed ++ [path ++ ": " ++ e.message] } := by
  rw [Summary.add, checkFile, he]
  rfl

theorem Summary.add_of_ok {db : Database} {path : String} (hdb : Database.load read path = .ok db) :
    Summary.add read c s path =
      ⟨s.printed ++ fileBlock path (db.check c), s.checked + 1,
        s.errors + (db.check c).errors.length, s.warnings + (db.check c).warnings.length,
        s.failed⟩ := by
  rw [Summary.add, checkFile, hdb]
  rfl

theorem Summary.NoWorse.add (h : s.NoWorse t) (hmild : c.Milder d) (path : String) :
    (Summary.add read c s path).NoWorse (Summary.add read d t path) := by
  cases hload : Database.load read path with
  | error e =>
    rw [add_of_error hload, add_of_error hload]
    exact ⟨by rw [h.failed], h.errors⟩
  | ok db =>
    rw [add_of_ok hload, add_of_ok hload]
    refine ⟨h.failed, ?_⟩
    intro hzero
    obtain ⟨ht, hdb⟩ : t.errors = 0 ∧ (db.check d).errors.length = 0 := Nat.add_eq_zero_iff.mp hzero
    have hnone : (db.check c).errors = [] :=
      errors_eq_nil_of_milder hmild (List.length_eq_zero_iff.mp hdb)
    change s.errors + (db.check c).errors.length = 0
    rw [h.errors ht, hnone]
    rfl

theorem Summary.SameTotal.add (h : s.SameTotal t) (hnames : c.names = d.names)
    (hcontents : c.contents = d.contents) (path : String) :
    (Summary.add read c s path).SameTotal (Summary.add read d t path) := by
  cases hload : Database.load read path with
  | error e =>
    rw [add_of_error hload, add_of_error hload]
    exact ⟨by rw [h.failed], h.total⟩
  | ok db =>
    rw [add_of_ok hload, add_of_ok hload]
    refine ⟨h.failed, ?_⟩
    have hfile := length_check_add hnames hcontents db
    have htotal := h.total
    dsimp only
    omega

theorem summarize_noWorse (hmild : c.Milder d) (files : List String) :
    (summarize read c files).NoWorse (summarize read d files) :=
  List.foldl_rel ⟨rfl, id⟩ fun path _ _ _ h => h.add hmild path

theorem summarize_sameTotal (hnames : c.names = d.names) (hcontents : c.contents = d.contents)
    (files : List String) :
    (summarize read c files).SameTotal (summarize read d files) :=
  List.foldl_rel ⟨rfl, rfl⟩ fun path _ _ _ h => h.add hnames hcontents path

theorem Summary.exit_eq_zero_iff (s : Summary) :
    s.outcome.exit = 0 ↔ s.errors = 0 ∧ s.failed = [] := by
  rw [Summary.outcome]
  dsimp only
  split
  · next hpassed => simpa [Summary.passed] using hpassed
  · next hpassed => simpa [Summary.passed] using hpassed

theorem exit_eq_zero_of_milder {files : List String} (hmild : c.Milder d)
    (h : (checkFiles read d files).exit = 0) : (checkFiles read c files).exit = 0 := by
  have hrun : (summarize read c files).NoWorse (summarize read d files) :=
    summarize_noWorse hmild files
  rw [checkFiles, Summary.exit_eq_zero_iff] at h ⊢
  exact ⟨hrun.errors h.1, hrun.failed.trans h.2⟩

end Summaries

/-! ## Whole runs -/

namespace CheckFlags

/-- The command with the flags. -/
def command (f : CheckFlags) (files : List String) : Command :=
  .check files f

/-- The first flags ask for no more than the second ones: they are strict only if those are, and
skip all that those skip. -/
structure Milder (f g : CheckFlags) : Prop where
  strict : f.strict = true → g.strict = true
  skipNames : g.skipNames = true → f.skipNames = true
  skipContents : g.skipContents = true → f.skipContents = true

theorem Milder.configure {f g : CheckFlags} (h : f.Milder g) (config : Config) :
    (f.configure config).Milder (g.configure config) := by
  have hskip : ∀ {x y : Bool}, (y = true → x = true) → (!x) = true → (!y) = true := by
    intro x y hyx hx
    cases y with
    | false => rfl
    | true => rwa [hyx rfl] at hx
  refine ⟨?_, ?_, ?_⟩
  · simp only [CheckFlags.configure, Bool.or_eq_true]
    exact Or.imp_right h.strict
  · simp only [CheckFlags.configure, Bool.and_eq_true]
    exact And.imp_right (hskip h.skipNames)
  · simp only [CheckFlags.configure, Bool.and_eq_true]
    exact And.imp_right (hskip h.skipContents)

end CheckFlags

/-- The configuration of a run: the one in the file that is given, or the default. -/
def givenConfig (read : FileReader) : Option String → Except ConfigError Config
  | none => .ok .default
  | some path => Config.load read path

section Runs

variable {read : FileReader} {path : Option String} {files arguments : List String}
  {f : CheckFlags} (h : parseArguments arguments = some (.run path (f.command files)))
include h

theorem runProgram_of_config {config : Config} (hconfig : givenConfig read path = .ok config) :
    runProgram read arguments = checkFiles read (f.configure config) files := by
  rw [runProgram, h]
  cases path with
  | none =>
    obtain rfl : Config.default = config := Except.ok.inj hconfig
    rfl
  | some path =>
    have hload : Config.load read path = .ok config := hconfig
    simp only [Request.perform, hload]
    rfl

/-- A run does not pass if its configuration cannot be loaded. -/
theorem exists_config_of_exit (hexit : (runProgram read arguments).exit = 0) :
    ∃ config, givenConfig read path = .ok config := by
  cases hconfig : givenConfig read path with
  | ok config => exact ⟨config, rfl⟩
  | error e =>
    cases path with
    | none => simp [givenConfig] at hconfig
    | some path =>
      have hload : Config.load read path = .error e := hconfig
      simp [runProgram, h, Request.perform, hload, brokenOff] at hexit

end Runs

/-- Of two runs over the same files under the same configuration, the one whose flags ask for less
passes if the other one does.  If the flags differ in strictness alone, the runs list the same files
as failed and count the same number of findings. -/
theorem check_monotone_in_flags (read : FileReader) (path : Option String) (files : List String)
    (f g : CheckFlags) (first second : List String)
    (hf : parseArguments first = some (.run path (f.command files)))
    (hg : parseArguments second = some (.run path (g.command files))) :
    (f.Milder g → (runProgram read second).exit = 0 → (runProgram read first).exit = 0) ∧
      ∀ config, givenConfig read path = .ok config →
        f.skipNames = g.skipNames → f.skipContents = g.skipContents →
        let s := summarize read (f.configure config) files
        let t := summarize read (g.configure config) files
        ((runProgram read first).stdout = s.printed ++ s.closing ∧
          (runProgram read second).stdout = t.printed ++ t.closing) ∧
        s.failed = t.failed ∧ s.errors + s.warnings = t.errors + t.warnings := by
  constructor
  · intro hmild hexit
    obtain ⟨config, hconfig⟩ := exists_config_of_exit hg hexit
    rw [runProgram_of_config hg hconfig] at hexit
    rw [runProgram_of_config hf hconfig]
    exact exit_eq_zero_of_milder (hmild.configure config) hexit
  · intro config hconfig hnames hcontents s t
    rw [runProgram_of_config hf hconfig, runProgram_of_config hg hconfig]
    have htotal : s.SameTotal t := by
      refine summarize_sameTotal ?_ ?_ files
      · simp only [CheckFlags.configure, hnames]
      · simp only [CheckFlags.configure, hcontents]
    exact ⟨⟨rfl, rfl⟩, htotal.failed, htotal.total⟩

/-- The theorem at a file that passes a strict check, and at a file with a small letter and one that
is missing, under a configuration that is kept in a file. -/
theorem check_monotone_small_letter :
    let d : Directory := ⟨[("a.db", .file "record(ai, A)".toUTF8),
      ("b.db", .file "record(ai, b)".toUTF8), ("c.json", .file "\x7b\"pv\": false\x7d".toUTF8)]⟩
    let tolerant : CheckFlags := ⟨false, false, false⟩
    let noContents : CheckFlags := ⟨false, false, true⟩
    let strict : CheckFlags := ⟨true, false, false⟩
    let config : Config := ⟨false, true, false, .default⟩
    let s := summarize d.read (tolerant.configure config) ["b.db", "e.db"]
    let t := summarize d.read (strict.configure config) ["b.db", "e.db"]
    ((runProgram d.read ["check", "--strict", "a.db"]).exit = 0 ∧ noContents.Milder strict ∧
      (runProgram d.read ["check", "--no-pv", "a.db"]).exit = 0) ∧
    (givenConfig d.read (some "c.json") = .ok config ∧
      (runProgram d.read ["-c", "c.json", "check", "b.db", "e.db"]).stdout =
        s.printed ++ s.closing ∧
      (runProgram d.read ["check", "b.db", "--strict", "--config=c.json", "e.db"]).stdout =
        t.printed ++ t.closing) ∧
    s.failed = t.failed ∧ s.errors + s.warnings = t.errors + t.warnings ∧ s.errors ≠ t.errors := by
  intro d tolerant noContents strict config s t
  have hexit : (runProgram d.read ["check", "--strict", "a.db"]).exit = 0 := by decide +kernel
  have hmild : noContents.Milder strict := ⟨fun _ => rfl, by simp [strict], by simp [strict]⟩
  obtain ⟨hpass, -⟩ := check_monotone_in_flags d.read none ["a.db"] noContents strict
    ["check", "--no-pv", "a.db"] ["check", "--strict", "a.db"]
    (by decide +kernel) (by decide +kernel)
  have hconfig : givenConfig d.read (some "c.json") = .ok config := by decide +kernel
  obtain ⟨-, htotal⟩ := check_monotone_in_flags d.read (some "c.json") ["b.db", "e.db"] tolerant
    strict ["-c", "c.json", "check", "b.db", "e.db"]
    ["check", "b.db", "--strict", "--config=c.json", "e.db"] (by decide +kernel) (by decide +kernel)
  obtain ⟨⟨hfirst, hsecond⟩, hfailed, hsum⟩ := htotal config hconfig rfl rfl
  exact ⟨⟨hexit, hmild, hpass hmild hexit⟩, ⟨hconfig, hfirst, hsecond⟩, hfailed, hsum,
    by decide +kernel⟩

end EpicsDb
