import EpicsDb.Proofs.Strictness
import Mathlib.Algebra.GroupWithZero.Nat
import Mathlib.Data.List.Induction

/-!
# Files are checked in tasks

Each file is checked in a task of its own.  The tasks are started in the order of the arguments and
finish in any order; their results are collected in the order of the arguments again.  So nothing
that is reported depends on which task is the fastest, and lists of files can be checked apart.

* `Tallies` says what the summary of a list of files is, file by file.  `Tallies.append` adds up two
  lists, `Tallies.add` is the step for one more file and `Tallies.summarize` the run over all files.
* `runText` is all that a run prints, and `Summary.stdout_outcome` says that it is printed.
* `Pool` holds the tasks of a run.  `Pool.step` is what happens at one event, and `Pool.run` at any
  number of them.
* `Pool.Sound` and `Pool.outlook` are what an event keeps: finished tasks hold the results of their
  files, and the summary that the run is heading for stays the same.
* `Pool.remaining` counts the events that are still to come.  Each event takes one off, and a pool
  with events to come is never stuck.
* `summary_of_run` says that a run that has ended has the summary of its files, and
  `check_joins_file_lists` draws the conclusions.
-/

namespace EpicsDb

variable {read : FileReader} {config : Config}

/-! ## Summaries, file by file -/

/-- The reports on the files that have a database, with their paths. -/
def reportsOn (read : FileReader) (config : Config) (files : List String) :
    List (String × Report) :=
  files.filterMap fun path =>
    match Database.load read path with
    | .error _ => none
    | .ok db => some (path, db.check config)

/-- The files without a database, with the reasons. -/
def failuresOf (read : FileReader) (files : List String) : List String :=
  files.filterMap fun path =>
    match Database.load read path with
    | .error e => some (path ++ ": " ++ e.message)
    | .ok _ => none

theorem reportsOn_append (fs gs : List String) :
    reportsOn read config (fs ++ gs) = reportsOn read config fs ++ reportsOn read config gs :=
  List.filterMap_append

theorem failuresOf_append (fs gs : List String) :
    failuresOf read (fs ++ gs) = failuresOf read fs ++ failuresOf read gs :=
  List.filterMap_append

/-- The summary is what the files come to: each file with a database has a block and is counted with
its findings, and each other file is listed as failed. -/
structure Tallies (read : FileReader) (config : Config) (files : List String) (s : Summary) :
    Prop where
  printed : s.printed =
    String.join ((reportsOn read config files).map fun entry => fileBlock entry.1 entry.2)
  checked : s.checked = (reportsOn read config files).length
  errors : s.errors = ((reportsOn read config files).map (·.2.errors.length)).sum
  warnings : s.warnings = ((reportsOn read config files).map (·.2.warnings.length)).sum
  failed : s.failed = failuresOf read files

namespace Tallies

variable {path : String} {files fs gs : List String} {s t : Summary}

theorem empty : Tallies read config [] .empty :=
  ⟨rfl, rfl, rfl, rfl, rfl⟩

/-- A file without a database is only listed as failed. -/
theorem of_error {e : FileError} (he : Database.load read path = .error e) :
    Tallies read config [path] ⟨"", 0, 0, 0, [path ++ ": " ++ e.message]⟩ := by
  constructor <;> simp [reportsOn, failuresOf, he]

theorem of_ok {db : Database} (hdb : Database.load read path = .ok db) :
    Tallies read config [path]
      ⟨fileBlock path (db.check config), 1, (db.check config).errors.length,
        (db.check config).warnings.length, []⟩ := by
  constructor <;> simp [reportsOn, failuresOf, hdb]

theorem append (hs : Tallies read config fs s) (ht : Tallies read config gs t) :
    Tallies read config (fs ++ gs) ⟨s.printed ++ t.printed, s.checked + t.checked,
      s.errors + t.errors, s.warnings + t.warnings, s.failed ++ t.failed⟩ := by
  constructor
  · simp [hs.printed, ht.printed, reportsOn_append]
  · simp [hs.checked, ht.checked, reportsOn_append]
  · simp [hs.errors, ht.errors, reportsOn_append]
  · simp [hs.warnings, ht.warnings, reportsOn_append]
  · simp [hs.failed, ht.failed, failuresOf_append]

/-- One more file is tallied behind those before. -/
theorem add (h : Tallies read config files s) (path : String) :
    Tallies read config (files ++ [path]) (Summary.add read config s path) := by
  cases hload : Database.load read path with
  | error e =>
    rw [Summary.add_of_error hload]
    simpa using h.append (of_error hload)
  | ok db =>
    rw [Summary.add_of_ok hload]
    simpa using h.append (of_ok hload)

theorem summarize (read : FileReader) (config : Config) (files : List String) :
    Tallies read config files (summarize read config files) := by
  induction files using List.reverseRecOn with
  | nil => exact empty
  | append_singleton files path ih =>
    rw [EpicsDb.summarize, List.foldl_append]
    exact ih.add path

/-- What the files come to is one summary. -/
theorem unique (hs : Tallies read config files s) (ht : Tallies read config files t) : s = t := by
  obtain ⟨printed, checked, errors, warnings, failed⟩ := s
  obtain rfl : printed = t.printed := hs.printed.trans ht.printed.symm
  obtain rfl : checked = t.checked := hs.checked.trans ht.checked.symm
  obtain rfl : errors = t.errors := hs.errors.trans ht.errors.symm
  obtain rfl : warnings = t.warnings := hs.warnings.trans ht.warnings.symm
  obtain rfl : failed = t.failed := hs.failed.trans ht.failed.symm
  rfl

end Tallies

/-! ## What a run prints -/

theorem bulletList_eq_join (headline : String) (findings : List String) :
    bulletList headline findings =
      headline ++ String.join (findings.map fun finding => "\n   -> " ++ finding) := by
  induction findings generalizing headline with
  | nil => simp [bulletList]
  | cons finding findings ih =>
    have hlater : bulletList headline (finding :: findings) =
        bulletList (headline ++ "\n   -> " ++ finding) findings := rfl
    rw [hlater, ih]
    simp [String.append_assoc]

/-- The text of a run: the blocks of its files, the line with the three counts and, if there are
any, the files that failed. -/
def runText (blocks : String) (checked errors warnings : Nat) (failed : List String) : String :=
  blocks ++ toString checked ++ " files checked: " ++ toString errors ++ " errors, " ++
    toString warnings ++ " warnings\n" ++
    if failed = [] then ""
    else "Failed to parse the following files" ++
      String.join (failed.map fun finding => "\n   -> " ++ finding) ++ "\n"

theorem Summary.stdout_outcome (s : Summary) :
    s.outcome.stdout = runText s.printed s.checked s.errors s.warnings s.failed := by
  rw [Summary.outcome, Summary.closing, runText]
  simp [textLine, bulletList_eq_join, String.append_assoc]

/-! ## Tasks -/

/-- A task that checks a file. -/
structure FileTask where
  path : String
  /-- What the check has given, once the task has finished. -/
  result : Option (Except FileError Report)
  deriving DecidableEq

/-- The number of events that the task is still to see: it finishes, and its result is collected. -/
def FileTask.remaining (task : FileTask) : Nat :=
  if task.result.isNone then 2 else 1

theorem FileTask.remaining_pos (task : FileTask) : 0 < task.remaining := by
  unfold remaining
  split_ifs <;> decide

/-- The tasks of a run. -/
structure Pool where
  /-- The files whose tasks have not been started. -/
  waiting : List String
  /-- The tasks whose results have not been collected, in the order of the arguments. -/
  tasks : List FileTask
  /-- What has been collected. -/
  summary : Summary
  deriving DecidableEq

/-- What can happen in a run. -/
inductive Event
  /-- The task of the next file is started. -/
  | start
  /-- Of the tasks that have not been collected, the one with this index finishes. -/
  | finish (i : Nat)
  /-- The result of the first task is collected. -/
  | collect
  deriving DecidableEq, Repr

namespace Pool

/-- No task has been started. -/
def ofFiles (files : List String) : Pool :=
  ⟨files, [], .empty⟩

/-- All results have been collected. -/
def ended (s : Summary) : Pool :=
  ⟨[], [], s⟩

/-- The pool after an event, if the event can happen.  Results are collected once all tasks have
been started, and the first task has to finish before its result is collected. -/
def step (read : FileReader) (config : Config) (p : Pool) : Event → Option Pool
  | .start =>
    match p.waiting with
    | [] => none
    | path :: waiting => some { p with waiting := waiting, tasks := p.tasks ++ [⟨path, none⟩] }
  | .finish i =>
    match p.tasks[i]? with
    | some ⟨path, none⟩ =>
      some { p with tasks := p.tasks.set i ⟨path, some (checkFile read config path)⟩ }
    | _ => none
  | .collect =>
    match p.waiting, p.tasks with
    | [], ⟨path, some result⟩ :: tasks => some ⟨[], tasks, p.summary.collect path result⟩
    | _, _ => none

/-- The pool after events, if they can happen one after another. -/
def run (read : FileReader) (config : Config) (p : Pool) (events : List Event) : Option Pool :=
  events.foldlM (step read config) p

/-! ## One event -/

/-- Tasks that have finished hold the results of their files. -/
def Sound (read : FileReader) (config : Config) (p : Pool) : Prop :=
  ∀ task ∈ p.tasks, ∀ result, task.result = some result → result = checkFile read config task.path

/-- The files whose results have not been collected. -/
def files (p : Pool) : List String :=
  p.tasks.map (·.path) ++ p.waiting

/-- The summary that the run is heading for. -/
def outlook (read : FileReader) (config : Config) (p : Pool) : Summary :=
  p.files.foldl (Summary.add read config) p.summary

/-- The number of events that are still to come. -/
def remaining (p : Pool) : Nat :=
  3 * p.waiting.length + (p.tasks.map FileTask.remaining).sum

/-- What an event does. -/
inductive Happens (read : FileReader) (config : Config) : Pool → Pool → Prop where
  | start (path : String) (waiting : List String) (tasks : List FileTask) (s : Summary) :
      Happens read config ⟨path :: waiting, tasks, s⟩ ⟨waiting, tasks ++ [⟨path, none⟩], s⟩
  | finish (waiting : List String) (before : List FileTask) (path : String) (after : List FileTask)
      (s : Summary) :
      Happens read config ⟨waiting, before ++ ⟨path, none⟩ :: after, s⟩
        ⟨waiting, before ++ ⟨path, some (checkFile read config path)⟩ :: after, s⟩
  | collect (path : String) (result : Except FileError Report) (tasks : List FileTask) (s : Summary) :
      Happens read config ⟨[], ⟨path, some result⟩ :: tasks, s⟩ ⟨[], tasks, s.collect path result⟩

variable {p q : Pool} {event : Event}

theorem happens_of_step (h : p.step read config event = some q) : Happens read config p q := by
  obtain ⟨waiting, tasks, s⟩ := p
  cases event with
  | start =>
    cases waiting with
    | nil => simp [step] at h
    | cons path waiting =>
      obtain rfl := Option.some.inj h
      exact .start path waiting tasks s
  | finish i =>
    simp only [step] at h
    split at h
    · next path hi =>
      obtain rfl := Option.some.inj h
      obtain ⟨hlt, htask⟩ := List.getElem?_eq_some_iff.mp hi
      have hsplit : tasks = tasks.take i ++ ⟨path, none⟩ :: tasks.drop (i + 1) := by
        rw [← htask, ← List.drop_eq_getElem_cons hlt, List.take_append_drop]
      rw [List.set_eq_take_append_cons_drop, if_pos hlt]
      nth_rewrite 1 [hsplit]
      exact .finish waiting (tasks.take i) path (tasks.drop (i + 1)) s
    · simp at h
  | collect =>
    cases waiting with
    | cons path waiting => simp [step] at h
    | nil =>
      rcases tasks with _ | ⟨⟨path, _ | result⟩, tasks⟩
      · simp [step] at h
      · simp [step] at h
      · obtain rfl := Option.some.inj h
        exact .collect path result tasks s

theorem Happens.sound (h : Happens read config p q) (hp : p.Sound read config) :
    q.Sound read config := by
  cases h with
  | start path waiting tasks s =>
    intro task htask result hresult
    rcases List.mem_append.mp htask with htask | htask
    · exact hp task htask result hresult
    · rw [List.mem_singleton.mp htask] at hresult
      simp at hresult
  | finish waiting before path after s =>
    intro task htask result hresult
    rcases List.mem_append.mp htask with htask | htask
    · exact hp task (List.mem_append_left _ htask) result hresult
    · rcases List.mem_cons.mp htask with rfl | htask
      · exact (Option.some.inj hresult).symm
      · exact hp task (List.mem_append_right _ (List.mem_cons_of_mem _ htask)) result hresult
  | collect path result tasks s =>
    intro task htask
    exact hp task (List.mem_cons_of_mem _ htask)

/-- No event changes what the run is heading for. -/
theorem Happens.outlook (h : Happens read config p q) (hp : p.Sound read config) :
    q.outlook read config = p.outlook read config := by
  cases h with
  | start path waiting tasks s => simp [Pool.outlook, Pool.files]
  | finish waiting before path after s => simp [Pool.outlook, Pool.files]
  | collect path result tasks s =>
    obtain rfl : result = checkFile read config path := hp _ List.mem_cons_self result rfl
    simp [Pool.outlook, Pool.files, Summary.add]

theorem Happens.remaining (h : Happens read config p q) : q.remaining + 1 = p.remaining := by
  cases h with
  | start path waiting tasks s => simp [Pool.remaining, FileTask.remaining]; omega
  | finish waiting before path after s => simp [Pool.remaining, FileTask.remaining]; omega
  | collect path result tasks s => simp [Pool.remaining, FileTask.remaining]; omega

/-- A pool with events to come is not stuck. -/
theorem exists_step (read : FileReader) (config : Config) (hp : p.remaining ≠ 0) :
    ∃ event q, p.step read config event = some q := by
  obtain ⟨waiting, tasks, s⟩ := p
  cases waiting with
  | cons path waiting => exact ⟨.start, _, rfl⟩
  | nil =>
    rcases tasks with _ | ⟨⟨path, _ | result⟩, tasks⟩
    · simp [Pool.remaining] at hp
    · exact ⟨.finish 0, _, rfl⟩
    · exact ⟨.collect, _, rfl⟩

/-- A pool without events to come has ended. -/
theorem eq_ended (hp : p.remaining = 0) : p = ended p.summary := by
  obtain ⟨waiting, tasks, s⟩ := p
  cases waiting with
  | cons path waiting => simp [Pool.remaining] at hp
  | nil =>
    cases tasks with
    | nil => rfl
    | cons task tasks =>
      have hpos := task.remaining_pos
      simp only [Pool.remaining, List.map_cons, List.sum_cons] at hp
      omega

/-! ## Whole runs -/

theorem run_cons {events : List Event} :
    p.run read config (event :: events) = some q ↔
      ∃ next, p.step read config event = some next ∧ next.run read config events = some q := by
  rw [run, List.foldlM_cons]
  exact Option.bind_eq_some_iff

/-- Events keep the outlook of a pool, and each of them takes one off the events to come. -/
theorem run_keeps {events : List Event} (h : p.run read config events = some q)
    (hp : p.Sound read config) :
    q.outlook read config = p.outlook read config ∧ q.remaining + events.length = p.remaining := by
  induction events generalizing p with
  | nil =>
    obtain rfl : p = q := Option.some.inj h
    exact ⟨rfl, rfl⟩
  | cons event events ih =>
    obtain ⟨next, hstep, hrun⟩ := run_cons.mp h
    have hhappens := happens_of_step hstep
    obtain ⟨houtlook, hremaining⟩ := ih hrun (hhappens.sound hp)
    have hone := hhappens.remaining
    rw [List.length_cons]
    exact ⟨houtlook.trans (hhappens.outlook hp), by omega⟩

theorem sound_ofFiles (read : FileReader) (config : Config) (files : List String) :
    (ofFiles files).Sound read config := by
  intro task htask
  simp [ofFiles] at htask

/-- A run that has ended has the summary of its files, whatever the order of its events. -/
theorem summary_of_run {files : List String} {events : List Event} {s : Summary}
    (h : (ofFiles files).run read config events = some (ended s)) :
    s = summarize read config files :=
  (run_keeps h (sound_ofFiles read config files)).1

/-- No run goes on for more than three events for each file. -/
theorem length_le_of_run {files : List String} {events : List Event}
    (h : (ofFiles files).run read config events = some p) : events.length ≤ 3 * files.length := by
  obtain ⟨-, hremaining⟩ := run_keeps h (sound_ofFiles read config files)
  have hfirst : (ofFiles files).remaining = 3 * files.length := by simp [Pool.remaining, ofFiles]
  omega

/-- Every pool can be run to its end. -/
theorem exists_run (read : FileReader) (config : Config) (p : Pool) :
    ∃ events s, p.run read config events = some (ended s) := by
  induction hn : p.remaining generalizing p with
  | zero =>
    refine ⟨[], p.summary, ?_⟩
    rw [← eq_ended hn]
    rfl
  | succ n ih =>
    obtain ⟨event, next, hstep⟩ := exists_step read config (p := p) (by omega)
    have hone := (happens_of_step hstep).remaining
    obtain ⟨events, s, hrun⟩ := ih next (by omega)
    exact ⟨event :: events, s, run_cons.mpr ⟨next, hstep, hrun⟩⟩

end Pool

/-! ## Lists of files -/

/-- The tasks for the files can be run to their end, with the given summary. -/
def Finishes (read : FileReader) (config : Config) (files : List String) (s : Summary) : Prop :=
  ∃ events, (Pool.ofFiles files).run read config events = some (.ended s)

theorem Finishes.eq_summarize {files : List String} {s : Summary}
    (h : Finishes read config files s) : s = summarize read config files := by
  obtain ⟨events, hrun⟩ := h
  exact Pool.summary_of_run hrun

theorem Finishes.tallies {files : List String} {s : Summary} (h : Finishes read config files s) :
    Tallies read config files s :=
  h.eq_summarize ▸ Tallies.summarize read config files

theorem Finishes.perform_eq {flags : CheckFlags} {files : List String} {s : Summary}
    (h : Finishes read (flags.configure config) files s) :
    (flags.command files).perform read config = s.outcome := by
  rw [h.eq_summarize]
  rfl

/-- Two lists of files are checked together as they are checked apart, in whatever order the tasks
finish: the blocks and the failed files of the first list come before those of the second, and the
counts add up.  A file without a database is listed as failed and changes nothing else.  No run gets
stuck, and none goes on for ever. -/
theorem check_joins_file_lists (read : FileReader) (config : Config) (flags : CheckFlags)
    (fs gs : List String) (all first second : Summary)
    (hall : Finishes read (flags.configure config) (fs ++ gs) all)
    (hfirst : Finishes read (flags.configure config) fs first)
    (hsecond : Finishes read (flags.configure config) gs second) :
    ((flags.command (fs ++ gs)).perform read config = all.outcome ∧
      (flags.command fs).perform read config = first.outcome ∧
      (flags.command gs).perform read config = second.outcome) ∧
    (all.outcome.exit = 0 ↔ first.outcome.exit = 0 ∧ second.outcome.exit = 0) ∧
    (first.outcome.stdout =
        runText first.printed first.checked first.errors first.warnings first.failed ∧
      second.outcome.stdout =
        runText second.printed second.checked second.errors second.warnings second.failed ∧
      all.outcome.stdout =
        runText (first.printed ++ second.printed) (first.checked + second.checked)
          (first.errors + second.errors) (first.warnings + second.warnings)
          (first.failed ++ second.failed)) ∧
    (all.printed = first.printed ++ second.printed ∧
      all.checked = first.checked + second.checked ∧
      all.errors = first.errors + second.errors ∧
      all.warnings = first.warnings + second.warnings ∧
      all.failed = first.failed ++ second.failed) ∧
    (Tallies read (flags.configure config) fs first ∧
      Tallies read (flags.configure config) gs second) ∧
    (∀ path e whole, Database.load read path = .error e →
      Finishes read (flags.configure config) (fs ++ path :: gs) whole →
      whole = { all with failed := first.failed ++ (path ++ ": " ++ e.message) :: second.failed }) ∧
    ∀ files events p, (Pool.ofFiles files).run read (flags.configure config) events = some p →
      events.length ≤ 3 * files.length ∧
        ∃ later s, p.run read (flags.configure config) later = some (.ended s) := by
  have happend : all = ⟨first.printed ++ second.printed, first.checked + second.checked,
      first.errors + second.errors, first.warnings + second.warnings,
      first.failed ++ second.failed⟩ := hall.tallies.unique (hfirst.tallies.append hsecond.tallies)
  refine ⟨⟨hall.perform_eq, hfirst.perform_eq, hsecond.perform_eq⟩, ?_, ⟨first.stdout_outcome,
    second.stdout_outcome, ?_⟩, ?_, ⟨hfirst.tallies, hsecond.tallies⟩, ?_, ?_⟩
  · rw [Summary.exit_eq_zero_iff, Summary.exit_eq_zero_iff, Summary.exit_eq_zero_iff, happend]
    simp only [Nat.add_eq_zero_iff, List.append_eq_nil_iff]
    exact and_and_and_comm
  · rw [Summary.stdout_outcome, happend]
  · rw [happend]
    exact ⟨rfl, rfl, rfl, rfl, rfl⟩
  · intro path e whole he hwhole
    have hinserted := hfirst.tallies.append ((Tallies.of_error he).append hsecond.tallies)
    rw [hwhole.tallies.unique hinserted, happend]
    simp
  · intro files events p hrun
    exact ⟨Pool.length_le_of_run hrun, Pool.exists_run read (flags.configure config) p⟩

/-- The theorem at a file that is no database between two that are, with the task of the last file
the first one to finish. -/
theorem check_last_task_first :
    let d : Directory := ⟨[("a.db", .file "record(ai, A)".toUTF8),
      ("b.db", .file "record(ai".toUTF8),
      ("c.db", .file "record(ai, c) record(ai, \"$(P):C\")".toUTF8)]⟩
    let flags : CheckFlags := ⟨false, false, false⟩
    let all := summarize d.read (flags.configure .default) ["a.db", "b.db", "c.db"]
    let first := summarize d.read (flags.configure .default) ["a.db", "b.db"]
    let second := summarize d.read (flags.configure .default) ["c.db"]
    Finishes d.read (flags.configure .default) (["a.db", "b.db"] ++ ["c.db"]) all ∧
      (flags.command ["a.db", "b.db", "c.db"]).perform d.read .default = all.outcome ∧
      all.outcome.exit = 1 ∧
      all.outcome.stdout = runText (first.printed ++ second.printed)
        (first.checked + second.checked) (first.errors + second.errors)
        (first.warnings + second.warnings) (first.failed ++ second.failed) ∧
      all.outcome.stdout = "Checking a.db\n✅ a.db passed (0 warnings)\n" ++
        "Checking c.db\nWarning\n   -> CASING ERROR: c should be upper-case\n" ++
        "Error\n   -> FORMAT ERROR: $(P):C should not have a colon after the macro\n" ++
        "❌ c.db failed (1 errors, 1 warnings)\n2 files checked: 1 errors, 1 warnings\n" ++
        "Failed to parse the following files\n   -> b.db: Unexpected token " ++
        "'EOF (contents=)' encountered at 1:9: Expected 'COMMA'.\n" := by
  intro d flags all first second
  have hall : Finishes d.read (flags.configure .default) (["a.db", "b.db"] ++ ["c.db"]) all :=
    ⟨[.start, .start, .start, .finish 2, .finish 0, .collect, .finish 0, .collect, .collect],
      by decide +kernel⟩
  have hfirst : Finishes d.read (flags.configure .default) ["a.db", "b.db"] first :=
    ⟨[.start, .finish 0, .start, .finish 1, .collect, .collect], by decide +kernel⟩
  have hsecond : Finishes d.read (flags.configure .default) ["c.db"] second :=
    ⟨[.start, .finish 0, .collect], by decide +kernel⟩
  obtain ⟨⟨hperform, -⟩, -, ⟨-, -, hstdout⟩, -⟩ := check_joins_file_lists d.read .default flags
    ["a.db", "b.db"] ["c.db"] all first second hall hfirst hsecond
  exact ⟨hall, hperform, by decide +kernel, hstdout, by decide +kernel⟩

end EpicsDb
