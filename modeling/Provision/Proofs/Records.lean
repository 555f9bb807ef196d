/-
**The log tells what was run.**

Whoever reads the log of a run gets back its commands: outside of a dry run those that were launched,
in a dry run those that the runner was called with.  Both are read off the log record by record, with
their directories, whatever their words are, and in the order in which they came.

Main definitions:

* `Provision.Bootstrap.Plan.calls`, `Provision.Bootstrap.Plan.callsOf` — the calls of the runner that
  one task makes in a dry run, and those of some tasks, up to the first that fails;
* `Provision.Bootstrap.callsOf` — the calls of a dry run.

Main results:

* `Provision.Bootstrap.Plan.calls_of_block` — the calls of a task are the commands that it launches
  outside of a dry run, but for the download of a distribution;
* `Provision.Bootstrap.Plan.announced_tasks` — **tasks in a dry run announce their calls**;
* `Provision.Bootstrap.log_of_setUp` — the records for commands are those that the work of a run wrote;
* `Provision.Bootstrap.traced_of_run`, `Provision.Bootstrap.announced_of_run` — the records of a run
  give back its launches, and those of a dry run its calls;
* `Provision.Bootstrap.records_tell_commands` — **messages and records tell their commands**.
-/

import Provision.Proofs.Forecasts
import Provision.Proofs.Layouts
import Provision.Proofs.Workspace

set_option relaxedAutoImplicit false
set_option autoImplicit false

namespace Provision

open Step

/-! ### The calls of a dry run -/

namespace Bootstrap.Plan

/-- **The calls of the runner that a task makes in a dry run**, when its turn comes on `m`. -/
def calls (p : Plan) (m : Machine) : Task → List Command
  | .toolchain _ | .link | .base => []
  | .tool tool skip => if skip || m.findExecutable tool.name then [] else tool.commands p.layout
  | .source => if m.sees (p.layout.repoDir p.config.sourceRepo) then [] else p.sourceCommands
  | .fork name =>
      if m.sees (p.layout.repoDir name) then p.refreshCommands name else p.forkCommands name

/-- The calls of the runner that some tasks make in a dry run, one after the other.  The first one
that fails ends the run, and it has called nothing. -/
def callsOf (p : Plan) : List Task → Machine → List Command
  | [], _ => []
  | t :: ts, m =>
      match (p.step t).perform m with
      | (.ok _, m') => p.calls m t ++ p.callsOf ts m'
      | (.error _, _) => []

variable {p : Plan} {m : Machine} {t : Task} {wanted : List Command}

/-- Outside of a dry run a task launches its calls, unless it puts a distribution in place. -/
theorem eq_calls_of_block (ht : ∀ version, t ≠ .toolchain version) (h : p.Block m t wanted) :
    wanted = p.calls m t := by
  cases t with
  | toolchain version => exact absurd rfl (ht version)
  | link => exact h
  | base => exact h
  | tool tool skip => exact h
  | source => exact h
  | fork name => exact h

/-- A task that puts a distribution in place launches a download, if anything. -/
theorem mem_block_toolchain {version : String} (h : p.Block m (.toolchain version) wanted)
    {c : Command} (hc : c ∈ wanted) : ∃ n, c = Toolchain.download version p.layout.root n := by
  simp only [Block] at h
  split at h
  · obtain ⟨n, rfl⟩ := h
    exact ⟨n, List.mem_singleton.1 hc⟩
  · rw [h] at hc
    simp at hc

/-- **The calls of a task are the commands that it launches outside of a dry run**, but for the
download of a distribution. -/
theorem calls_of_block (h : p.Block m t wanted) :
    wanted.filter (!·.isDownload) = p.calls m t := by
  by_cases ht : ∀ version, t ≠ .toolchain version
  · rw [← eq_calls_of_block ht h, List.filter_eq_self]
    intro c hc
    rw [isDownload_of_block ht h c hc]
    rfl
  · obtain ⟨version, rfl⟩ : ∃ version, t = .toolchain version := by simpa using ht
    refine List.filter_eq_nil_iff.2 fun c hc => ?_
    obtain ⟨n, rfl⟩ := mem_block_toolchain h hc
    simp [Toolchain.isDownload_download]

/-- Below a clean root the calls of a task have clean directories. -/
theorem clean_of_calls (hroot : p.layout.root.Clean) (m : Machine) (t : Task) :
    ∀ c ∈ p.calls m t, c.directory.Clean := by
  have hsources : ∀ s, ((p.layout.root.child "src").child s).Clean :=
    fun s => (hroot.child_text _).child_text _
  have hbase : p.layout.baseRepoPath.Clean := hsources _
  have hrepo : ∀ name, (p.layout.repoDir name).Clean := fun name => hbase.child_text _
  cases t with
  | toolchain version => simp [calls]
  | link => simp [calls]
  | base => simp [calls]
  | tool tool skip =>
      simp only [calls, Tool.commands]
      split <;> simp [hbase, hsources]
  | source =>
      simp only [calls, sourceCommands]
      split
      · simp
      · split <;> simp [hbase, hrepo]
  | fork name =>
      simp only [calls, refreshCommands, forkCommands]
      split <;> simp [hbase, hrepo]

/-- Below a clean root the commands of a task have clean directories. -/
theorem clean_of_block (hroot : p.layout.root.Clean) (h : p.Block m t wanted) :
    ∀ c ∈ wanted, c.directory.Clean := by
  intro c hc
  by_cases ht : ∀ version, t ≠ .toolchain version
  · rw [eq_calls_of_block ht h] at hc
    exact clean_of_calls hroot m t c hc
  · obtain ⟨version, rfl⟩ : ∃ version, t = .toolchain version := by simpa using ht
    obtain ⟨n, rfl⟩ := mem_block_toolchain h hc
    exact Path.clean_ofString _

/-- **The launches of a run have clean directories.** -/
theorem clean_of_launched (hroot : p.layout.root.Clean) (hdry : p.arguments.dryRun = false)
    {new : List Launch} (h : ((forM p.tasks p.step).perform m).2.launches = m.launches ++ new) :
    ∀ l ∈ new, l.command.directory.Clean := by
  intro l hl
  obtain ⟨wanted, hword, new', hnew⟩ := follows_tasks hdry p.tasks m
  obtain rfl : new' = new := List.append_cancel_left (hnew.continues.launches.symm.trans h)
  obtain ⟨t, -, m', block, hblock, hc⟩ :=
    exists_block_of_word hword (hnew.commands.subset (List.mem_map_of_mem hl))
  exact clean_of_block hroot hblock _ hc

theorem clean_of_callsOf (hroot : p.layout.root.Clean) (ts : List Task) (m : Machine) :
    ∀ c ∈ p.callsOf ts m, c.directory.Clean := by
  induction ts generalizing m with
  | nil => simp [callsOf]
  | cons t ts ih =>
      rw [callsOf]
      split
      · intro c hc
        exact (List.mem_append.1 hc).elim (clean_of_calls hroot m t c) (ih _ c)
      · simp

/-! ### Announcements -/

/-- What a task in a dry run announces, if its calls are what is foretold for it. -/
theorem announced_of_predicts {real : Step Unit} {forecasts : List Forecast}
    (h : Predicts p.layout.root (p.step t) real m forecasts)
    (hcalls : forecasts.filterMap Forecast.command? = p.calls m t) :
    (∃ e, (p.step t).perform m = (.error e, m)) ∨
      ∃ records, (p.step t).perform m = (.ok (), { m with log := m.log ++ records }) ∧
        records.filter (·.isAnnouncement) = (p.calls m t).map Command.announcement := by
  rcases h with ⟨e, hdry, -⟩ | ⟨u, records, hdry, hrecords, -⟩
  · exact Or.inl ⟨e, hdry⟩
  · refine Or.inr ⟨records, hdry, ?_⟩
    have hforecasts : ∀ r : Log.Record, (r.isAnnouncement && r.isForecast) = r.isAnnouncement := by
      intro r
      rw [Log.Record.isForecast]
      cases r.isAnnouncement <;> rfl
    have htwice : records.filter (·.isAnnouncement) =
        (records.filter (·.isForecast)).filter (·.isAnnouncement) := by
      simp only [List.filter_filter, hforecasts]
    rw [htwice, hrecords, Forecast.filter_isAnnouncement, hcalls]

variable (hdry : p.arguments.dryRun = true)
include hdry

/-- **A task in a dry run announces its calls**, unless it fails before. -/
theorem announced_step (t : Task) (m : Machine) :
    (∃ e, (p.step t).perform m = (.error e, m)) ∨
      ∃ records, (p.step t).perform m = (.ok (), { m with log := m.log ++ records }) ∧
        records.filter (·.isAnnouncement) = (p.calls m t).map Command.announcement := by
  have hrunner : p.runner = ⟨p.layout.baseRepoPath, true⟩ := by rw [Plan.runner, hdry]
  cases t with
  | toolchain version =>
      have h := (Toolchain.predicts_install p.layout.baseRepoPath version p.layout).bind_pure
        (m := m) fun _ => ()
      rw [← hrunner] at h
      refine announced_of_predicts h ?_
      unfold Toolchain.forecasts
      split <;> rfl
  | link =>
      have h := (Toolchain.predicts_linkDefault p.layout.root p.layout
        Rules.defaultGoVersion).bind_pure (m := m) fun _ => ()
      have hstep : p.step .link = Toolchain.linkDefault p.layout Rules.defaultGoVersion true >>=
          fun _ => pure () := by rw [step, hrunner]
      rw [← hstep] at h
      exact announced_of_predicts h rfl
  | base =>
      have h := (Repository.predicts_ensureBase p.layout.root p.layout).bind_pure (m := m) fun _ => ()
      rw [← hdry] at h
      exact announced_of_predicts (t := .base) h rfl
  | tool tool skip =>
      cases skip with
      | true =>
          have hskip : p.step (.tool tool true) =
              info ("Skipping " ++ tool.name ++ " installation") >>= fun _ => pure () := by
            simp [step, ensureTool]
          have h : Foretells p.layout.root (p.step (.tool tool true)) (pure ()) () [] := by
            rw [hskip]
            exact foretells_of_answers "Skipping " (by cbv) (by simp)
              (quiet_pure _).silent (answers_pure rfl)
          exact announced_of_predicts (h.predicts m) rfl
      | false =>
          have h := ((tool.predicts_ensure p.layout.root p.layout.baseRepoPath p.layout).bind_pure
            (m := m) some).bind_pure fun _ => ()
          rw [← hrunner] at h
          refine announced_of_predicts h ?_
          unfold Tool.forecasts
          simp only [calls, Bool.false_or]
          split <;> rfl
  | source =>
      have h := (Repository.predicts_cloneSource p.layout.root p.layout.baseRepoPath p.config p.layout
        p.arguments.skipGodep).bind_pure (m := m) fun _ => ()
      rw [← hrunner] at h
      refine announced_of_predicts h ?_
      unfold Repository.sourceForecasts
      simp only [calls, sourceCommands]
      split
      · rfl
      · split <;> rfl
  | fork name =>
      have h := (Repository.predicts_cloneFork p.layout.root p.layout.baseRepoPath p.config p.layout
        name p.environment).bind_pure (m := m) fun _ => ()
      rw [← hrunner] at h
      refine announced_of_predicts h ?_
      unfold Repository.forkForecasts
      simp only [calls]
      split <;> rfl

/-- **Tasks in a dry run announce their calls.** -/
theorem announced_tasks (ts : List Task) (m : Machine) :
    ∃ records, ((forM ts p.step).perform m).2 = { m with log := m.log ++ records } ∧
      records.filter (·.isAnnouncement) = (p.callsOf ts m).map Command.announcement := by
  induction ts generalizing m with
  | nil => exact ⟨[], by simp, rfl⟩
  | cons t ts ih =>
      rw [List.forM_cons, callsOf]
      rcases announced_step hdry t m with ⟨e, hfails⟩ | ⟨first, hstep, hfirst⟩
      · rw [perform_bind_error hfails, hfails]
        exact ⟨[], by simp, rfl⟩
      · obtain ⟨rest, htasks, hrest⟩ := ih { m with log := m.log ++ first }
        rw [perform_bind_ok hstep, hstep]
        refine ⟨first ++ rest, by rw [htasks, List.append_assoc], ?_⟩
        rw [List.filter_append, hfirst, hrest, List.map_append]

end Bootstrap.Plan

/-! ### The log of a run -/

namespace Bootstrap

/-- **The calls of the runner that a dry run makes**: none if it does not get to a plan, and else
those of its tasks. -/
def callsOf (a : Arguments) (m : Machine) : List Command :=
  match (prepare a).perform m with
  | (.ok p, m₁) => p.callsOf p.tasks m₁
  | (.error _, _) => []

/-- Concluding a run adds to its log nothing but an error. -/
theorem conclude_log (m : Machine) (r : Except Failure Unit) :
    ∃ records, (conclude m r).2 = m.log ++ records ∧ ∀ r ∈ records, r.isPlain = true := by
  have herror : ∀ message, ∀ r ∈ [(⟨.error, message⟩ : Log.Record)], r.isPlain = true := by
    intro message r hr
    rw [List.mem_singleton.1 hr]
    exact Log.Record.isPlain_error message
  unfold conclude
  split
  · exact ⟨[], by simp, by simp⟩
  · exact ⟨_, rfl, herror _⟩
  · split
    · exact ⟨_, rfl, herror _⟩
    · exact ⟨[], by simp, by simp⟩

/-- The records for commands in the log of a run are those that its work has written. -/
theorem log_of_setUp {words : List String} {a : Arguments} (hread : Arguments.read words = .run a)
    (m : Machine) :
    (run words m).2.log.filter (·.isTrace) =
        ((setUp a).perform { m with log := [] }).2.log.filter (·.isTrace) ∧
      (run words m).2.log.filter (·.isAnnouncement) =
        ((setUp a).perform { m with log := [] }).2.log.filter (·.isAnnouncement) := by
  obtain ⟨records, hlog, hplain⟩ := conclude_log ((setUp a).perform { m with log := [] }).2
    ((setUp a).perform { m with log := [] }).1
  obtain ⟨htraces, hannouncements⟩ := Log.Record.filter_of_plain hplain
  rw [run_machine hread]
  dsimp only
  rw [hlog, List.filter_append, List.filter_append, htraces, hannouncements, List.append_nil,
    List.append_nil]
  exact ⟨rfl, rfl⟩

/-- **The traces in the log of a run are for its launches.** -/
theorem traces_of_run {words : List String} {a : Arguments} (hread : Arguments.read words = .run a)
    (hdry : a.dryRun = false) (m : Machine) :
    (run words m).2.log.filter (·.isTrace) = (launchesOf words m).map (·.command.trace) := by
  obtain ⟨records, new, hlog, hlaunches, htraces⟩ := traced_setUp hdry { m with log := [] }
  have hnew : launchesOf words m = new := by
    rw [launchesOf, run_machine hread, hlaunches, List.drop_left]
  rw [(log_of_setUp hread m).1, hlog, hnew, List.nil_append, htraces]

/-- **The launches of a run have clean directories.** -/
theorem clean_of_run {words : List String} {a : Arguments} (hread : Arguments.read words = .run a)
    (hdry : a.dryRun = false) (m : Machine) :
    ∀ l ∈ launchesOf words m, l.command.directory.Clean := by
  have hlaunches := (continues_run hread hdry m).launches
  rcases hp : (prepare a).perform { m with log := [] } with ⟨e | p, m₁⟩
  -- without a plan nothing is launched
  · obtain ⟨records, hm₁⟩ := machine_of_prepare hp
    rw [run_machine hread, setUp, perform_bind_error hp, hm₁] at hlaunches
    have hnone : launchesOf words m = [] := by simpa using hlaunches
    simp [hnone]
  · have hplan : p.arguments.dryRun = false := by rw [(plan_of_prepare hp).1, hdry]
    obtain ⟨records, hm₁⟩ := machine_of_prepare hp
    obtain ⟨⟨records', htasks⟩, -⟩ := run_of_plan hread hp
    rw [htasks] at hlaunches
    refine Plan.clean_of_launched (m := m₁) (clean_root_of_prepare hp) hplan ?_
    rw [hm₁] at hlaunches ⊢
    exact hlaunches

/-- **The announcements in the log of a dry run are for its calls.** -/
theorem announcements_of_run {words : List String} {a : Arguments}
    (hread : Arguments.read words = .run a) (hdry : a.dryRun = true) (m : Machine) :
    (run words m).2.log.filter (·.isAnnouncement) =
      (callsOf a { m with log := [] }).map Command.announcement := by
  rw [(log_of_setUp hread m).2]
  obtain ⟨first, hfirst, hplain⟩ := writes_plain_prepare a { m with log := [] }
  have hnone := (Log.Record.filter_of_plain hplain).2
  rw [callsOf, setUp]
  rcases hp : (prepare a).perform { m with log := [] } with ⟨e | p, m₁⟩
  · rw [hp] at hfirst
    rw [perform_bind_error hp, hfirst, List.nil_append, hnone]
    rfl
  · rw [hp] at hfirst
    have hplan : p.arguments.dryRun = true := by rw [(plan_of_prepare hp).1, hdry]
    obtain ⟨records, htasks, hcalls⟩ := Plan.announced_tasks hplan p.tasks m₁
    have hcarry : ((carryOut p).perform m₁).2 = { m₁ with log := m₁.log ++ records } := by
      rw [← htasks, ← carryOut_eq_tasks, perform_bind_pure]
    obtain ⟨last, hlast, hplain'⟩ :=
      exists_writes_bind (s := carryOut p) (fun summary => summary.writes_report a.dryRun) m₁
    have hnone' := (Log.Record.filter_of_plain hplain').2
    rw [perform_bind_ok hp, hlast, hcarry]
    dsimp only
    rw [hfirst, List.nil_append, List.filter_append, List.filter_append, hnone, hnone', hcalls,
      List.nil_append, List.append_nil]

/-- The calls of a dry run have clean directories. -/
theorem clean_of_callsOf (a : Arguments) (m : Machine) :
    ∀ c ∈ callsOf a m, c.directory.Clean := by
  rw [callsOf]
  rcases hp : (prepare a).perform m with ⟨e | p, m₁⟩
  · simp
  · exact Plan.clean_of_callsOf (clean_root_of_prepare hp) p.tasks m₁

/-- **The log of a run tells its launches**, with their directories. -/
theorem traced_of_run {words : List String} {a : Arguments} (hread : Arguments.read words = .run a)
    (hdry : a.dryRun = false) (m : Machine) :
    ((run words m).2.log.filter (·.isTrace)).map (·.traced?) =
      (launchesOf words m).map fun l => some l.command := by
  have hclean := clean_of_run hread hdry m
  rw [traces_of_run hread hdry]
  generalize launchesOf words m = new at hclean
  rw [List.map_map]
  refine List.map_congr_left fun l hl => ?_
  rw [Function.comp_apply, Command.traced?_trace (hclean l hl)]

/-- **The log of a dry run tells its calls**, with their directories. -/
theorem announced_of_run {words : List String} {a : Arguments}
    (hread : Arguments.read words = .run a) (hdry : a.dryRun = true) (m : Machine) :
    ((run words m).2.log.filter (·.isAnnouncement)).map (·.announced?) =
      (callsOf a { m with log := [] }).map some := by
  have hclean := clean_of_callsOf a { m with log := [] }
  rw [announcements_of_run hread hdry]
  generalize callsOf a { m with log := [] } = calls at hclean
  rw [List.map_map]
  refine List.map_congr_left fun c hc => ?_
  rw [Function.comp_apply, Command.announced?_announcement (hclean c hc)]

/-- With all levels shown, the whole log is shown. -/
theorem errors_of_verbose {words : List String} {a : Arguments}
    (hread : Arguments.read words = .run a) (hverbose : a.verbose = true) (m : Machine) :
    (run words m).1.errors = (run words m).2.log.flatMap Log.Record.lines := by
  have hall : ∀ r : Log.Record, Log.Level.debug.rank ≤ r.level.rank := fun r => Nat.zero_le _
  simp only [run, hread, hverbose, if_true, Log.shown, hall, decide_true, List.filter_true]

/-- **Messages and records tell their commands.**

The records of the runner and the text of a failure are read back, whatever the words are: they tell
the words, the text of the directory and the exit code.  So the record for a command is for no other
command, and the log of a run tells its launches, that of a dry run its calls, in order.  What is shown
of a record is its level, a colon and its message, line by line. -/
theorem records_tell_commands :
    (∀ (directory : Path) (argv : List String) (given : Option Path) (m : Machine),
      ((Runner.run ⟨directory, true⟩ argv given).perform m).2.log =
          m.log ++ [Command.announcement ⟨argv, given.getD directory⟩] ∧
        ((Runner.run ⟨directory, false⟩ argv given).perform m).2.log =
          m.log ++ [Command.trace ⟨argv, given.getD directory⟩] ∧
        ∀ e, ((Runner.run ⟨directory, false⟩ argv given).perform m).1 = .error (.command e) →
          e.argv = argv) ∧
    (∀ c : Command,
      Command.told? Message.wouldRun c.announcement.message =
          some (c.argv, c.directory.toString) ∧
        Command.told? Message.running c.trace.message = some (c.argv, c.directory.toString)) ∧
    (∀ e : CommandError, CommandError.told? e.message = some (e.argv, e.exitCode?)) ∧
    (∀ c c' : Command, c.directory.Clean → c'.directory.Clean →
      c.announcement = c'.announcement ∨ c.trace = c'.trace → c = c') ∧
    (∀ r : Log.Record, "\n".intercalate r.lines = r.level.word ++ ": " ++ r.message ∧
      ∀ l ∈ r.lines, '\n' ∉ l.toList) ∧
    (∀ (words : List String) (a : Arguments) (m : Machine), Arguments.read words = .run a →
      a.dryRun = false → a.verbose = true →
        (run words m).1.errors = (run words m).2.log.flatMap Log.Record.lines ∧
        ((run words m).2.log.filter (·.isTrace)).map (·.traced?) =
          (launchesOf words m).map fun l => some l.command) ∧
    ∀ (words : List String) (a : Arguments) (m : Machine), Arguments.read words = .run a →
      a.dryRun = true →
        ((run words m).2.log.filter (·.isAnnouncement)).map (·.announced?) =
          (callsOf a { m with log := [] }).map some := by
  refine ⟨?_, ?_, CommandError.told?_message, ?_, ?_, ?_, ?_⟩
  · intro directory argv given m
    rw [Runner.perform_announce rfl, Runner.perform_trace rfl]
    exact ⟨rfl, rfl, fun e he => Launch.argv_of_result he⟩
  · exact fun c => ⟨Command.told?_text _ c, Command.told?_text _ c⟩
  · intro c c' hc hc' h
    rcases h with h | h
    · have := congrArg Log.Record.announced? h
      rw [Command.announced?_announcement hc, Command.announced?_announcement hc'] at this
      exact Option.some.inj this
    · have := congrArg Log.Record.traced? h
      rw [Command.traced?_trace hc, Command.traced?_trace hc'] at this
      exact Option.some.inj this
  · exact fun r => ⟨r.intercalate_lines, fun l => Text.newline_not_mem_of_mem_lines⟩
  · exact fun words a m hread hdry hverbose =>
      ⟨errors_of_verbose hread hverbose m, traced_of_run hread hdry m⟩
  · exact fun words a m hread hdry => announced_of_run hread hdry m

/-- The log of a run of the small machine tells twelve launches, that of a dry run ten calls. -/
theorem records_tell_commands_sample :
    (launchesOf (Sample.words ++ ["--verbose"]) Sample.machine).length = 12 ∧
      ((run (Sample.words ++ ["--verbose"]) Sample.machine).2.log.filter (·.isTrace)).map
          (·.traced?) =
        (launchesOf (Sample.words ++ ["--verbose"]) Sample.machine).map (fun l => some l.command) ∧
      (callsOf { Sample.arguments with dryRun := true } Sample.machine).length = 10 ∧
      ((run (Sample.words ++ ["--dry-run"]) Sample.machine).2.log.filter (·.isAnnouncement)).map
          (·.announced?) =
        (callsOf { Sample.arguments with dryRun := true } Sample.machine).map some ∧
      Command.announcement ⟨["a b"], ⟨.root, ["c"]⟩⟩ ≠
        Command.announcement ⟨["a", "b"], ⟨.root, ["c"]⟩⟩ := by
  obtain ⟨-, -, -, hsame, -, hrun, hdry⟩ := records_tell_commands
  refine ⟨by decide +kernel, ?_, by decide +kernel, ?_, ?_⟩
  · exact (hrun _ { Sample.arguments with verbose := true } Sample.machine (by decide +kernel)
      rfl rfl).2
  · exact hdry _ { Sample.arguments with dryRun := true } Sample.machine (by decide +kernel) rfl
  · intro h
    have hclean : Path.Clean ⟨.root, ["c"]⟩ := by
      intro w hw
      rw [List.mem_singleton.1 hw]
      exact ⟨by decide, by decide, by decide⟩
    have := hsame _ _ hclean hclean (Or.inl h)
    simp at this

end Bootstrap

end Provision
