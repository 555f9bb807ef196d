/-
**Runs stop at the first failure.**

A run that returns zero has launched commands that all exited with zero.  Any other command is the
last one of its run: the run ends with a code and a last record of the log that tell what has gone
wrong, and the files stay as the command has left them, but for a staging directory.  There is one
way to fail that the run does not report: a command whose directory cannot even be handed to the
system ends it with a failure that nobody catches.

Main definitions:

* `Provision.Launch.Concludes` — how a run ends after a launch that has not gone well.

Main results:

* `Provision.Bootstrap.concludes_of_failure` — the end of a run that fails with a launch;
* `Provision.Bootstrap.run_stops_at_failure` — **runs stop at the first failure**;
* `Provision.Bootstrap.start_failure_escapes` — the failure that is not reported.
-/

import Provision.Proofs.Tasks

set_option relaxedAutoImplicit false
set_option autoImplicit false

namespace Provision

/-- The text of a command as it stands in the log. -/
def Command.line (c : Command) : String := Text.quoted (Shell.join c.argv)

/-- **How a run ends after a launch that has not gone well**: `exit` is its end, and `log` what it
has written. -/
def Launch.Concludes (l : Launch) (exit : Bootstrap.Exit) (log : List Log.Record) : Prop :=
  match l.ending with
  | .exited code =>
      exit = .returned 2 ∧ log.getLast? = some ⟨.error,
        "Command " ++ l.command.line ++ " failed with exit code " ++ toString code⟩
  | .interrupted => exit = .returned 130 ∧ log.getLast? = some ⟨.error, "Interrupted"⟩
  | .notStarted cause =>
      match cause.systemError? with
      | some e =>
          exit = .returned 2 ∧ log.getLast? = some ⟨.error,
            "Command " ++ l.command.line ++ " failed to start: " ++ e.message⟩
      | none => exit = .failed .embeddedNull

namespace Bootstrap

theorem conclude_command (m : Machine) (e : CommandError) :
    conclude m (.error (.command e)) = (.returned 2, m.log ++ [⟨.error, e.message⟩]) := rfl

/-- The end of a run whose work fails with what a launch stands for. -/
theorem concludes_of_failure {l : Launch} {f : Failure} (h : l.failure? = some f) (m : Machine) :
    l.Concludes (conclude m (.error f)).1 (conclude m (.error f)).2 := by
  unfold Launch.Concludes
  obtain ⟨code, hending, rfl⟩ | ⟨hending, rfl⟩ | ⟨cause, e, hending, hcause, rfl⟩ |
    ⟨cause, hending, hcause, rfl⟩ := Launch.failure?_cases h
  · rw [hending]
    refine ⟨rfl, ?_⟩
    rw [conclude_command, List.getLast?_concat, CommandError.message, Command.line]
    simp only [String.append_assoc]
  · rw [hending]
    exact ⟨rfl, List.getLast?_concat⟩
  · simp only [hending, hcause]
    refine ⟨rfl, ?_⟩
    rw [conclude_command, List.getLast?_concat, CommandError.message, Command.line]
    simp only [String.append_assoc]
  -- the one failure that a run does not report
  · simp only [hending, hcause]
    rfl

/-- **Runs stop at the first failure.**  A run that returns zero has launched commands that all
exited with zero.  A launch that goes otherwise is the last one; it decides how the run ends, and
nothing happens to the files behind it, except that a staging directory is removed. -/
theorem run_stops_at_failure {words : List String} {a : Arguments}
    (hread : Arguments.read words = .run a) (hdry : a.dryRun = false) (m : Machine) :
    ∃ new, (run words m).2.launches = m.launches ++ new ∧
      ((run words m).1.exit = .returned 0 → ∀ l ∈ new, l.ending = .exited 0) ∧
      ∀ earlier l later, new = earlier ++ l :: later → l.ending ≠ .exited 0 →
        later = [] ∧ l.Concludes (run words m).1.exit (run words m).2.log ∧
          (run words m).2.files = l.settled := by
  obtain ⟨wanted, new, hnew⟩ := exists_follows_setUp hdry { m with log := [] }
  have hstop : ∀ earlier l later, new = earlier ++ l :: later → l.ending ≠ .exited 0 →
      later = [] ∧ l.Concludes (run words m).1.exit (run words m).2.log ∧
        (run words m).2.files = l.settled := by
    intro earlier l later hsplit hending
    cases hf : l.failure? with
    | none => exact absurd (Launch.failure?_eq_none_iff.1 hf) hending
    | some f =>
        obtain ⟨hlater, hresult, hfiles⟩ := hnew.stops earlier l later f hsplit hf
        -- the work has failed with what the launch stands for, and that is what is reported
        refine ⟨hlater, ?_, ?_⟩
        · rw [run_exit hread, run_machine hread, hresult]
          exact concludes_of_failure hf _
        · rw [run_machine hread]
          exact hfiles
  refine ⟨new, ?_, ?_, hstop⟩
  · rw [run_machine hread]
    exact hnew.continues.launches
  · intro hexit l hl
    rw [run_exit hread] at hexit
    cases hf : l.failure? with
    | none => exact Launch.failure?_eq_none_iff.1 hf
    | some f =>
        -- a run that returns zero has not failed, and a launch that fails would have failed it
        obtain ⟨earlier, later, hsplit⟩ := List.append_of_mem hl
        have hresult := (hnew.stops earlier l later f hsplit hf).2.1
        rw [result_of_returned_zero hexit] at hresult
        simp at hresult

namespace Sample

/-- The small machine, but a download is killed after it has left a file behind. -/
def killing : Machine := { machine with
  behaviour := fun _ c fs =>
    let part : Location := ["home", "go", "go-tmp-1", "part"]
    if c.isDownload then
      (.exited (-9), { fs with tree := fs.tree.put part (.file "x".toUTF8 false) })
    else (.exited 0, fs) }

/-- The small machine, but its rules ask for a fork with a NUL character in its name, and as on any
system no command can be launched in a directory with such a name. -/
def nameless : Machine where
  files := ⟨⟨[(["home"], .directory),
    (["rules"], .file "rules:\n- destination: \"a\\0b\"\n".toUTF8 false)]⟩, []⟩
  environment := [("HOME", "/home")]
  behaviour := fun _ c fs =>
    if '\x00' ∈ c.directory.toString.toList then (.notStarted .embeddedNull, fs)
    else (.exited 0, fs)

end Sample

/-- The first download is killed: no other command is launched, and what it has left is gone. -/
theorem run_stops_at_failure_sample :
    ∃ l, (run Sample.words Sample.killing).2.launches = [l] ∧ l.ending = .exited (-9) ∧
      l.Concludes (run Sample.words Sample.killing).1.exit (run Sample.words Sample.killing).2.log ∧
      (run Sample.words Sample.killing).2.files = l.settled ∧ l.settled ≠ l.after := by
  have hendings : (run Sample.words Sample.killing).2.launches.map
      (fun l => (l.ending, decide (l.settled ≠ l.after))) = [(.exited (-9), true)] := by
    decide +kernel
  obtain ⟨new, hnew, -, hstop⟩ :=
    @run_stops_at_failure Sample.words Sample.arguments Sample.read_words rfl Sample.killing
  have hnew' : (run Sample.words Sample.killing).2.launches = new := hnew
  rw [hnew'] at hendings
  obtain ⟨l, rfl, hl⟩ := List.map_eq_singleton_iff.1 hendings
  obtain ⟨hending, hleft⟩ : l.ending = .exited (-9) ∧ l.settled ≠ l.after := by simpa using hl
  obtain ⟨-, hconcludes, hfiles⟩ := hstop [] l [] rfl (by simp [hending])
  exact ⟨l, hnew', hending, hconcludes, hfiles, hleft⟩

/-- A command that cannot be started need not be reported: after this one the run does not return,
and its log holds no error. -/
theorem start_failure_escapes :
    Arguments.read Sample.words = .run Sample.arguments ∧ Sample.arguments.dryRun = false ∧
      (run Sample.words Sample.nameless).2.launches.getLast?.map (·.ending) =
        some (.notStarted .embeddedNull) ∧
      (run Sample.words Sample.nameless).1.exit ≠ .returned 2 ∧
      (run Sample.words Sample.nameless).2.log.all (·.level ≠ .error) = true := by
  refine ⟨Sample.read_words, rfl, ?_⟩
  decide +kernel

end Bootstrap

end Provision
