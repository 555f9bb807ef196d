/-
**A dry run has no effect.**

In a dry run every step only says what it would do.  Each of them asks for itself whether the run
is dry, so the proof follows the steps: in a dry run the runner is quiet, and with it everything
that is done for a distribution, a tool or a repository, whatever is there already and however many
there are.  Any number of dry runs, one after the other, therefore leave the machine as it was, but
for its log.

Main definitions:

* `Provision.Arguments.AskForDryRun` — a command line that is accepted and asks for a dry run;
* `Provision.Bootstrap.runs` — one run after the other on the same machine.

Main results:

* `Provision.Bootstrap.quiet_carryOut` — carrying out a plan in a dry run is quiet;
* `Provision.Bootstrap.dry_runs_have_no_effect` — **dry runs launch nothing and change no file**.
-/

import Provision.Proofs.Preparation

set_option relaxedAutoImplicit false
set_option autoImplicit false

namespace Provision

open Step

/-! ### Commands -/

section Dry

variable {runner : Runner} (hdry : runner.dryRun = true)
include hdry

theorem Runner.quiet_run (argv : List String) (directory : Option Path) :
    (runner.run argv directory).Quiet := by
  simp only [Runner.run, hdry, if_true]
  exact quiet_info _

/-! ### Distributions -/

theorem Toolchain.quiet_install (version : String) (layout : Layout) :
    (Toolchain.install version layout runner).Quiet := by
  refine quiet_files.bind fun fs => ?_
  split
  · exact (quiet_info _).bind fun _ => quiet_pure _
  · exact quiet_throw _
  · exact quiet_throw _
  · have hrest : (do
        Step.info ("Dry run: would download " ++ archiveUrl version)
        return Status.installed : Step Status).Quiet :=
      (quiet_info _).bind fun _ => quiet_pure _
    simp only [hdry, if_true]
    split
    · exact (quiet_throw _).bind fun _ => (quiet_info _).bind fun _ => hrest
    · exact (quiet_info _).bind fun _ => hrest

omit hdry in
theorem Toolchain.quiet_linkDefault (layout : Layout) (version : String) :
    (Toolchain.linkDefault layout version true).Quiet := by
  simp only [Toolchain.linkDefault, if_true]
  exact (quiet_info _).bind fun _ => quiet_pure _

theorem Toolchain.quiet_installAll (rules : List RepositoryRule) (layout : Layout) :
    (Toolchain.installAll rules layout runner).Quiet := by
  refine (quiet_mapM (fun v => quiet_install hdry v layout) _).bind fun _ => ?_
  rw [hdry]
  exact (quiet_linkDefault layout _).bind fun _ => quiet_pure _

/-! ### Tools and repositories -/

omit hdry in
theorem Repository.quiet_ensureBase (layout : Layout) : (Repository.ensureBase layout true).Quiet := by
  refine (quiet_found _).bind fun there => ?_
  split
  · refine quiet_files.bind fun fs => ?_
    split
    · exact (quiet_debug _).bind fun _ => quiet_pure _
    · exact quiet_throw _
    · exact quiet_refused _ _
  · exact (quiet_info _).bind fun _ => quiet_pure _

theorem Tool.quiet_ensure (tool : Tool) (layout : Layout) : (tool.ensure layout runner).Quiet := by
  refine quiet_get.bind fun m => ?_
  have hrun := Runner.quiet_run hdry
  have hrest : (do
      Step.info ("Installing " ++ tool.importPath ++ "#" ++ tool.revision ++ " ...")
      runner.run ["go", "get", tool.importPath]
      Git.checkout runner (layout.packageDir tool.importPath) tool.revision
      runner.run ["go", "install", tool.buildTarget] (some (layout.packageDir tool.importPath))
      return Status.installed : Step Status).Quiet :=
    (quiet_info _).bind fun _ => (hrun _ _).bind fun _ => (hrun _ _).bind fun _ =>
      (hrun _ _).bind fun _ => quiet_pure _
  split
  · exact (quiet_info _).bind fun _ => quiet_pure _
  · exact hrest

theorem Repository.quiet_cloneSource (config : Config) (layout : Layout) (restore : Bool) :
    (Repository.cloneSource config layout runner restore).Quiet := by
  refine (quiet_found _).bind fun there => ?_
  split
  · exact (quiet_info _).bind fun _ => quiet_pure _
  · refine (quiet_info _).bind fun _ => (Runner.quiet_run hdry _ _).bind fun _ => ?_
    split
    · refine (quiet_info _).bind fun _ => (Runner.quiet_run hdry _ _).bind fun _ => quiet_pure _
    · exact quiet_pure _

theorem Repository.quiet_cloneFork (config : Config) (layout : Layout) (name : String)
    (environment : Environment) :
    (Repository.cloneFork config layout runner name environment).Quiet := by
  have hrun := Runner.quiet_run hdry
  refine (quiet_found _).bind fun there => ?_
  split
  · exact (quiet_info _).bind fun _ => (hrun _ _).bind fun _ => (quiet_info _).bind fun _ =>
      quiet_pure _
  · exact (quiet_info _).bind fun _ => (hrun _ _).bind fun _ => (hrun _ _).bind fun _ =>
      (hrun _ _).bind fun _ => quiet_pure _

end Dry

/-! ### Runs -/

/-- The parser accepts the command line, and it asks for a dry run. -/
def Arguments.AskForDryRun (words : List String) : Prop :=
  ∃ a, Arguments.read words = .run a ∧ a.dryRun = true

namespace Bootstrap

/-- One run after the other on the same machine. -/
def runs (calls : List (List String)) (m : Machine) : Machine :=
  calls.foldl (fun m words => (run words m).2) m

theorem quiet_ensureTool {runner : Runner} (hdry : runner.dryRun = true) (layout : Layout)
    (tool : Tool) (skip : Bool) : (ensureTool layout runner tool skip).Quiet := by
  unfold ensureTool
  split
  · exact (quiet_info _).bind fun _ => quiet_pure _
  · exact (Tool.quiet_ensure hdry tool layout).bind fun _ => quiet_pure _

/-- **Carrying out a plan in a dry run is quiet.** -/
theorem quiet_carryOut {p : Plan} (hdry : p.arguments.dryRun = true) : (carryOut p).Quiet := by
  have hrunner : p.runner.dryRun = true := hdry
  refine (Toolchain.quiet_installAll hrunner _ _).bind fun go => ?_
  rw [hdry]
  refine (Repository.quiet_ensureBase _).bind fun _ => ?_
  refine (quiet_ensureTool hrunner _ _ _).bind fun godep => ?_
  refine (quiet_ensureTool hrunner _ _ _).bind fun dep => ?_
  refine (Repository.quiet_cloneSource hrunner _ _ _).bind fun source => ?_
  exact (quiet_mapM (fun name => Repository.quiet_cloneFork hrunner _ _ name _) _).bind
    fun _ => quiet_pure _

theorem quiet_setUp {a : Arguments} (hdry : a.dryRun = true) : (setUp a).Quiet := by
  refine (quiet_prepare a).bind_of fun m p m' hp => ?_
  have hplan : p.arguments.dryRun = true := by rw [(plan_of_prepare hp).1, hdry]
  exact (quiet_carryOut hplan).bind fun _ => quiet_info _

/-- A dry run changes nothing but the log of the machine. -/
theorem run_of_dryRun {words : List String} (h : Arguments.AskForDryRun words) (m : Machine) :
    ∃ records, (run words m).2 = { m with log := records } := by
  obtain ⟨a, hread, hdry⟩ := h
  obtain ⟨records, hperform⟩ := quiet_setUp hdry { m with log := [] }
  exact ⟨_, by rw [run_machine hread, hperform]⟩

/-- **Dry runs have no effect.**  However many there are, and however each of them ends: after any
of them no command has been launched, and the files are those from before the first. -/
theorem dry_runs_have_no_effect (m : Machine) (calls : List (List String))
    (hdry : ∀ words ∈ calls, Arguments.AskForDryRun words) (done : List (List String))
    (hdone : done <+: calls) :
    (runs done m).launches = m.launches ∧ (runs done m).files = m.files := by
  -- the machine as a whole stays the same but for its log, from one run to the next
  have hlog : ∀ (l : List (List String)) (m : Machine),
      (∀ words ∈ l, Arguments.AskForDryRun words) →
      ∃ records, runs l m = { m with log := records } := by
    intro l
    induction l with
    | nil => intro m _; exact ⟨m.log, rfl⟩
    | cons words l ih =>
        intro m h
        obtain ⟨first, h₁⟩ := run_of_dryRun (h words (List.mem_cons_self ..)) m
        obtain ⟨rest, h₂⟩ := ih { m with log := first }
          fun w hw => h w (List.mem_cons_of_mem _ hw)
        refine ⟨rest, ?_⟩
        have hruns : runs (words :: l) m = runs l (run words m).2 := rfl
        rw [hruns, h₁, h₂]
  obtain ⟨records, h⟩ := hlog done m fun words hw => hdry words (hdone.subset hw)
  rw [h]
  exact ⟨rfl, rfl⟩

/-- The first two of three dry runs, of which one has other flags and one ends with an error. -/
theorem dry_runs_have_no_effect_sample :
    let plain := Sample.words ++ ["--dry-run"]
    let flagged := Sample.words ++ ["--skip-godep", "--dry-run", "--verbose"]
    let lost := ["--dry-run", "--rules-file", "/nowhere"]
    (∀ words ∈ [plain, lost, flagged], Arguments.AskForDryRun words) ∧
      [plain, lost] <+: [plain, lost, flagged] ∧
      (run lost Sample.machine).1.exit = .returned 2 ∧
      (runs [plain, lost] Sample.machine).launches = [] ∧
      (runs [plain, lost] Sample.machine).files = Sample.machine.files := by
  intro plain flagged lost
  have hask : ∀ words ∈ [plain, lost, flagged], Arguments.AskForDryRun words := by
    intro words h
    simp only [List.mem_cons, List.not_mem_nil, or_false] at h
    rcases h with rfl | rfl | rfl
    · exact ⟨{ Sample.arguments with dryRun := true }, by decide +kernel, rfl⟩
    · exact ⟨{ rulesFile := .given "/nowhere", dryRun := true }, by decide +kernel, rfl⟩
    · exact ⟨{ Sample.arguments with skipGodep := true, dryRun := true, verbose := true },
        by decide +kernel, rfl⟩
  have hdone : [plain, lost] <+: [plain, lost, flagged] := ⟨[flagged], rfl⟩
  refine ⟨hask, hdone, by decide +kernel, ?_⟩
  exact dry_runs_have_no_effect Sample.machine [plain, lost, flagged] hask [plain, lost] hdone

end Bootstrap

end Provision
