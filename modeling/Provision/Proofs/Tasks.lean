/-
**The tasks of a plan.**

A plan is carried out task by task: the Go distributions, the link to the default one, the directory
of the repositories, the two tools, the source repository and the forks.  When its turn comes, a
task looks at the files to see what is missing, and this decides which commands it launches.  What
earlier commands have done to the files therefore counts, but only through these looks.

Main definitions:

* `Provision.Bootstrap.Task`, `Provision.Bootstrap.Plan.step`, `Provision.Bootstrap.Plan.tasks` —
  the tasks of a plan, and performing one;
* `Provision.Bootstrap.Plan.Block` — **the commands that a task launches when its turn comes**;
* `Provision.Bootstrap.Plan.Word` — the commands of one task after the other;
* `Provision.Bootstrap.Plan.turn` — the machine on which the turn of a task comes;
* `Provision.Bootstrap.launchesOf` — the launches of a run.

Main results:

* `Provision.Bootstrap.carryOut_eq_tasks` — carrying out a plan is performing its tasks;
* `Provision.Bootstrap.Plan.follows_step` — a task follows its commands;
* `Provision.Bootstrap.Plan.follows_tasks` — **tasks one after the other follow their commands**;
* `Provision.Bootstrap.run_of_plan` — a run with a plan is what its tasks are.
-/

import Provision.Proofs.Distribution
import Provision.Proofs.Preparation

set_option relaxedAutoImplicit false
set_option autoImplicit false

namespace Provision

open Step

/-- Whether a path is found to lead to something. -/
def Machine.sees (m : Machine) (path : Path) : Bool :=
  match m.files.found path.toString with
  | .ok there => there
  | .error _ => false

/-- What a machine sees is there. -/
theorem Machine.exists_stat_of_sees {m : Machine} {path : Path} (h : m.sees path = true) :
    ∃ e, m.files.stat path.toString = .ok e := by
  unfold Machine.sees FileSystem.found at h
  cases hstat : m.files.stat path.toString with
  | ok e => exact ⟨e, rfl⟩
  | error r =>
      cases hno : r.saysNo <;> simp [hstat, hno] at h

theorem Step.found_eq_sees {path : Path} {m m' : Machine} {there : Bool}
    (h : (found path).perform m = (.ok there, m')) : m.sees path = there ∧ m' = m := by
  rw [found, perform_bind_ok (perform_files m)] at h
  unfold Machine.sees
  cases hb : m.files.found path.toString with
  | ok b =>
      rw [hb] at h
      obtain ⟨rfl, rfl⟩ : b = there ∧ m = m' := by simpa using h
      exact ⟨rfl, rfl⟩
  | error r =>
      rw [hb] at h
      simp at h

/-! ### Steps that launch nothing -/

theorem Toolchain.silent_clearLink (layout : Layout) : (clearLink layout).Silent := by
  refine quiet_files.silent.bind fun fs => ?_
  split
  · exact silent_setFiles _
  · exact (quiet_throw _).silent
  · split
    · exact (quiet_debug _).silent
    · exact (quiet_pure _).silent

theorem Toolchain.silent_linkDefault (layout : Layout) (version : String) (dryRun : Bool) :
    (linkDefault layout version dryRun).Silent := by
  unfold linkDefault
  dsimp only
  split
  · exact (quiet_info _).silent.bind fun _ => (quiet_pure _).silent
  · refine (silent_clearLink layout).bind fun _ => quiet_files.silent.bind fun fs => ?_
    split
    · exact (silent_setFiles _).bind fun _ => (quiet_info _).silent.bind fun _ =>
        (quiet_pure _).silent
    · exact (quiet_refused _ _).silent.bind fun _ => (quiet_info _).silent.bind fun _ =>
        (quiet_pure _).silent

theorem Repository.silent_ensureBase (layout : Layout) (dryRun : Bool) :
    (ensureBase layout dryRun).Silent := by
  refine (quiet_found _).silent.bind fun there => ?_
  split
  · refine quiet_files.silent.bind fun fs => ?_
    split
    · exact (quiet_debug _).silent.bind fun _ => (quiet_pure _).silent
    · exact (quiet_throw _).silent
    · exact (quiet_refused _ _).silent
  · split
    · exact (quiet_info _).silent.bind fun _ => (quiet_pure _).silent
    · refine quiet_files.silent.bind fun fs => ?_
      dsimp only
      refine (silent_setFiles _).bind fun _ => ?_
      split
      · exact (quiet_refused _ _).silent
      · exact (quiet_pure _).silent

theorem Git.silent_removeIndexLock (repo : Path) : (removeIndexLock repo).Silent := by
  refine quiet_files.silent.bind fun fs => ?_
  split
  · exact (silent_setFiles _).bind fun _ => (quiet_info _).silent
  · exact (quiet_throw _).silent
  · split
    · exact (quiet_pure _).silent
    · exact (quiet_log _ _).silent

/-! ### The tasks -/

namespace Bootstrap

/-- One of the things that a plan puts in place. -/
inductive Task where
  | toolchain (version : String)
  | link
  | base
  | tool (tool : Tool) (skip : Bool)
  | source
  | fork (name : String)
  deriving DecidableEq, Repr, Inhabited

namespace Plan

/-- Puts one thing in place. -/
def step (p : Plan) : Task → Step Unit
  | .toolchain version => do
      let _ ← Toolchain.install version p.layout p.runner
      return ()
  | .link => do
      let _ ← Toolchain.linkDefault p.layout Rules.defaultGoVersion p.runner.dryRun
      return ()
  | .base => do
      let _ ← Repository.ensureBase p.layout p.arguments.dryRun
      return ()
  | .tool tool skip => do
      let _ ← ensureTool p.layout p.runner tool skip
      return ()
  | .source => do
      let _ ← Repository.cloneSource p.config p.layout p.runner p.arguments.skipGodep
      return ()
  | .fork name => do
      let _ ← Repository.cloneFork p.config p.layout p.runner name p.environment
      return ()

/-- The distributions that the rules ask for. -/
def toolchains (p : Plan) : List Task := (Rules.goVersions p.rules).map .toolchain

/-- The two tools. -/
def tools (p : Plan) : List Task :=
  [.tool .godep p.arguments.skipGodep, .tool .dep p.arguments.skipDep]

/-- The repositories that are published into. -/
def forks (p : Plan) : List Task := (Rules.destinations p.rules).map .fork

/-- **Everything that a plan puts in place**, in order. -/
def tasks (p : Plan) : List Task :=
  p.toolchains ++ ([.link, .base] ++ (p.tools ++ ([.source] ++ p.forks)))

end Plan

/-- A loop that collects answers which nobody looks at. -/
theorem mapM_discard {α β γ : Type} (f : α → Step β) (l : List α) (k : Step γ) :
    (l.mapM f >>= fun _ => k) = forM l (fun a => f a >>= fun _ => pure ()) >>= fun _ => k := by
  induction l with
  | nil => simp
  | cons a l ih => simp [ih]

/-- **Carrying out a plan is performing its tasks**, but for the summary. -/
theorem carryOut_eq_tasks (p : Plan) :
    (carryOut p >>= fun _ => pure ()) = forM p.tasks p.step := by
  have hend : ∀ s : Step PUnit, (s >>= fun _ => pure ()) = s := fun s => bind_pure s
  simp only [Plan.tasks, Plan.toolchains, Plan.tools, Plan.forks, List.forM_append,
    List.forM_map, carryOut, Toolchain.installAll, bind_assoc, pure_bind, mapM_discard,
    List.forM_cons, List.forM_nil, Plan.step, hend]

/-! ### The commands of a task -/

end Bootstrap

/-- The commands that build a tool. -/
def Tool.commands (tool : Tool) (layout : Layout) : List Command :=
  let sources := (layout.root.child "src").child tool.importPath
  [⟨["go", "get", tool.importPath], layout.baseRepoPath⟩,
    ⟨["git", "checkout", tool.revision], sources⟩,
    ⟨["go", "install", tool.buildTarget], sources⟩]

namespace Bootstrap

namespace Plan

/-- The commands that clone the source repository. -/
def sourceCommands (p : Plan) : List Command :=
  ⟨["git", "clone", p.config.address p.config.sourceOrg p.config.sourceRepo],
    p.layout.baseRepoPath⟩ ::
  if p.arguments.skipGodep then
    [⟨["bash", "-x", "hack/godep-restore.sh"], p.layout.repoDir p.config.sourceRepo⟩]
  else []

/-- The command for a fork that is there. -/
def refreshCommands (p : Plan) (name : String) : List Command :=
  [⟨["git", "remote", "set-url", "origin", p.config.address p.config.targetOrg name],
    p.layout.repoDir name⟩]

/-- The commands for a fork that is missing. -/
def forkCommands (p : Plan) (name : String) : List Command :=
  [⟨["git", "clone", p.config.address p.config.targetOrg name],
      p.layout.baseRepoPath⟩,
    ⟨["git", "config", "user.name", p.environment.value "GIT_COMMITTER_NAME"],
      p.layout.repoDir name⟩,
    ⟨["git", "config", "user.email", p.environment.value "GIT_COMMITTER_EMAIL"],
      p.layout.repoDir name⟩]

/-- **The commands that a task launches when its turn comes on `m`.**  They are determined but for
the number of a staging directory. -/
def Block (p : Plan) (m : Machine) : Task → List Command → Prop
  | .toolchain version, wanted =>
      if m.misses (p.layout.goDir version) then
        ∃ n, wanted = [Toolchain.download version p.layout.root n]
      else wanted = []
  | .link, wanted | .base, wanted => wanted = []
  | .tool tool skip, wanted =>
      wanted = if skip || m.findExecutable tool.name then [] else tool.commands p.layout
  | .source, wanted =>
      wanted = if m.sees (p.layout.repoDir p.config.sourceRepo) then [] else p.sourceCommands
  | .fork name, wanted =>
      wanted = if m.sees (p.layout.repoDir name) then p.refreshCommands name
        else p.forkCommands name

/-- **The commands of some tasks**, one after the other, the first of which has its turn on `m`. -/
def Word (p : Plan) : List Task → Machine → List Command → Prop
  | [], _, wanted => wanted = []
  | t :: ts, m, wanted =>
      ∃ first rest, wanted = first ++ rest ∧ p.Block m t first ∧
        p.Word ts ((p.step t).perform m).2 rest

/-- The machine on which the turn comes for what is behind `done`. -/
def turn (p : Plan) (done : List Task) (m : Machine) : Machine :=
  done.foldl (fun m t => ((p.step t).perform m).2) m

/-- The commands of two lists of tasks. -/
theorem word_append {p : Plan} {ts us : List Task} {m : Machine} {wanted : List Command} :
    p.Word (ts ++ us) m wanted ↔
      ∃ first rest, wanted = first ++ rest ∧ p.Word ts m first ∧ p.Word us (p.turn ts m) rest := by
  induction ts generalizing m wanted with
  | nil =>
      constructor
      · intro h
        exact ⟨[], wanted, rfl, rfl, h⟩
      · rintro ⟨_, rest, rfl, rfl, h⟩
        exact h
  | cons t ts ih =>
      constructor
      · rintro ⟨first, rest, rfl, hfirst, hrest⟩
        obtain ⟨mid, rest, rfl, hmid, hrest⟩ := ih.1 hrest
        exact ⟨first ++ mid, rest, by simp, ⟨first, mid, rfl, hfirst, hmid⟩, hrest⟩
      · rintro ⟨_, rest, rfl, ⟨first, mid, rfl, hfirst, hmid⟩, hrest⟩
        exact ⟨first, mid ++ rest, by simp, hfirst, ih.2 ⟨mid, rest, rfl, hmid, hrest⟩⟩

section

variable {p : Plan} (hdry : p.arguments.dryRun = false)
include hdry

/-- A tool that is not found follows the commands that build it. -/
theorem follows_ensureTool (tool : Tool) (skip : Bool) (m : Machine) :
    (ensureTool p.layout p.runner tool skip).Follows m
      (if skip || m.findExecutable tool.name then [] else tool.commands p.layout) := by
  have hrun := @Runner.follows_run p.runner hdry
  cases skip with
  | true => exact ((quiet_info _).silent.bind fun _ => (quiet_pure _).silent).follows m
  | false =>
      refine Follows.bind_silent ?_ fun _ => (quiet_pure _).silent
      refine quiet_get.silent.follows_bind fun m₁ m₂ h => ?_
      obtain ⟨rfl, rfl⟩ : m = m₁ ∧ m = m₂ := by simpa using h
      cases hfound : m.findExecutable tool.name with
      | true => exact ((quiet_info _).silent.bind fun _ => (quiet_pure _).silent).follows m
      | false =>
          -- three commands, each on the machine that the one before has left
          refine (quiet_info _).silent.follows_bind fun _ m₁ _ => ?_
          refine (hrun _ none m₁ rfl).bind fun _ m₂ _ => ?_
          refine (hrun _ (some _) m₂ rfl).bind fun _ m₃ _ => ?_
          exact (hrun _ (some _) m₃ rfl).bind_silent fun _ => (quiet_pure _).silent

/-- A source repository that is not seen follows the commands that clone it. -/
theorem follows_cloneSource (m : Machine) :
    (Repository.cloneSource p.config p.layout p.runner p.arguments.skipGodep).Follows m
      (if m.sees (p.layout.repoDir p.config.sourceRepo) then [] else p.sourceCommands) := by
  have hrun := @Runner.follows_run p.runner hdry
  refine (quiet_found _).silent.follows_bind fun there m₁ h => ?_
  obtain ⟨hsees, rfl⟩ := found_eq_sees h
  rw [hsees]
  cases there with
  | true => exact ((quiet_info _).silent.bind fun _ => (quiet_pure _).silent).follows _
  | false =>
      refine (quiet_info _).silent.follows_bind fun _ m₂ _ => ?_
      refine (hrun _ none m₂ rfl).bind fun _ m₃ _ => ?_
      cases p.arguments.skipGodep with
      | false => exact (quiet_pure _).silent.follows m₃
      | true =>
          refine (quiet_info _).silent.follows_bind fun _ m₄ _ => ?_
          exact (hrun _ (some _) m₄ rfl).bind_silent fun _ => (quiet_pure _).silent

/-- A fork follows the command for one that is seen, or the commands for one that is not. -/
theorem follows_cloneFork (name : String) (m : Machine) :
    (Repository.cloneFork p.config p.layout p.runner name p.environment).Follows m
      (if m.sees (p.layout.repoDir name) then p.refreshCommands name else p.forkCommands name) := by
  have hrun := @Runner.follows_run p.runner hdry
  have hrunner : p.runner.dryRun = false := hdry
  refine (quiet_found _).silent.follows_bind fun there m₁ h => ?_
  obtain ⟨hsees, rfl⟩ := found_eq_sees h
  rw [hsees]
  cases there with
  | true =>
      refine (quiet_info _).silent.follows_bind fun _ m₂ _ => ?_
      refine (hrun _ (some _) m₂ rfl).bind_silent fun _ => ?_
      -- removing a stale lock changes files and launches nothing
      rw [hrunner]
      exact (Git.silent_removeIndexLock _).bind fun _ => (quiet_pure _).silent
  | false =>
      refine (quiet_info _).silent.follows_bind fun _ m₂ _ => ?_
      refine (hrun _ none m₂ rfl).bind fun _ m₃ _ => ?_
      refine (hrun _ (some _) m₃ rfl).bind fun _ m₄ _ => ?_
      exact (hrun _ (some _) m₄ rfl).bind_silent fun _ => (quiet_pure _).silent

/-- **A task follows its commands.** -/
theorem follows_step (t : Task) (m : Machine) :
    ∃ wanted, p.Block m t wanted ∧ (p.step t).Follows m wanted := by
  have hrunner : p.runner.dryRun = false := hdry
  cases t with
  | toolchain version =>
      obtain ⟨wanted, hwanted, h⟩ := Toolchain.follows_install hrunner version p.layout m
      exact ⟨wanted, hwanted, h.bind_silent fun _ => (quiet_pure _).silent⟩
  | link =>
      refine ⟨[], rfl, Silent.follows ?_ m⟩
      exact (Toolchain.silent_linkDefault _ _ _).bind fun _ => (quiet_pure _).silent
  | base =>
      refine ⟨[], rfl, Silent.follows ?_ m⟩
      exact (Repository.silent_ensureBase _ _).bind fun _ => (quiet_pure _).silent
  | tool tool skip =>
      exact ⟨_, rfl, (follows_ensureTool hdry tool skip m).bind_silent fun _ =>
        (quiet_pure _).silent⟩
  | source =>
      exact ⟨_, rfl, (follows_cloneSource hdry m).bind_silent fun _ => (quiet_pure _).silent⟩
  | fork name =>
      exact ⟨_, rfl, (follows_cloneFork hdry name m).bind_silent fun _ => (quiet_pure _).silent⟩

/-- **Tasks one after the other follow their commands.** -/
theorem follows_tasks (ts : List Task) (m : Machine) :
    ∃ wanted, p.Word ts m wanted ∧ (forM ts p.step).Follows m wanted := by
  induction ts generalizing m with
  | nil => exact ⟨[], rfl, (quiet_pure _).silent.follows m⟩
  | cons t ts ih =>
      obtain ⟨first, hfirst, hstep⟩ := follows_step hdry t m
      -- the other tasks have their turn on the machine that the first one has left
      obtain ⟨rest, hrest, htasks⟩ := ih ((p.step t).perform m).2
      refine ⟨first ++ rest, ⟨first, rest, rfl, hfirst, hrest⟩, ?_⟩
      rw [List.forM_cons]
      refine hstep.bind fun a m₁ h => ?_
      rw [h] at htasks
      exact htasks

/-- **Carrying out a plan follows the commands of its tasks.** -/
theorem follows_carryOut (m : Machine) :
    ∃ wanted, p.Word p.tasks m wanted ∧ (carryOut p).Follows m wanted := by
  obtain ⟨wanted, hword, h⟩ := follows_tasks hdry p.tasks m
  rw [← carryOut_eq_tasks] at h
  exact ⟨wanted, hword, follows_of_discard h⟩

end

end Plan

/-- The work of a run follows the commands of the plan that it has made. -/
theorem follows_setUp {a : Arguments} (hdry : a.dryRun = false) {m m₁ : Machine} {p : Plan}
    (hp : (prepare a).perform m = (.ok p, m₁)) :
    ∃ wanted, p.Word p.tasks m₁ wanted ∧ (setUp a).Follows m wanted := by
  have hplan : p.arguments.dryRun = false := by rw [(plan_of_prepare hp).1, hdry]
  obtain ⟨wanted, hword, h⟩ := Plan.follows_carryOut hplan m₁
  refine ⟨wanted, hword, (quiet_prepare a).silent.follows_bind fun p' m₂ hp' => ?_⟩
  obtain ⟨rfl, rfl⟩ : p = p' ∧ m₁ = m₂ := by simpa [hp] using hp'
  exact h.bind_silent fun _ => (quiet_info _).silent

/-- The work of a run follows some commands, none if there is no plan. -/
theorem exists_follows_setUp {a : Arguments} (hdry : a.dryRun = false) (m : Machine) :
    ∃ wanted, (setUp a).Follows m wanted := by
  rcases hp : (prepare a).perform m with ⟨e | p, m₁⟩
  -- without a plan there is nothing to follow
  · refine ⟨[], (quiet_prepare a).silent.follows_bind fun p m₂ hp' => ?_⟩
    rw [hp] at hp'
    simp at hp'
  · obtain ⟨wanted, -, h⟩ := follows_setUp hdry hp
    exact ⟨wanted, h⟩

/-- A prepared machine differs from the one before in its log only. -/
theorem machine_of_prepare {a : Arguments} {m m₁ : Machine} {r : Except Failure Plan}
    (h : (prepare a).perform { m with log := [] } = (r, m₁)) :
    ∃ records, m₁ = { m with log := records } := by
  obtain ⟨records, hm⟩ := quiet_prepare a { m with log := [] }
  rw [h] at hm
  exact ⟨_, hm⟩

/-- **A run with a plan is what its tasks are**, but for the log; if it returns zero then all of them
have been performed. -/
theorem run_of_plan {words : List String} {a : Arguments} (hread : Arguments.read words = .run a)
    {m m₁ : Machine} {p : Plan} (hplan : (prepare a).perform { m with log := [] } = (.ok p, m₁)) :
    (∃ records, (run words m).2 = { ((forM p.tasks p.step).perform m₁).2 with log := records }) ∧
      ((run words m).1.exit = .returned 0 → ((forM p.tasks p.step).perform m₁).1 = .ok ()) := by
  have htasks := perform_bind_pure (carryOut p) (fun _ => ()) m₁
  rw [carryOut_eq_tasks] at htasks
  rw [run_machine hread, run_exit hread, setUp, perform_bind_ok hplan, htasks]
  rcases hcarry : (carryOut p).perform m₁ with ⟨e | summary, m₂⟩
  · rw [perform_bind_error hcarry]
    refine ⟨⟨_, rfl⟩, fun hexit => ?_⟩
    have := result_of_returned_zero hexit
    simp at this
  · rw [perform_bind_ok hcarry]
    exact ⟨⟨_, rfl⟩, fun _ => rfl⟩

/-- The launches of a run. -/
def launchesOf (words : List String) (m : Machine) : List Launch :=
  (run words m).2.launches.drop m.launches.length

/-- A run launches what it launches, and leaves everything but the files and the log alone. -/
theorem continues_run {words : List String} {a : Arguments} (hread : Arguments.read words = .run a)
    (hdry : a.dryRun = false) (m : Machine) : m.Continues (launchesOf words m) (run words m).2 := by
  obtain ⟨wanted, new, hnew⟩ := exists_follows_setUp hdry { m with log := [] }
  have hc := hnew.continues
  have hlaunches : launchesOf words m = new := by
    rw [launchesOf, run_machine hread, hc.launches, List.drop_left]
  rw [hlaunches, run_machine hread]
  exact ⟨hc.launches, hc.environment, hc.accounts, hc.behaviour, hc.answered⟩

namespace Sample

/-- How commands of a kind start: downloads, builds, clones, and those that set an address. -/
def openings : List (List String) :=
  [["/bin/bash", "-c"], ["go", "get"], ["git", "clone"], ["git", "remote", "set-url"]]

/-- The run of the small machine, evaluated once. -/
theorem run_words : (run words machine).1.exit = .returned 0 ∧
    (launchesOf words machine).length = 12 ∧
    (openings.map fun ws => (launchesOf words machine).countP fun l =>
      ws.isPrefixOf l.command.argv) = [2, 2, 2, 0] := by
  decide +kernel

end Sample

end Bootstrap

end Provision
