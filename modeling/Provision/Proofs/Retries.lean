/-
**Runs that are tried again.**

A run that has failed can be started again.  What the next one skips is what it finds: an executable
on the search path, or the directory of a repository.  But the first command of a task may have
brought this into being while the commands behind it, which finish the set-up, have not been
reached.  So if the last of some runs returns zero, then each tool and each repository has been set
up completely in one of the runs; or one of them has stopped within its commands, behind the one
that it is recognised by; or what is looked for came into being while something else was put in
place.

Main definitions:

* `Provision.Bootstrap.retried` — runs with the same command line;
* `Provision.Bootstrap.Plan.finishing`, `Provision.Bootstrap.Plan.halfway` — the commands behind the
  first one of a task, and those at which a run may stop with the task half done;
* `Provision.Bootstrap.Plan.Attempt` — **what becomes of a task in one run**.

Main results:

* `Provision.Bootstrap.exists_turning_of_forM` — what has come true has come true in one task;
* `Provision.Bootstrap.attempt_or_missing` — one run, for a task whose thing is missing;
* `Provision.Bootstrap.retries_settle_tasks` — **any number of runs**;
* `Provision.Bootstrap.retries_leave_work` — runs that leave a repository without its committer.
-/

import Provision.Proofs.DryRun
import Provision.Proofs.Executions
import Provision.Proofs.Validation

set_option relaxedAutoImplicit false
set_option autoImplicit false

namespace Provision

open Step

namespace Launch

theorem Chain.eq_after {fs fs' : FileSystem} {ls : List Launch} {l : Launch}
    (h : Chain fs (ls ++ [l]) fs') : fs' = l.after := by
  induction ls generalizing fs with
  | nil => exact h.2
  | cons k ls ih => exact ih h.2

end Launch

namespace Bootstrap

/-! ### One run after the other -/

/-- The machine after some runs with the same command line. -/
def retried (words : List String) (m : Machine) (n : Nat) : Machine :=
  runs (List.replicate n words) m

theorem retried_succ (words : List String) (m : Machine) (n : Nat) :
    retried words m (n + 1) = (run words (retried words m n)).2 := by
  simp [retried, runs, List.replicate_succ']

section

variable {words : List String} {a : Arguments} (hread : Arguments.read words = .run a)
  (hdry : a.dryRun = false)
include hread hdry

theorem environment_retried (m : Machine) (n : Nat) :
    (retried words m n).environment = m.environment := by
  induction n with
  | zero => rfl
  | succ n ih => rw [retried_succ, (continues_run hread hdry _).environment, ih]

end

/-! ### What comes true while tasks are performed -/

/-- **What has come true has come true in one task**, and otherwise no task has found it true when
its turn came. -/
theorem exists_turning_of_forM (good : Machine → Prop) (step : Task → Step Unit) (ts : List Task)
    {m : Machine} (hm : ¬good m) :
    (∃ done t rest m₁, ts = done ++ t :: rest ∧ (forM done step).perform m = (.ok (), m₁) ∧
      ¬good m₁ ∧ good ((step t).perform m₁).2) ∨
    (¬good ((forM ts step).perform m).2 ∧
      ∀ done t rest m₁, ts = done ++ t :: rest → (forM done step).perform m = (.ok (), m₁) →
        ¬good m₁) := by
  induction ts generalizing m with
  | nil => exact Or.inr ⟨hm, by simp⟩
  | cons t ts ih =>
      by_cases ht : good ((step t).perform m).2
      · exact Or.inl ⟨[], t, ts, m, rfl, rfl, hm, ht⟩
      rcases hstep : (step t).perform m with ⟨e | u, m₂⟩
      -- the first task fails, and no other has its turn
      · rw [hstep] at ht
        refine Or.inr ⟨?_, fun done t' rest m₁ hsplit hdone => ?_⟩
        · rw [List.forM_cons, perform_bind_error hstep]
          exact ht
        · cases done with
          | nil =>
              obtain rfl : m = m₁ := by simpa using hdone
              exact hm
          | cons t₁ done =>
              obtain ⟨rfl, -⟩ : t = t₁ ∧ ts = done ++ t' :: rest := by simpa using hsplit
              rw [List.forM_cons, perform_bind_error hstep] at hdone
              simp at hdone
      · rw [hstep] at ht
        have hcons : ∀ l : List Task, (forM (t :: l) step).perform m = (forM l step).perform m₂ :=
          fun l => by rw [List.forM_cons, perform_bind_ok hstep]
        rcases ih ht with ⟨done, t', rest, m₁, rfl, hdone, hturn⟩ | ⟨hend, hnever⟩
        · exact Or.inl ⟨t :: done, t', rest, m₁, rfl, by rw [hcons, hdone], hturn⟩
        · refine Or.inr ⟨by rwa [hcons], fun done t' rest m₁ hsplit hdone => ?_⟩
          cases done with
          | nil =>
              obtain rfl : m = m₁ := by simpa using hdone
              exact hm
          | cons t₁ done =>
              obtain ⟨rfl, hts⟩ : t = t₁ ∧ ts = done ++ t' :: rest := by simpa using hsplit
              rw [hcons] at hdone
              exact hnever done t' rest m₁ hts hdone

/-- If all tasks succeed then so does each one when its turn comes. -/
theorem turn_of_forM_ok {step : Task → Step Unit} {done rest : List Task} {t : Task} {m : Machine}
    (h : ((forM (done ++ t :: rest) step).perform m).1 = .ok ()) :
    ∃ m₁, (forM done step).perform m = (.ok (), m₁) ∧ ((step t).perform m₁).1 = .ok () := by
  rcases hall : (forM (done ++ t :: rest) step).perform m with ⟨r, m'⟩
  obtain rfl : r = .ok () := by rwa [hall] at h
  rw [List.forM_append, List.forM_cons] at hall
  obtain ⟨_, m₁, hdone, hrest⟩ := perform_bind_eq_ok.1 hall
  obtain ⟨_, m₂, hturn, -⟩ := perform_bind_eq_ok.1 hrest
  exact ⟨m₁, hdone, by rw [hturn]⟩

namespace Plan

/-- The launches of one task among those of all tasks.  None stands behind them if it fails. -/
theorem launches_of_forM {p : Plan} (hdry : p.arguments.dryRun = false) {done : List Task}
    (rest : List Task) {t : Task} {m m₁ : Machine} {new : List Launch}
    (hdone : (forM done p.step).perform m = (.ok (), m₁))
    (hnew : ((p.step t).perform m₁).2.launches = m₁.launches ++ new) :
    ∃ earlier later,
      ((forM (done ++ t :: rest) p.step).perform m).2.launches =
        m.launches ++ (earlier ++ new ++ later) ∧
      ∀ e, ((p.step t).perform m₁).1 = .error e → later = [] := by
  obtain ⟨_, -, earlier, hearlier⟩ := follows_tasks hdry done m
  rw [hdone] at hearlier
  rw [List.forM_append, perform_bind_ok hdone, List.forM_cons]
  rcases hstep : (p.step t).perform m₁ with ⟨e | u, m₂⟩
  · rw [hstep] at hnew
    rw [perform_bind_error hstep]
    refine ⟨earlier, [], ?_, by simp⟩
    rw [hnew, hearlier.continues.launches]
    simp
  · rw [hstep] at hnew
    obtain ⟨_, -, later, hlater⟩ := follows_tasks hdry rest m₂
    rw [perform_bind_ok hstep]
    refine ⟨earlier, later, ?_, by simp⟩
    rw [hlater.continues.launches, hnew, hearlier.continues.launches]
    simp

/-! ### What becomes of a task -/

/-- The commands of a task behind its first one: they finish what the first one has begun. -/
def finishing (p : Plan) (t : Task) : List Command := (p.commands t).tail

/-- The commands at which a run that stops may leave the task half done.  Any command that builds a
tool may have left its executable, while a clone that fails leaves no repository. -/
def halfway (p : Plan) : Task → List Command
  | .tool tool skip => p.commands (.tool tool skip)
  | t => p.finishing t

end Plan

/-- Whether a task is about a repository. -/
def Task.isRepository : Task → Bool
  | .source | .fork _ => true
  | _ => false

/-- **What becomes of a task `t` of the plan `p` in a run on `m`.** -/
inductive Plan.Attempt (p : Plan) (t : Task) (a : Arguments) (words : List String) (m : Machine) :
    Prop where
  /-- The commands that finish its set-up have all exited with zero, one after the other. -/
  | finished (ls : List Launch) (part : ls <:+: launchesOf words m)
      (commands : ls.map (·.command) = p.finishing t) (endings : ∀ l ∈ ls, l.ending = .exited 0)
  /-- The run has stopped at a command of the task, and behind it what the task looks for is found. -/
  | stopped {p' : Plan} {m₁ : Machine} {t' : Task} {l : Launch}
      (plan : (prepare a).perform { m with log := [] } = (.ok p', m₁)) (task : t' ∈ p'.tasks)
      (own : p'.finishing t' = p.finishing t) (last : (launchesOf words m).getLast? = some l)
      (command : l.command ∈ p'.halfway t') (ending : l.ending ≠ .exited 0)
      (found : p.finds { m with files := l.after } t = true)
  /-- What the task looks for came into being when another task had its turn. -/
  | elsewhere {p' : Plan} {m₁ m₂ : Machine} {done rest : List Task} {t' : Task}
      (plan : (prepare a).perform { m with log := [] } = (.ok p', m₁))
      (tasks : p'.tasks = done ++ t' :: rest)
      (turn : (forM done p'.step).perform m₁ = (.ok (), m₂))
      (other : p'.finishing t' ≠ p.finishing t) (missing : p.finds m₂ t = false)
      (found : p.finds ((p'.step t').perform m₂).2 t = true)

/-! ### What a task looks for -/

end Bootstrap

namespace Command

/-- Whether a command checks out a revision. -/
def checksOut (c : Command) : Bool := ["git", "checkout"].isPrefixOf c.argv

/-- Whether what a command finishes is there: the tool that is built at the revision that it checks
out, or else the repository that it is launched in. -/
def foundOn (c : Command) (m : Machine) : Bool :=
  if c.argv = ["git", "checkout", Tool.godep.revision] then m.findExecutable Tool.godep.name
  else if c.argv = ["git", "checkout", Tool.dep.revision] then m.findExecutable Tool.dep.name
  else m.sees c.directory

end Command

namespace Bootstrap

namespace Plan

/-- What a task finds depends on the files and the environment only. -/
theorem finds_congr (p : Plan) (t : Task) {m m' : Machine} (hfiles : m.files = m'.files)
    (henvironment : m.environment = m'.environment) : p.finds m t = p.finds m' t := by
  cases t with
  | toolchain version => rfl
  | link => rfl
  | base => rfl
  | tool tool skip =>
      simp only [finds, Machine.findExecutable, Machine.candidates, hfiles, henvironment]
  | source => simp only [finds, Machine.sees, hfiles]
  | fork name => simp only [finds, Machine.sees, hfiles]

/-- A tool of a plan is one of the two. -/
theorem tool_of_mem_tasks {p : Plan} {tool : Tool} {skip : Bool} (h : .tool tool skip ∈ p.tasks) :
    tool = .godep ∨ tool = .dep := by
  have h' : (tool = .godep ∧ skip = p.arguments.skipGodep) ∨
      (tool = .dep ∧ skip = p.arguments.skipDep) := by
    simpa [tasks, toolchains, tools, forks] using h
  exact h'.imp And.left And.left

/-- A task that is finished by commands has commands. -/
theorem commands_ne_nil {p : Plan} {t : Task} (h : p.finishing t ≠ []) : p.commands t ≠ [] := by
  intro hnil
  rw [finishing, hnil] at h
  exact h rfl

/-- A command of a task is one that leaves it half done, unless it is the first one for a
repository. -/
theorem mem_halfway {p : Plan} {t : Task} {c : Command} (h : c ∈ p.commands t)
    (hlate : t.isRepository = true → c ∈ p.finishing t) : c ∈ p.halfway t := by
  cases t with
  | toolchain version => simp [commands] at h
  | link => simp [commands] at h
  | base => simp [commands] at h
  | tool tool skip => exact h
  | source => exact hlate rfl
  | fork name => exact hlate rfl

/-- The last launch of a task may leave it half done, unless it is the first one of a repository. -/
theorem halfway_of_carriesOut {α : Type} {p : Plan} {t : Task} {before : List Launch} {l : Launch}
    {r : Except Failure α} {m m' : Machine}
    (h : m.CarriesOut (p.commands t) (before ++ [l]) r m')
    (hfirst : t.isRepository = true → before ≠ []) : l.command ∈ p.halfway t := by
  refine mem_halfway (h.commands.subset (by simp)) fun hrepository => ?_
  cases before with
  | nil => exact absurd rfl (hfirst hrepository)
  | cons k before =>
      obtain ⟨_, hprefix⟩ := h.commands
      simp [finishing, ← hprefix]

/-- **What finishes a task tells what it looks for.** -/
theorem finds_eq_foundOn {p : Plan} {t : Task} (ht : t ∈ p.tasks) {c : Command}
    {cs : List Command} (h : p.finishing t = c :: cs) :
    (∀ m, p.finds m t = c.foundOn m) ∧ t.isRepository = !c.checksOut := by
  cases t with
  | toolchain version => simp [finishing, commands] at h
  | link => simp [finishing, commands] at h
  | base => simp [finishing, commands] at h
  | tool tool skip =>
      cases skip with
      | true => simp [finishing, commands] at h
      | false =>
          obtain ⟨rfl, -⟩ : ⟨["git", "checkout", tool.revision], _⟩ = c ∧ _ = cs :=
            List.cons_eq_cons.1 h
          rcases tool_of_mem_tasks ht with rfl | rfl <;> exact ⟨fun m => rfl, rfl⟩
  | source =>
      cases hskip : p.arguments.skipGodep with
      | false => simp [finishing, commands, sourceCommands, hskip] at h
      | true =>
          obtain ⟨rfl, -⟩ : ⟨["bash", "-x", "hack/godep-restore.sh"], _⟩ = c ∧ [] = cs := by
            simpa [finishing, commands, sourceCommands, hskip] using h
          exact ⟨fun m => rfl, rfl⟩
  | fork name =>
      obtain ⟨rfl, -⟩ : ⟨["git", "config", "user.name", _], _⟩ = c ∧ _ = cs :=
        List.cons_eq_cons.1 h
      exact ⟨fun m => rfl, rfl⟩

/-- Tasks that are finished alike look for the same, also if their plans differ. -/
theorem finds_of_finishing {p p' : Plan} {t t' : Task} (ht : t ∈ p.tasks) (ht' : t' ∈ p'.tasks)
    (h : p'.finishing t' = p.finishing t) (hne : p.finishing t ≠ []) :
    (∀ m, p'.finds m t' = p.finds m t) ∧ t'.isRepository = t.isRepository := by
  obtain ⟨c, cs, hc⟩ := List.exists_cons_of_ne_nil hne
  obtain ⟨hfinds, hkind⟩ := finds_eq_foundOn ht hc
  obtain ⟨hfinds', hkind'⟩ := finds_eq_foundOn ht' (h.trans hc)
  exact ⟨fun m => by rw [hfinds, hfinds'], by rw [hkind, hkind']⟩

end Plan

/-! ### One run -/

section

variable {words : List String} {a : Arguments} (hread : Arguments.read words = .run a)
  (hdry : a.dryRun = false)
include hread hdry

/-- The launches of a run that has a plan, around those of one task. -/
theorem launchesOf_of_turn {m m₀ m₁ : Machine} {p : Plan} {t : Task} {done rest : List Task}
    {new : List Launch} (hplan : (prepare a).perform { m with log := [] } = (.ok p, m₀))
    (htasks : p.tasks = done ++ t :: rest) (hdone : (forM done p.step).perform m₀ = (.ok (), m₁))
    (hnew : ((p.step t).perform m₁).2.launches = m₁.launches ++ new) :
    ∃ earlier later, launchesOf words m = earlier ++ new ++ later ∧
      ∀ e, ((p.step t).perform m₁).1 = .error e → later = [] := by
  have hdry' : p.arguments.dryRun = false := by rw [(plan_of_prepare hplan).1, hdry]
  obtain ⟨records, hrun⟩ := (run_of_plan hread hplan).1
  obtain ⟨_, rfl⟩ := machine_of_prepare hplan
  obtain ⟨earlier, later, hlaunches, hlast⟩ := Plan.launches_of_forM hdry' rest hdone hnew
  refine ⟨earlier, later, ?_, hlast⟩
  rw [launchesOf, hrun, htasks, hlaunches, List.drop_left]

/-- **A task at its turn does not find what it looks for.**  If it succeeds then its commands have
finished the set-up; if it fails and its thing is there afterwards then it has been left half
done. -/
theorem attempt_of_turn {m m₀ m₁ : Machine} {p p' : Plan} {t t' : Task} {done rest : List Task}
    (ht : t ∈ p.tasks) (hne : p.finishing t ≠ [])
    (hclones : ∀ l ∈ launchesOf words m, t.isRepository = true →
      p.finds { m with files := l.before } t = false →
      p.finds { m with files := l.after } t = true → l.ending = .exited 0)
    (hplan : (prepare a).perform { m with log := [] } = (.ok p', m₀))
    (htasks : p'.tasks = done ++ t' :: rest)
    (hdone : (forM done p'.step).perform m₀ = (.ok (), m₁))
    (hown : p'.finishing t' = p.finishing t) (hmissing : p.finds m₁ t = false)
    (hturn : ((p'.step t').perform m₁).1 = .ok () ∨
      p.finds ((p'.step t').perform m₁).2 t = true) :
    p.Attempt t a words m := by
  have hdry' : p'.arguments.dryRun = false := by rw [(plan_of_prepare hplan).1, hdry]
  have ht' : t' ∈ p'.tasks := by simp [htasks]
  obtain ⟨hfinds, hkind⟩ := Plan.finds_of_finishing ht ht' hown hne
  have henvironment : m₁.environment = m.environment := by
    obtain ⟨_, -, _, hbefore⟩ := Plan.follows_tasks hdry' done m₀
    rw [hdone] at hbefore
    obtain ⟨_, rfl⟩ := machine_of_prepare hplan
    exact hbefore.continues.environment
  have hcommands : p'.commands t' ≠ [] := Plan.commands_ne_nil (by rwa [hown])
  rcases Plan.executes_step hdry' hcommands (by rw [hfinds, hmissing]) with hexec | ⟨e, he⟩
  -- it has not even looked, and nothing has happened
  case inr =>
    rw [he] at hturn
    rcases hturn with hok | hfound
    · simp at hok
    · rw [hmissing] at hfound
      simp at hfound
  obtain ⟨new, hnew, hchain, hfails⟩ := hexec
  obtain ⟨earlier, later, hlaunches, hlast⟩ :=
    launchesOf_of_turn hread hdry hplan htasks hdone hnew.continues.launches
  rcases hstep : (p'.step t').perform m₁ with ⟨e | u, m₂⟩
  · rw [hstep] at hturn hnew hchain hfails hlast
    have hfound : p.finds m₂ t = true := hturn.resolve_left (by simp)
    -- the launch that has failed is the last one of the run
    obtain ⟨l, hl, hfail⟩ := hfails e rfl
    obtain ⟨before, after, rfl⟩ := List.append_of_mem hl
    obtain ⟨rfl, -, -⟩ := hnew.stops before l after e rfl hfail
    obtain rfl : later = [] := hlast e rfl
    have hending : l.ending ≠ .exited 0 := by
      intro hzero
      rw [Launch.failure?_eq_none_iff.2 hzero] at hfail
      simp at hfail
    have hafter : p.finds { m with files := l.after } t = true := by
      rw [← hfound]
      refine p.finds_congr t hchain.eq_after.symm ?_
      rw [hnew.continues.environment, henvironment]
    have hcommand : l.command ∈ p'.halfway t' := by
      refine Plan.halfway_of_carriesOut hnew ?_
      -- the first command of a repository leaves nothing behind when it fails
      rintro hrepository rfl
      have hbefore : p.finds { m with files := l.before } t = false := by
        rw [← hmissing]
        exact p.finds_congr t hchain.1 henvironment.symm
      have hl : l ∈ launchesOf words m := by simp [hlaunches]
      exact hending (hclones l hl (hkind ▸ hrepository) hbefore hafter)
    exact .stopped hplan ht' hown (by simp [hlaunches]) hcommand hending hafter
  · rw [hstep] at hnew
    refine .finished new.tail ?_ ?_ fun l hl => hnew.exited_of_ok l (List.mem_of_mem_tail hl)
    · rw [hlaunches]
      exact (List.tail_suffix new).isInfix.trans (List.infix_append earlier new later)
    · rw [List.map_tail, hnew.complete u rfl, ← hown, Plan.finishing]

/-- **One run, for a task whose thing is missing**: the run attempts it, or its thing is still
missing; and a run with a plan that has the task attempts it if it returns zero. -/
theorem attempt_or_missing {m : Machine} {p : Plan} {t : Task} (ht : t ∈ p.tasks)
    (hne : p.finishing t ≠ []) (hmissing : p.finds m t = false)
    (hclones : ∀ l ∈ launchesOf words m, t.isRepository = true →
      p.finds { m with files := l.before } t = false →
      p.finds { m with files := l.after } t = true → l.ending = .exited 0) :
    p.Attempt t a words m ∨ p.finds (run words m).2 t = false ∧
      ∀ m₀, (prepare a).perform { m with log := [] } = (.ok p, m₀) →
        (run words m).1.exit ≠ .returned 0 := by
  rcases hplan : (prepare a).perform { m with log := [] } with ⟨e | p', m₀⟩
  -- without a plan nothing has happened
  · refine Or.inr ⟨?_, by simp⟩
    obtain ⟨_, rfl⟩ := machine_of_prepare hplan
    rw [run_machine hread, setUp, perform_bind_error hplan, ← hmissing]
    exact p.finds_congr t rfl rfl
  obtain ⟨⟨records, hrun⟩, hzero⟩ := run_of_plan hread hplan
  have hstart : p.finds m₀ t = false := by
    obtain ⟨_, rfl⟩ := machine_of_prepare hplan
    rw [← hmissing]
    exact p.finds_congr t rfl rfl
  have hend : p.finds (run words m).2 t = p.finds ((forM p'.tasks p'.step).perform m₀).2 t := by
    rw [hrun]
    exact p.finds_congr t rfl rfl
  rcases exists_turning_of_forM (fun m => p.finds m t = true) p'.step p'.tasks (m := m₀)
    (by simp [hstart]) with ⟨done, t', rest, m₁, htasks, hdone, hnot, hfound⟩ | ⟨hnot, hnever⟩
  -- it has come into being in one task: this one, or another one
  · have hmissing₁ : p.finds m₁ t = false := by simpa using hnot
    by_cases hown : p'.finishing t' = p.finishing t
    · exact Or.inl (attempt_of_turn hread hdry ht hne hclones hplan htasks hdone hown hmissing₁
        (Or.inr hfound))
    · exact Or.inl (.elsewhere hplan htasks hdone hown hmissing₁ hfound)
  -- it is still missing, so that its own task has not succeeded unless it has had its turn
  · by_cases hlast : p' = p ∧ (run words m).1.exit = .returned 0
    · obtain ⟨rfl, hexit⟩ := hlast
      obtain ⟨done, rest, htasks⟩ := List.append_of_mem ht
      have hok := hzero hexit
      rw [htasks] at hok
      obtain ⟨m₁, hdone, hturn⟩ := turn_of_forM_ok hok
      have hmissing₁ : p'.finds m₁ t = false := by simpa using hnever done t rest m₁ htasks hdone
      exact Or.inl (attempt_of_turn hread hdry ht hne hclones hplan htasks hdone rfl hmissing₁
        (Or.inl hturn))
    · refine Or.inr ⟨?_, fun m₁ hplan' hexit => hlast ⟨?_, hexit⟩⟩
      · rw [hend]
        simpa using hnot
      · simpa using (congrArg Prod.fst hplan')
end

/-- **Any number of runs.**  If the last of some runs with the same command line returns zero, then
each thing that was missing at first and that its plan asks for has been attempted in one of them:
it has been set up completely, a run has stopped while it was half done, or what is looked for came
into being elsewhere. -/
theorem retries_settle_tasks {words : List String} {a : Arguments}
    (hread : Arguments.read words = .run a) (hdry : a.dryRun = false) {m m₀ : Machine} {n : Nat}
    {p : Plan} (hplan : (prepare a).perform { retried words m n with log := [] } = (.ok p, m₀))
    (hreturned : (run words (retried words m n)).1.exit = .returned 0) {t : Task} (ht : t ∈ p.tasks)
    (hmissing : p.finds m t = false)
    (hclones : ∀ i ≤ n, ∀ l ∈ launchesOf words (retried words m i), t.isRepository = true →
      p.finds { m with files := l.before } t = false →
      p.finds { m with files := l.after } t = true → l.ending = .exited 0) :
    ∃ i ≤ n, p.Attempt t a words (retried words m i) := by
  by_cases hne : p.finishing t = []
  -- nothing is left to be finished
  · exact ⟨0, Nat.zero_le n, .finished [] List.nil_infix (by simp [hne]) (by simp)⟩
  have hone := fun i (hi : i ≤ n) (hm : p.finds (retried words m i) t = false) =>
    attempt_or_missing hread hdry (m := retried words m i) ht hne hm fun l hl hrepository hb ha => by
      have henvironment := environment_retried hread hdry m i
      refine hclones i hi l hl hrepository ?_ ?_
      · rw [← hb]
        exact p.finds_congr t rfl henvironment.symm
      · rw [← ha]
        exact p.finds_congr t rfl henvironment.symm
  -- until a run attempts it, it is missing
  have hbefore : ∀ i ≤ n, (∃ j < i, p.Attempt t a words (retried words m j)) ∨
      p.finds (retried words m i) t = false := by
    intro i hi
    induction i with
    | zero => exact Or.inr hmissing
    | succ i ih =>
        rcases ih (by omega) with ⟨j, hj, hattempt⟩ | hm
        · exact Or.inl ⟨j, by omega, hattempt⟩
        · rcases hone i (by omega) hm with hattempt | ⟨hm', -⟩
          · exact Or.inl ⟨i, by omega, hattempt⟩
          · rw [retried_succ]
            exact Or.inr hm'
  rcases hbefore n (Nat.le_refl n) with ⟨j, hj, hattempt⟩ | hm
  · exact ⟨j, Nat.le_of_lt hj, hattempt⟩
  · rcases hone n (Nat.le_refl n) hm with hattempt | ⟨-, hnot⟩
    · exact ⟨n, Nat.le_refl n, hattempt⟩
    · exact absurd hreturned (hnot m₀ hplan)

namespace Sample

/-- A command line that asks for repositories only. -/
def bare : List String := words ++ ["--skip-godep", "--skip-dep"]

/-- What it asks for. -/
def bareArguments : Arguments := { arguments with skipGodep := true, skipDep := true }

/-- Behaves as a small Git: a clone makes the directory of its repository, and nothing else changes
a file.  The name of a committer can be set from the second time on only. -/
def faltering : Behaviour := fun ls c fs =>
  match c.argv with
  | ["git", "clone", url] =>
      let repo : Location :=
        ["home", "go", "src", "github.com", "pub", String.ofList ((Text.pieces '/' url.toList).getLastD [])]
      (.exited 0, { fs with tree := fs.tree.put repo .directory })
  | ["git", "config", "user.name", _] =>
      (.exited (if ls.any fun l => l.command = c then 0 else 1), fs)
  | _ => (.exited 0, fs)

/-- A machine with this behaviour, whose rules ask for two forks; one of them has the name of the
source repository. -/
def forgetful : Machine := { machine with
  files := ⟨⟨[(["home"], .directory),
    (["rules"], .file "rules:\n- destination: widgets\n- destination: fork\n".toUTF8 false)]⟩, []⟩
  behaviour := faltering }

/-- The plan of its runs. -/
def forgetfulPlan : Plan where
  arguments := bareArguments
  environment := machine.environment
  config := { sourceOrg := "acme", sourceRepo := "widgets", targetOrg := "pub",
              githubHost := "github.com", basePackage := "github.com/pub", rulesFile := "/rules" }
  layout := ⟨Path.ofString "/home/go", "github.com/pub"⟩
  rules := [⟨"widgets", []⟩, ⟨"fork", []⟩]

/-- Whether a launch leaves the files alone, or is a clone that exits with zero and removes
nothing. -/
def isGentle (l : Launch) : Bool :=
  l.after = l.before || (["git", "clone"].isPrefixOf l.command.argv && l.ending = .exited 0 &&
    l.before.tree.entries.all (· ∈ l.after.tree.entries))

/-- Two runs on this machine. -/
theorem retried_forgetful :
    (run bare forgetful).1.exit = .returned 2 ∧
      (run bare (retried bare forgetful 1)).1.exit = .returned 0 ∧
      ((prepare bareArguments).perform
        { retried bare forgetful 1 with log := [] }).1.toOption = some forgetfulPlan ∧
      (∀ i < 2, (launchesOf bare (retried bare forgetful i)).all isGentle) ∧
      ∀ i < 2, ∀ l ∈ launchesOf bare (retried bare forgetful i),
        ["git", "config", "user.email"].isPrefixOf l.command.argv = false := by
  decide +kernel

end Sample

/-- The first run stops behind the clone of the fork, and the second one returns zero. -/
theorem retries_settle_tasks_sample :
    (run Sample.bare (retried Sample.bare Sample.forgetful 1)).1.exit = .returned 0 ∧
      Task.fork "fork" ∈ Sample.forgetfulPlan.tasks ∧
      Sample.forgetfulPlan.finds Sample.forgetful (.fork "fork") = false ∧
      ∃ i ≤ 1, Sample.forgetfulPlan.Attempt (.fork "fork") Sample.bareArguments Sample.bare
        (retried Sample.bare Sample.forgetful i) := by
  obtain ⟨-, hreturned, hprepared, hgentle, -⟩ := Sample.retried_forgetful
  have hread : Arguments.read Sample.bare = .run Sample.bareArguments := by decide +kernel
  have htask : Task.fork "fork" ∈ Sample.forgetfulPlan.tasks := by decide +kernel
  have hmissing : Sample.forgetfulPlan.finds Sample.forgetful (.fork "fork") = false := by
    decide +kernel
  refine ⟨hreturned, htask, hmissing, ?_⟩
  refine retries_settle_tasks hread rfl (perform_of_toOption hprepared) hreturned htask hmissing
    fun i hi l hl _ hbefore hafter => ?_
  have hl := List.all_eq_true.1 (hgentle i (by omega)) l hl
  simp only [Sample.isGentle, Bool.or_eq_true, Bool.and_eq_true, decide_eq_true_eq] at hl
  rcases hl with hsame | ⟨⟨-, hzero⟩, -⟩
  · rw [hsame, hbefore] at hafter
    simp at hafter
  · exact hzero

/-- **A run that is tried again may return zero and leave work undone**: here one fork is cloned by a
run that stops behind the clone, and the other one as the source repository, and the committer of
neither is ever set completely. -/
theorem retries_leave_work :
    Arguments.read Sample.bare = .run Sample.bareArguments ∧
      Sample.bareArguments.dryRun = false ∧
      (∀ t ∈ Sample.forgetfulPlan.tasks,
        Sample.forgetfulPlan.finds Sample.forgetful t = false) ∧
      ((prepare Sample.bareArguments).perform
        { retried Sample.bare Sample.forgetful 1 with log := [] }).1.toOption =
          some Sample.forgetfulPlan ∧
      Rules.destinations Sample.forgetfulPlan.rules = ["widgets", "fork"] ∧
      (run Sample.bare Sample.forgetful).1.exit = .returned 2 ∧
      (run Sample.bare (retried Sample.bare Sample.forgetful 1)).1.exit = .returned 0 ∧
      (∀ i < 2, (launchesOf Sample.bare (retried Sample.bare Sample.forgetful i)).all
        Sample.isGentle) ∧
      ∀ i < 2, ∀ l ∈ launchesOf Sample.bare (retried Sample.bare Sample.forgetful i),
        ["git", "config", "user.email"].isPrefixOf l.command.argv = false := by
  obtain ⟨hfirst, hsecond, hprepared, hgentle, hnever⟩ := Sample.retried_forgetful
  refine ⟨by decide +kernel, rfl, by decide +kernel, hprepared, rfl, hfirst, hsecond, hgentle,
    hnever⟩

end Bootstrap

end Provision
