/-
**Success means that the clones are there.**

A run that returns zero has found each repository or has cloned it.  Where commands are launched in
directories only, remove nothing, and leave the clones that they make, the repositories are directories
when the run returns, with two exceptions.  The source repository is only tested for: whatever is in
its place is taken for it.  And removing a lock that is a link may take away what a path leads through.

Main definitions:

* `Provision.FileSystem.KeepsDirectories`, `Provision.FileSystem.Persists` — what leads to a directory
  still does, and to the same one;
* `Provision.Launch.Preserves`, `Provision.Bootstrap.Plan.Cooperates` — **commands that do as they
  should**.

Main results:

* `Provision.FileSystem.persists_cleared` — removing what is no link takes no directory away;
* `Provision.Bootstrap.Plan.cloned_of_source`, `Provision.Bootstrap.Plan.cloned_of_fork` — one
  repository, and those before it;
* `Provision.Bootstrap.success_means_clones` — **all repositories are directories**;
* `Provision.Bootstrap.success_without_clones` — the two exceptions.
-/

import Provision.Proofs.Reruns
import Provision.Proofs.Retries

set_option relaxedAutoImplicit false
set_option autoImplicit false

namespace Provision

open Step

/-! ### Directories that stay -/

namespace FileSystem

variable {fs fs' fs'' : FileSystem} {text : String}

/-- **Where a text leads to a directory, it still leads to the same directory**, be it by a link. -/
def KeepsDirectories (fs fs' : FileSystem) : Prop :=
  ∀ text there, fs.resolve text true = .ok there → fs.tree.get? there = some .directory →
    fs'.resolve text true = .ok there ∧ fs'.tree.get? there = some .directory

namespace KeepsDirectories

theorem refl (fs : FileSystem) : fs.KeepsDirectories fs := fun _ _ hresolve hget => ⟨hresolve, hget⟩

theorem trans (h : KeepsDirectories fs fs') (h' : KeepsDirectories fs' fs'') :
    KeepsDirectories fs fs'' := by
  intro text there hresolve hget
  obtain ⟨hresolve', hget'⟩ := h text there hresolve hget
  exact h' text there hresolve' hget'

theorem stat (h : KeepsDirectories fs fs') (hstat : fs.stat text = .ok .directory) :
    fs'.stat text = .ok .directory := by
  obtain ⟨there, hresolve, hget⟩ := get?_of_stat hstat
  obtain ⟨hresolve', hget'⟩ := h text there hresolve hget
  exact stat_of_get? hresolve' hget'

end KeepsDirectories

/-- **Paths lead to the same directories as long as only files are gone.** -/
theorem keepsDirectories_of_kept {gone : Location → Prop}
    (h : fs.tree.Kept gone fs'.tree) (hdirectory : fs'.workingDirectory = fs.workingDirectory)
    (hgone : ∀ q, gone q → fs.tree.get? q ≠ some .directory) : fs.KeepsDirectories fs' := by
  intro text there hresolve hget
  obtain ⟨start, names, henter, hwalk⟩ := exists_enter_of_resolve hresolve
  have hwalk' := (walk_of_kept h hwalk).resolve_right fun hlost => hgone there hlost hget
  exact ⟨resolve_of_walk (by rw [enter_congr hdirectory, henter]) hwalk', h.directory hget⟩

/-- **What leads to a directory still does.** -/
def Persists (fs fs' : FileSystem) : Prop :=
  ∀ text, fs.stat text = .ok .directory → fs'.stat text = .ok .directory

theorem Persists.refl (fs : FileSystem) : fs.Persists fs := fun _ => id

theorem Persists.trans (h : fs.Persists fs') (h' : fs'.Persists fs'') : fs.Persists fs'' :=
  fun text hstat => h' text (h text hstat)

theorem persists_of_kept {gone : Location → Prop} (h : fs.tree.Kept gone fs'.tree)
    (hdirectory : fs'.workingDirectory = fs.workingDirectory)
    (hgone : ∀ q, gone q → fs.tree.get? q ≠ some .directory) : fs.Persists fs' :=
  fun _ => (keepsDirectories_of_kept h hdirectory hgone).stat

/-- **Removing what is no link takes no directory away.** -/
theorem persists_cleared (fs : FileSystem) {text : String}
    (h : ∀ target, fs.lstat text ≠ .ok (.link target)) : fs.Persists (fs.cleared text) := by
  rcases cleared_cases fs text with hsame | ⟨here, name, e, hleads, hget, he, hcleared⟩
  · rw [hsame]
    exact .refl fs
  · have hlook : fs.lstat text = .ok e := hleads.lstat_eq hget
    have hfile : e.isFile = true := by
      cases e with
      | directory => exact absurd rfl he
      | file content executable => rfl
      | link target => exact absurd hlook (h target)
    rw [hcleared]
    refine persists_of_kept (Tree.kept_erase hget hfile) rfl fun q hq => ?_
    rw [hq, hget]
    simpa using he

end FileSystem

namespace Launch

/-- **A command that removes nothing and replaces nothing.** -/
structure Preserves (l : Launch) : Prop where
  kept : l.before.tree.Kept (fun _ => False) l.after.tree
  workingDirectory : l.after.workingDirectory = l.before.workingDirectory

theorem Chain.persists {fs fs' : FileSystem} {ls : List Launch} (h : Chain fs ls fs')
    (hls : ∀ l ∈ ls, l.Preserves) : fs.Persists fs' :=
  h.relates .refl (fun _ _ _ => .trans) fun l hl =>
    FileSystem.persists_of_kept (hls l hl).kept (hls l hl).workingDirectory fun _ => False.elim

end Launch

namespace Bootstrap

namespace Plan

variable {p : Plan} {m m' : Machine} {name : String}

/-! ### Commands that do as they should -/

/-- The command that clones a repository of an organisation. -/
def cloning (p : Plan) (organisation name : String) : List String :=
  ["git", "clone", p.config.address organisation name]

/-- **A command that does as it should**: it removes and replaces nothing, succeeds in a directory
only, and leaves the repository that it has cloned. -/
structure Cooperates (p : Plan) (l : Launch) : Prop where
  preserves : l.Preserves
  /-- It succeeds in a directory only. -/
  directory : l.ending = .exited 0 →
    l.before.stat l.command.directory.toString = .ok .directory
  source : l.command.argv = p.cloning p.config.sourceOrg p.config.sourceRepo →
    l.ending = .exited 0 → l.after.stat (p.layout.repoDir p.config.sourceRepo).toString = .ok .directory
  fork : ∀ name ∈ Rules.destinations p.rules,
    l.command.argv = p.cloning p.config.targetOrg name → l.ending = .exited 0 →
      l.after.stat (p.layout.repoDir name).toString = .ok .directory

/-- **A command behind which no lock is a link**, if it is the one before a lock is removed. -/
def Unlinked (p : Plan) (l : Launch) : Prop :=
  ∀ name ∈ Rules.destinations p.rules, l.command ∈ p.refreshCommands name →
    ∀ target, l.after.lstat (Git.indexLock (p.layout.repoDir name)).toString ≠ .ok (.link target)

/-! ### One repository -/

/-- Behind its first launch, which has cloned it, a repository stays. -/
theorem stat_of_cloned {fs fs' : FileSystem} {ls : List Launch} {c : Command} {cs : List Command}
    (hchain : Launch.Chain fs ls fs') (hls : ∀ l ∈ ls, l.Preserves)
    (hcommands : ls.map (·.command) = c :: cs) {text : String}
    (hclone : ∀ l ∈ ls, l.command = c → l.after.stat text = .ok .directory) :
    fs'.stat text = .ok .directory := by
  cases ls with
  | nil => simp at hcommands
  | cons l ls =>
      obtain ⟨hc, -⟩ := List.cons.inj hcommands
      exact hchain.2.persists (fun k hk => hls k (by simp [hk])) _ (hclone l (by simp) hc)

section

variable (hdry : p.arguments.dryRun = false)
include hdry

/-- A task that succeeds has launched all its commands, and all have exited with zero. -/
theorem launched_of_ok {t : Task} (h : (p.step t).perform m = (.ok (), m')) :
    p.Block m t (((p.step t).launched m).map (·.command)) ∧
      ∀ l ∈ (p.step t).launched m, l.ending = .exited 0 := by
  obtain ⟨wanted, hblock, new, hnew⟩ := follows_step hdry t m
  rw [launched_eq hnew.continues.launches]
  rw [h] at hnew
  rw [hnew.complete () rfl]
  exact ⟨hblock, hnew.exited_of_ok⟩

/-- **The source repository is a directory behind its task**, if what is found in its place is one. -/
theorem cloned_of_source (hl : ∀ l ∈ (p.step .source).launched m, p.Cooperates l)
    (hfound : ∀ e, m.files.stat (p.layout.repoDir p.config.sourceRepo).toString = .ok e →
      e = .directory)
    (h : (p.step .source).perform m = (.ok (), m')) :
    m'.files.stat (p.layout.repoDir p.config.sourceRepo).toString = .ok .directory := by
  obtain ⟨new, hlaunches, hchain⟩ := delegates_step hdry (t := .source) (by simp) m
  obtain ⟨hblock, hexited⟩ := launched_of_ok hdry h
  rw [launched_eq hlaunches] at hl hblock hexited
  rw [h] at hchain
  have hcommands : new.map (·.command) =
      if m.sees (p.layout.repoDir p.config.sourceRepo) then [] else p.sourceCommands := hblock
  split at hcommands
  · next hsees =>
    obtain rfl := List.map_eq_nil_iff.1 hcommands
    obtain ⟨e, hstat⟩ := Machine.exists_stat_of_sees hsees
    have hsame : m'.files = m.files := hchain
    rw [hsame, hstat, hfound e hstat]
  · exact stat_of_cloned hchain (fun l hmem => (hl l hmem).preserves) hcommands fun l hmem hc =>
      (hl l hmem).source (by rw [hc]; rfl) (hexited l hmem)

/-- **A fork is a directory behind its task**, and so are the repositories before it. -/
theorem cloned_of_fork (hname : name ∈ Rules.destinations p.rules)
    (hl : ∀ l ∈ (p.step (.fork name)).launched m, p.Cooperates l ∧ p.Unlinked l)
    (h : (p.step (.fork name)).perform m = (.ok (), m')) :
    m.files.Persists m'.files ∧
      m'.files.stat (p.layout.repoDir name).toString = .ok .directory := by
  obtain ⟨r, m₁, new, fs, hstep, hlaunches, hchain, hcases⟩ := fork_cases hdry name m
  obtain ⟨rfl, rfl⟩ : r = .ok () ∧ m₁ = m' := by simpa [h] using hstep.symm
  obtain ⟨hblock, hexited⟩ := launched_of_ok hdry h
  rw [launched_eq (by rw [hstep]; exact hlaunches)] at hl hblock hexited
  have hpersists := hchain.persists fun l hmem => (hl l hmem).1.preserves
  have hcommands : new.map (·.command) =
      if m.sees (p.layout.repoDir name) then p.refreshCommands name else p.forkCommands name := hblock
  by_cases hsees : m.sees (p.layout.repoDir name) = true
  -- its address was set in its directory, and behind that its lock may have been removed
  · rw [if_pos hsees] at hcommands
    obtain ⟨l, rfl, hc⟩ := List.map_eq_singleton_iff.1 hcommands
    obtain ⟨hl', hunlinked⟩ := hl l (by simp)
    obtain ⟨hbefore, rfl⟩ : l.before = m.files ∧ fs = l.after := hchain
    have hdirectory : m.files.stat (p.layout.repoDir name).toString = .ok .directory := by
      have := hl'.directory (hexited l (by simp))
      rwa [hbefore, hc] at this
    have hend : l.after.Persists m₁.files := by
      rcases hcases with hsame | ⟨-, -, hcleared⟩
      · rw [hsame]
        exact .refl _
      · rw [hcleared]
        refine FileSystem.persists_cleared _ (hunlinked name hname ?_)
        rw [hc]
        exact List.mem_singleton.2 rfl
    exact ⟨hpersists.trans hend, hend _ (hpersists _ hdirectory)⟩
  · rw [if_neg hsees] at hcommands
    obtain hsame : m₁.files = fs := hcases.resolve_right fun hcleared => hsees hcleared.1
    rw [hsame]
    exact ⟨hpersists, stat_of_cloned hchain (fun l hmem => (hl l hmem).1.preserves) hcommands
      fun l hmem hc => (hl l hmem).1.fork name hname (by rw [hc]; rfl) (hexited l hmem)⟩

/-! ### All repositories -/

/-- **Forks are directories behind their tasks**, and so are the repositories before them. -/
theorem cloned_of_forks {names : List String} (hnames : ∀ name ∈ names, name ∈ Rules.destinations p.rules)
    (hl : ∀ l ∈ (forM (names.map Task.fork) p.step).launched m, p.Cooperates l ∧ p.Unlinked l)
    (h : (forM (names.map Task.fork) p.step).perform m = (.ok (), m')) :
    m.files.Persists m'.files ∧
      ∀ name ∈ names, m'.files.stat (p.layout.repoDir name).toString = .ok .directory := by
  induction names generalizing m with
  | nil =>
      obtain rfl : m = m' := by simpa using h
      exact ⟨.refl _, by simp⟩
  | cons name names ih =>
      rw [List.map_cons] at hl h
      have hperform := h
      rw [List.forM_cons] at hperform
      obtain ⟨_, m₁, hstep, hrest⟩ := perform_bind_eq_ok.1 hperform
      obtain ⟨hfirst, hdirectory⟩ := cloned_of_fork hdry (hnames name (by simp))
        (fun l hmem => hl l (mem_launched_cons hdry (Or.inl hmem))) hstep
      obtain ⟨hothers, hdirectories⟩ := ih (fun n hn => hnames n (by simp [hn]))
        (fun l hmem => hl l (mem_launched_cons hdry (Or.inr ⟨m₁, hstep, hmem⟩))) hrest
      refine ⟨hfirst.trans hothers, List.forall_mem_cons.2 ⟨hothers _ hdirectory, hdirectories⟩⟩

/-- The tasks before the source repository. -/
def preliminaries (p : Plan) : List Task := p.toolchains ++ ([.link, .base] ++ p.tools)

/-- **All repositories are directories** once all tasks have succeeded. -/
theorem cloned_of_tasks (hl : ∀ l ∈ (forM p.tasks p.step).launched m, p.Cooperates l ∧ p.Unlinked l)
    (hfound : ∀ m₁, (forM p.preliminaries p.step).perform m = (.ok (), m₁) →
      ∀ e, m₁.files.stat (p.layout.repoDir p.config.sourceRepo).toString = .ok e → e = .directory)
    (h : (forM p.tasks p.step).perform m = (.ok (), m')) :
    ∀ name ∈ p.repositories, m'.files.stat (p.layout.repoDir name).toString = .ok .directory := by
  have hparts : p.tasks = p.preliminaries ++ (.source :: p.forks) := by
    simp [tasks, preliminaries]
  rw [hparts] at hl
  have hperform := h
  rw [hparts, List.forM_append] at hperform
  obtain ⟨_, m₁, hfirst, hperform⟩ := perform_bind_eq_ok.1 hperform
  rw [List.forM_cons] at hperform
  obtain ⟨_, m₂, hsource, hforks⟩ := perform_bind_eq_ok.1 hperform
  have hlast : ∀ l ∈ (forM (.source :: p.forks) p.step).launched m₁, p.Cooperates l ∧ p.Unlinked l :=
    fun l hmem => hl l (mem_launched_append hdry (Or.inr ⟨m₁, hfirst, hmem⟩))
  have hcloned := cloned_of_source hdry
    (fun l hmem => (hlast l (mem_launched_cons hdry (Or.inl hmem))).1) (hfound m₁ hfirst) hsource
  obtain ⟨hpersists, hdirectories⟩ := cloned_of_forks hdry (fun _ => id)
    (fun l hmem => hlast l (mem_launched_cons hdry (Or.inr ⟨m₂, hsource, hmem⟩))) hforks
  exact List.forall_mem_cons.2 ⟨hpersists _ hcloned, hdirectories⟩

end

end Plan

/-! ### A run -/

/-- **If a run returns zero then all repositories are directories**, if its commands do as they should,
what is found in the place of the source repository is a directory, and no lock that is removed is a
link. -/
theorem success_means_clones {words : List String} {a : Arguments}
    (hread : Arguments.read words = .run a) (hdry : a.dryRun = false) {m m₁ : Machine} {p : Plan}
    (hplan : (prepare a).perform { m with log := [] } = (.ok p, m₁))
    (hl : ∀ l ∈ launchesOf words m, p.Cooperates l ∧ p.Unlinked l)
    (hfound : ∀ m₂, (forM p.preliminaries p.step).perform m₁ = (.ok (), m₂) →
      ∀ e, m₂.files.stat (p.layout.repoDir p.config.sourceRepo).toString = .ok e → e = .directory)
    (hreturned : (run words m).1.exit = .returned 0) :
    ∀ name ∈ p.repositories,
      (run words m).2.files.stat (p.layout.repoDir name).toString = .ok .directory := by
  have hdry' : p.arguments.dryRun = false := by rw [(plan_of_prepare hplan).1, hdry]
  obtain ⟨⟨records, hrun⟩, hok⟩ := run_of_plan hread hplan
  rw [launchesOf_of_plan hread hplan] at hl
  rcases hperform : (forM p.tasks p.step).perform m₁ with ⟨r, m'⟩
  rw [hperform] at hok hrun
  obtain rfl : r = .ok () := hok hreturned
  have hcloned := Plan.cloned_of_tasks hdry' hl hfound hperform
  rw [hrun]
  exact hcloned

namespace Sample

/-- The machine whose commands put something in place, with other rules and with a workspace in which
something is there. -/
def furnished (rules : String) (there : List (Location × Entry)) : Machine := { working with
  files := ⟨⟨[(["home"], .directory), (["rules"], .file rules.toUTF8 false),
    (["home", "go"], .directory), (["home", "go", "src"], .directory),
    (["home", "go", "src", "github.com"], .directory),
    (["home", "go", "src", "github.com", "pub"], .directory)] ++ there⟩, []⟩ }

/-- The plan for repositories only. -/
def barePlan (rules : List RepositoryRule) : Plan := { workingPlan with
  arguments := bareArguments
  rules := rules }

/-- Whether a launch has done as it should. -/
def isCooperative (p : Plan) (l : Launch) : Bool :=
  isProductive l && (l.before.stat l.command.directory.toString).toOption = some .directory &&
    p.repositories.all fun name =>
      !(l.command.argv = p.cloning p.config.sourceOrg name ||
          l.command.argv = p.cloning p.config.targetOrg name) ||
        (l.after.stat (p.layout.repoDir name).toString).toOption = some .directory

/-- What such a launch puts in place replaces nothing. -/
theorem preserves_of_isProductive {l : Launch} (h : isProductive l = true) : l.Preserves := by
  obtain ⟨-, hsame | ⟨place, e, hnone, -, hafter⟩⟩ := cases_of_isProductive h
  · exact ⟨by rw [hsame]; exact (Tree.Gains.refl _).kept, by rw [hsame]⟩
  have hroot := Tree.ne_root_of_missing hnone
  refine ⟨Tree.Gains.kept fun q hq => ?_, by rw [hafter]⟩
  rw [hafter, Tree.get?_put _ hroot, if_neg]
  rintro rfl
  simp [hnone] at hq

theorem cooperates_of_isCooperative {p : Plan} {l : Launch} (h : isCooperative p l = true) :
    p.Cooperates l := by
  simp only [isCooperative, Bool.and_eq_true, decide_eq_true_eq, List.all_eq_true, Bool.or_eq_true,
    Bool.not_eq_true', Bool.or_eq_false_iff, decide_eq_false_iff_not] at h
  obtain ⟨⟨hproductive, hdirectory⟩, hclones⟩ := h
  have hclone : ∀ name ∈ p.repositories,
      (l.command.argv = p.cloning p.config.sourceOrg name ∨
        l.command.argv = p.cloning p.config.targetOrg name) →
      l.after.stat (p.layout.repoDir name).toString = .ok .directory := by
    intro name hname hargv
    refine FileSystem.ok_of_toOption ((hclones name hname).resolve_left fun hother => ?_)
    exact hargv.elim hother.1 hother.2
  exact ⟨preserves_of_isProductive hproductive, fun _ => FileSystem.ok_of_toOption hdirectory,
    fun hargv _ => hclone _ (List.mem_cons_self ..) (Or.inl hargv),
    fun name hname hargv _ => hclone name (List.mem_cons_of_mem _ hname) (Or.inr hargv)⟩

/-- A workspace with nothing in it. -/
def vacant : Machine := furnished rulesText []

/-- The plan of its runs. -/
def vacantPlan : Plan := barePlan [⟨"fork", [⟨"main", "1.9"⟩]⟩]

/-- A run in this workspace. -/
theorem run_vacant :
    Arguments.read bare = .run bareArguments ∧
      ((prepare bareArguments).perform { vacant with log := [] }).1.toOption = some vacantPlan ∧
      (run bare vacant).1.exit = .returned 0 ∧
      (launchesOf bare vacant).all (isCooperative vacantPlan) ∧
      (∀ l ∈ launchesOf bare vacant, ∀ name ∈ Rules.destinations vacantPlan.rules,
        (l.after.lstat (Git.indexLock (vacantPlan.layout.repoDir name)).toString).toOption = none) ∧
      (((forM vacantPlan.preliminaries vacantPlan.step).perform
        ((prepare bareArguments).perform { vacant with log := [] }).2).2.files.stat
          (vacantPlan.layout.repoDir vacantPlan.config.sourceRepo).toString).toOption = none := by
  decide +kernel

/-- A file stands in the place of the source repository. -/
def occupied : Machine :=
  furnished rulesText [(["home", "go", "src", "github.com", "pub", "widgets"], .file "".toUTF8 false)]

/-- The lock of one repository is a link, and its place is that of another repository. -/
def latched : Machine :=
  furnished "rules:\n- destination: a/.git/index.lock\n- destination: a\n"
    [(["home", "go", "src", "github.com", "pub", "a"], .directory),
      (["home", "go", "src", "github.com", "pub", "a", ".git"], .directory),
      (["home", "go", "src", "github.com", "pub", "a", ".git", "index.lock"], .link "/home")]

/-- The plan of its runs. -/
def latchedPlan : Plan := barePlan [⟨"a/.git/index.lock", []⟩, ⟨"a", []⟩]

/-- A run with the file in place. -/
theorem run_occupied :
    ((prepare bareArguments).perform { occupied with log := [] }).1.toOption = some vacantPlan ∧
      (run bare occupied).1.exit = .returned 0 ∧
      (launchesOf bare occupied).all (isCooperative vacantPlan) ∧
      ((run bare occupied).2.files.stat (vacantPlan.layout.repoDir "widgets").toString).toOption =
        some (.file "".toUTF8 false) := by
  decide +kernel

/-- A run with the link in place. -/
theorem run_latched :
    ((prepare bareArguments).perform { latched with log := [] }).1.toOption = some latchedPlan ∧
      (run bare latched).1.exit = .returned 0 ∧
      (launchesOf bare latched).all (isCooperative latchedPlan) ∧
      ((run bare latched).2.files.stat
        (latchedPlan.layout.repoDir "a/.git/index.lock").toString).toOption = none := by
  decide +kernel

end Sample

/-- In an empty workspace, the source repository and the fork are cloned and stay. -/
theorem success_means_clones_sample :
    (run Sample.bare Sample.vacant).1.exit = .returned 0 ∧
      ∀ name ∈ Sample.vacantPlan.repositories,
        (run Sample.bare Sample.vacant).2.files.stat
          (Sample.vacantPlan.layout.repoDir name).toString = .ok .directory := by
  obtain ⟨hread, hprepared, hreturned, hcooperative, hlocks, hmissing⟩ := Sample.run_vacant
  refine ⟨hreturned, ?_⟩
  refine success_means_clones hread rfl (perform_of_toOption hprepared) (fun l hl => ⟨?_, ?_⟩) ?_
    hreturned
  · exact Sample.cooperates_of_isCooperative (List.all_eq_true.1 hcooperative l hl)
  · intro name hname _ target hlink
    have hnone := hlocks l hl name hname
    rw [hlink] at hnone
    cases hnone
  · intro m₂ hm₂ e hstat
    simp only [hm₂, hstat] at hmissing
    cases hmissing

/-- A file in the place of the source repository passes for it, and a lock that is a link takes a
repository away. -/
theorem success_without_clones :
    (((prepare Sample.bareArguments).perform { Sample.occupied with log := [] }).1.toOption =
        some Sample.vacantPlan ∧
      (run Sample.bare Sample.occupied).1.exit = .returned 0 ∧
      (∀ l ∈ launchesOf Sample.bare Sample.occupied, Sample.vacantPlan.Cooperates l) ∧
      "widgets" ∈ Sample.vacantPlan.repositories ∧
      (run Sample.bare Sample.occupied).2.files.stat
        (Sample.vacantPlan.layout.repoDir "widgets").toString = .ok (.file "".toUTF8 false)) ∧
    (((prepare Sample.bareArguments).perform { Sample.latched with log := [] }).1.toOption =
        some Sample.latchedPlan ∧
      (run Sample.bare Sample.latched).1.exit = .returned 0 ∧
      (∀ l ∈ launchesOf Sample.bare Sample.latched, Sample.latchedPlan.Cooperates l) ∧
      "a/.git/index.lock" ∈ Sample.latchedPlan.repositories ∧
      (run Sample.bare Sample.latched).2.files.stat
        (Sample.latchedPlan.layout.repoDir "a/.git/index.lock").toString ≠ .ok .directory) := by
  obtain ⟨hprepared, hoccupied, hcooperative, hfile⟩ := Sample.run_occupied
  obtain ⟨hprepared', hlatched, hcooperative', hgone⟩ := Sample.run_latched
  refine ⟨⟨hprepared, hoccupied, fun l hl => ?_, by decide +kernel, FileSystem.ok_of_toOption hfile⟩,
    ⟨hprepared', hlatched, fun l hl => ?_, by decide +kernel, fun hstat => ?_⟩⟩
  · exact Sample.cooperates_of_isCooperative (List.all_eq_true.1 hcooperative l hl)
  · exact Sample.cooperates_of_isCooperative (List.all_eq_true.1 hcooperative' l hl)
  · rw [hstat] at hgone
    cases hgone

end Bootstrap

end Provision
