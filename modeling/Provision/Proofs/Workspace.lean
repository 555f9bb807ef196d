/-
**A run stays in its workspace.**

In a world without links a run launches its commands at and below the root of the workspace, and by
itself it changes nothing else, save the directories that are missing above the root.  The rules can
make two exceptions.  A destination that is an absolute path, or goes up, has the directory of its
repository elsewhere: there the address of the repository is set, and its lock is removed.  A version
that goes up has its place elsewhere, and the distribution is moved there.

Main definition:

* `Provision.Bootstrap.Plan.Visits` — the commands that a run launches, and their directories.

Main results:

* `Provision.Bootstrap.Plan.visits_of_launched` — where the commands of tasks are launched;
* `Provision.Bootstrap.run_is_contained` — **a run stays in its workspace**, but for such names;
* `Provision.Bootstrap.rules_lead_out` — a destination that leads out.
-/

import Provision.Proofs.Containment
import Provision.Proofs.Reruns
import Provision.Proofs.Retries

set_option relaxedAutoImplicit false
set_option autoImplicit false

namespace Provision

open Step

namespace Bootstrap

namespace Plan

variable {p : Plan} {m : Machine}

/-! ### The directories of commands -/

/-- **A command in a directory below the root**, or one of the commands for a destination that is an
absolute path or goes up, in its repository. -/
def Visits (p : Plan) (c : Command) : Prop :=
  p.layout.Below c.directory ∨ ∃ name ∈ Rules.destinations p.rules, Path.Leaves name ∧
    c.directory = p.layout.repoDir name ∧ (c ∈ p.refreshCommands name ∨ c ∈ p.forkCommands name)

/-- A command of some tasks is a command of one of them. -/
theorem exists_block_of_word {ts : List Task} {wanted : List Command} (h : p.Word ts m wanted)
    {c : Command} (hc : c ∈ wanted) : ∃ t ∈ ts, ∃ m' block, p.Block m' t block ∧ c ∈ block := by
  induction ts generalizing m wanted with
  | nil =>
      obtain rfl : wanted = [] := h
      simp at hc
  | cons t ts ih =>
      obtain ⟨first, rest, rfl, hfirst, hrest⟩ := h
      rcases List.mem_append.1 hc with hc | hc
      · exact ⟨t, by simp, m, first, hfirst, hc⟩
      · obtain ⟨t', ht', hblock⟩ := ih hrest hc
        exact ⟨t', by simp [ht'], hblock⟩

section

variable (hclean : p.layout.root.Clean) (hpackage : ¬Path.Leaves p.layout.basePackage)
  (hsource : ¬Path.Leaves p.config.sourceRepo)

include hpackage in
theorem below_base : p.layout.Below p.layout.baseRepoPath :=
  (p.layout.inSources_packageDir hpackage).below

include hpackage in
theorem below_repoDir {name : String} (hname : ¬Path.Leaves name) :
    p.layout.Below (p.layout.repoDir name) :=
  ((p.layout.inSources_packageDir hpackage).child hname).below

include hpackage in
/-- The commands for a fork, in the directory of the repositories or its own one. -/
theorem visits_fork {name : String} (hname : name ∈ Rules.destinations p.rules) {c : Command}
    (hown : c ∈ p.refreshCommands name ∨ c ∈ p.forkCommands name)
    (hc : c.directory = p.layout.baseRepoPath ∨ c.directory = p.layout.repoDir name) :
    p.Visits c := by
  rcases hc with hc | hc
  · exact Or.inl (hc ▸ below_base hpackage)
  · by_cases hleaves : Path.Leaves name
    · exact Or.inr ⟨name, hname, hleaves, hc, hown⟩
    · exact Or.inl (hc ▸ below_repoDir hpackage hleaves)

include hclean hpackage hsource

/-- **The commands of a task**, and their directories. -/
theorem visits_of_block {t : Task} (ht : t ∈ p.tasks) {block : List Command}
    (h : p.Block m t block) : ∀ c ∈ block, p.Visits c := by
  cases t with
  | toolchain version =>
      have hdownload : block = [] ∨ ∃ n, block = [Toolchain.download version p.layout.root n] := by
        simp only [Block] at h
        split at h
        · exact Or.inr h
        · exact Or.inl h
      rcases hdownload with rfl | ⟨n, rfl⟩
      · simp
      · rw [List.forall_mem_singleton]
        exact Or.inl (below_staging hclean n)
  | link =>
      obtain rfl : block = [] := h
      simp
  | base =>
      obtain rfl : block = [] := h
      simp
  | tool tool skip =>
      have htool : ¬Path.Leaves tool.importPath := by
        have hcases : tool = .godep ∨ tool = .dep := by
          simp only [tasks, toolchains, tools, forks, List.mem_append, List.mem_map, List.mem_cons,
            List.not_mem_nil, reduceCtorEq, and_false, exists_false, Task.tool.injEq, or_false,
            false_or] at ht
          exact ht.imp And.left And.left
        rcases hcases with rfl | rfl <;> decide
      obtain rfl : block = if skip || m.findExecutable tool.name then [] else
        tool.commands p.layout := h
      split
      · simp
      · have hthere : p.layout.Below (p.layout.packageDir tool.importPath) :=
          (p.layout.inSources_packageDir htool).below
        rw [Tool.commands, List.forall_mem_cons, List.forall_mem_cons, List.forall_mem_singleton]
        exact ⟨Or.inl (below_base hpackage), Or.inl hthere, Or.inl hthere⟩
  | source =>
      obtain rfl : block = if m.sees (p.layout.repoDir p.config.sourceRepo) then [] else
        p.sourceCommands := h
      split
      · simp
      · rw [sourceCommands, List.forall_mem_cons]
        refine ⟨Or.inl (below_base hpackage), ?_⟩
        split
        · rw [List.forall_mem_singleton]
          exact Or.inl (below_repoDir hpackage hsource)
        · simp
  | fork name =>
      have hname : name ∈ Rules.destinations p.rules := by
        simp only [tasks, toolchains, tools, forks, List.mem_append, List.mem_map, List.mem_cons,
          List.not_mem_nil, reduceCtorEq, and_false, exists_false, or_false, false_or,
          Task.fork.injEq, exists_eq_right] at ht
        exact ht
      obtain rfl : block = if m.sees (p.layout.repoDir name) then p.refreshCommands name else
        p.forkCommands name := h
      intro c hc
      split at hc
      · refine visits_fork hpackage hname (Or.inl hc) (Or.inr ?_)
        rw [List.mem_singleton.1 hc]
      · refine visits_fork hpackage hname (Or.inr hc) ?_
        simp only [forkCommands, List.mem_cons, List.not_mem_nil, or_false] at hc
        rcases hc with rfl | rfl | rfl
        · exact Or.inl rfl
        · exact Or.inr rfl
        · exact Or.inr rfl

/-- **Where the commands of all tasks are launched.** -/
theorem visits_of_launched (hdry : p.arguments.dryRun = false) :
    ∀ l ∈ (forM p.tasks p.step).launched m, p.Visits l.command := by
  intro l hl
  obtain ⟨wanted, hword, new, hnew⟩ := follows_tasks hdry p.tasks m
  rw [launched_eq hnew.continues.launches] at hl
  obtain ⟨t, ht, m', block, hblock, hc⟩ :=
    exists_block_of_word hword (hnew.commands.subset (List.mem_map_of_mem hl))
  exact visits_of_block hclean hpackage hsource ht hblock _ hc

end

end Plan

/-! ### A run -/

/-- **A run stays in its workspace**, in a world without links and with commands that make none, if the
root is an absolute path and neither the base package nor the source repository is absolute or goes
up: each command is launched at or below the root, and whatever the run does before, between and
behind its commands is done there, save for the names in the rules that lead out. -/
theorem run_is_contained {words : List String} {a : Arguments}
    (hread : Arguments.read words = .run a) (hdry : a.dryRun = false) {m m₁ : Machine} {p : Plan}
    (hplan : (prepare a).perform { m with log := [] } = (.ok p, m₁))
    (habsolute : p.layout.root.anchor ≠ .relative)
    (hpackage : ¬Path.Leaves p.config.basePackage) (hsource : ¬Path.Leaves p.config.sourceRepo)
    (hfs : m.files.Plain fun _ => False) (hl : ∀ l ∈ launchesOf words m, l.Linkless) :
    (∀ l ∈ launchesOf words m, p.Visits l.command) ∧
      Launch.Between p.Contains m.files (launchesOf words m) (run words m).2.files := by
  have hdry' : p.arguments.dryRun = false := by rw [(plan_of_prepare hplan).1, hdry]
  have hclean := clean_root_of_prepare hplan
  rw [← (layout_of_prepare hplan).1] at hpackage
  obtain ⟨records, hrun⟩ := (run_of_plan hread hplan).1
  have hfiles : m₁.files = m.files := by
    obtain ⟨_, rfl⟩ := machine_of_prepare hplan
    rfl
  rw [launchesOf_of_plan hread hplan] at hl ⊢
  rw [← hfiles] at hfs ⊢
  refine ⟨Plan.visits_of_launched hclean hpackage hsource hdry', ?_⟩
  rw [hrun]
  exact Plan.between_of_tasks hclean habsolute hdry' hpackage hfs hl

namespace Sample

/-- What such a launch puts in place is no link. -/
theorem linkless_of_isProductive {l : Launch} (h : isProductive l = true) : l.Linkless := by
  obtain ⟨hclosed, hsame | ⟨place, e, hnone, hno, hafter⟩⟩ := cases_of_isProductive h
  · exact ⟨fun _ => hclosed, fun q text hlink => by rwa [hsame] at hlink⟩
  refine ⟨fun _ => hclosed, fun q text hlink => ?_⟩
  have hroot := Tree.ne_root_of_missing hnone
  rw [hafter, Tree.get?_put _ hroot] at hlink
  split at hlink
  · exact absurd (Option.some.inj hlink) (hno text)
  · exact hlink

theorem plain_working : working.files.Plain fun _ => False where
  closed := by decide +kernel
  links := links_working

/-- Rules that ask for a fork in a directory of its own. -/
def straying : Machine := { machine with
  files := ⟨⟨[(["home"], .directory),
    (["rules"], .file "rules:\n- destination: /other\n".toUTF8 false), (["other"], .directory),
    (["other", ".git"], .directory),
    (["other", ".git", "index.lock"], .file "".toUTF8 false)]⟩, []⟩ }

/-- The plan of its run. -/
def strayingPlan : Plan where
  arguments := bareArguments
  environment := machine.environment
  config := { sourceOrg := "acme", sourceRepo := "widgets", targetOrg := "pub",
              githubHost := "github.com", basePackage := "github.com/pub", rulesFile := "/rules" }
  layout := ⟨Path.ofString "/home/go", "github.com/pub"⟩
  rules := [⟨"/other", []⟩]

/-- Its run. -/
theorem run_straying :
    ((prepare bareArguments).perform { straying with log := [] }).1.toOption = some strayingPlan ∧
      (∀ l ∈ launchesOf bare straying, l.after = l.before) ∧
      (run bare straying).1.exit = .returned 0 ∧
      (∃ l ∈ launchesOf bare straying,
        ¬strayingPlan.layout.root.location <+: l.command.directory.location) ∧
      (run bare straying).2.files.tree.get? ["other", ".git", "index.lock"] = none := by
  decide +kernel

end Sample

/-- All that this run does stays below its root. -/
theorem run_is_contained_sample :
    (run Sample.words Sample.working).1.exit = .returned 0 ∧
      (launchesOf Sample.words Sample.working).length = 12 ∧
      (∀ l ∈ launchesOf Sample.words Sample.working,
        Sample.workingPlan.Visits l.command) ∧
      Launch.Between Sample.workingPlan.Contains Sample.working.files
        (launchesOf Sample.words Sample.working) (run Sample.words Sample.working).2.files := by
  obtain ⟨hreturned, -, hlength, hproductive, -, hplan, -⟩ := Sample.run_working
  refine ⟨hreturned, hlength, ?_⟩
  exact run_is_contained Sample.read_words rfl (perform_of_toOption hplan) (by decide) (by decide)
    (by decide) Sample.plain_working fun l hl =>
      Sample.linkless_of_isProductive (List.all_eq_true.1 hproductive l hl)

/-- **A destination may lead out of the workspace**: here one that is an absolute path.  The run returns
zero, but has launched a command in the directory of the destination, and removed a lock there. -/
theorem rules_lead_out :
    let m := Sample.straying
    let root := Sample.strayingPlan.layout.root
    let lock : Location := ["other", ".git", "index.lock"]
    Arguments.read Sample.bare = .run Sample.bareArguments ∧
      Sample.bareArguments.dryRun = false ∧
      ((prepare Sample.bareArguments).perform { m with log := [] }).1.toOption =
        some Sample.strayingPlan ∧
      root.anchor ≠ .relative ∧ ¬Path.Leaves Sample.strayingPlan.config.basePackage ∧
      ¬Path.Leaves Sample.strayingPlan.config.sourceRepo ∧
      (∀ x ∈ m.files.tree.entries, ∀ text, x.2 ≠ .link text) ∧
      (∀ l ∈ launchesOf Sample.bare m, l.after = l.before) ∧
      (run Sample.bare m).1.exit = .returned 0 ∧
      (∃ l ∈ launchesOf Sample.bare m, ¬root.location <+: l.command.directory.location) ∧
      ¬root.location <+: lock ∧ (m.files.tree.get? lock).isSome ∧
      (run Sample.bare m).2.files.tree.get? lock = none := by
  have hlinks : ∀ x ∈ Sample.straying.files.tree.entries, ∀ text, x.2 ≠ .link text := by
    intro x hx text
    simp only [Sample.straying, List.mem_cons, List.not_mem_nil, or_false] at hx
    rcases hx with rfl | rfl | rfl | rfl | rfl <;> simp
  obtain ⟨hplan, hsame, hreturned, hleaves, hgone⟩ := Sample.run_straying
  exact ⟨by decide +kernel, rfl, hplan, by decide, by decide, by decide, hlinks, hsame, hreturned,
    hleaves, by decide, by decide +kernel, hgone⟩

end Bootstrap

end Provision
