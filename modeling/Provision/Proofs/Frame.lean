/-
**What a run changes.**

If the downloads stay in their staging directories and the other commands change nothing, then it is
known for every place what a run can have done to it, however the run ends.  It makes directories on
the way to the root and to the directory of the repositories; it puts distributions where there was
room for them; it removes and makes the link to the default one; and it removes the locks of
repositories that it has found.  Everything else is as it was, and nothing is left of the staging
directories.

Main definitions:

* `Provision.Launch.Harmless` — **what commands may do**;
* `Provision.Bootstrap.Plan.Difference` — **a place that differs after a run**, and why.

Main results:

* `Provision.Bootstrap.Plan.difference_of_tasks` — tasks one after the other;
* `Provision.Bootstrap.run_changes_only` — **a whole run**.
-/

import Provision.Proofs.Clearing
import Provision.Proofs.Layouts
import Provision.Proofs.Turns

set_option relaxedAutoImplicit false
set_option autoImplicit false

namespace Provision

open Step

/-- **What commands may do**: a download changes only what is below its staging directory, and any
other command changes nothing. -/
def Launch.Harmless (l : Launch) : Prop :=
  if l.command.isDownload then l.Confined else l.after = l.before

theorem Toolchain.isDownload_of_course {version : String} {layout : Layout} {fs fs' : FileSystem}
    {new : List Launch} {r : Except Failure Status} (h : Course version layout fs new fs' r) :
    ∀ l ∈ new, l.command.isDownload = true := by
  cases h with
  | existing => simp
  | prevented => simp
  | installed missing command =>
      intro l hl
      rw [List.mem_singleton.1 hl, command, isDownload_download]
  | undone command =>
      intro l hl
      rw [List.mem_singleton.1 hl, command, isDownload_download]

namespace Bootstrap.Plan

variable {p : Plan} {m m₁ : Machine} {t : Task}

/-- **A place is the lock of a fork** that is found on `m`. -/
structure Locks (p : Plan) (m : Machine) (name : String) (q : Location) : Prop where
  found : m.sees (p.layout.repoDir name) = true
  place : ∃ here, m.files.LeadsTo (Git.indexLock (p.layout.repoDir name)).toString here "index.lock" ∧
    q = here ++ ["index.lock"]

/-- **A lock that some of the tasks have removed**, when the turn of its fork came: they have started
on `m` and left the files `fs'`. -/
structure Unlocks (p : Plan) (ts : List Task) (m : Machine) (fs' : FileSystem) (q : Location) :
    Prop where
  was : ∃ e, m.files.tree.get? q = some e ∧ e ≠ .directory
  is : fs'.tree.get? q = none
  turn : ∃ done name rest m₁, ts = done ++ .fork name :: rest ∧
    (forM done p.step).perform m = (.ok (), m₁) ∧ p.Locks m₁ name q

namespace Unlocks

variable {ts us : List Task} {fs' : FileSystem} {q : Location}

theorem append (h : p.Unlocks ts m fs' q) (us : List Task) : p.Unlocks (ts ++ us) m fs' q where
  was := h.was
  is := h.is
  turn := by
    obtain ⟨done, name, rest, m₁, rfl, hturn, hlocks⟩ := h.turn
    exact ⟨done, name, rest ++ us, m₁, by simp, hturn, hlocks⟩

/-- Tasks that come before and leave the place alone make no difference. -/
theorem prepend (hdone : (forM ts p.step).perform m = (.ok (), m₁))
    (hsame : m₁.files.tree.get? q = m.files.tree.get? q) (h : p.Unlocks us m₁ fs' q) :
    p.Unlocks (ts ++ us) m fs' q where
  was := by
    rw [← hsame]
    exact h.was
  is := h.is
  turn := by
    obtain ⟨done, name, rest, m₂, rfl, hturn, hlocks⟩ := h.turn
    exact ⟨ts ++ done, name, rest, m₂, by rw [List.append_assoc], forM_append_ok hdone hturn, hlocks⟩

end Unlocks

section

variable (hdry : p.arguments.dryRun = false)
include hdry

/-- Harmless commands of a task that downloads nothing change nothing. -/
theorem same_of_harmless (ht : ∀ version, t ≠ .toolchain version)
    (hl : ∀ l ∈ (p.step t).launched m, l.Harmless) :
    ∀ l ∈ (p.step t).launched m, l.after = l.before := by
  intro l hmem
  have hharmless := hl l hmem
  rwa [Launch.Harmless, isDownload_of_launched hdry ht l hmem, if_neg (by decide)] at hharmless

/-! ### One task -/

/-- A distribution adds what belongs to it. -/
theorem adds_of_step (hroot : p.layout.root.Clean) {version : String}
    (hversion : '/' ∉ version.toList) (hfs : m.files.WellFormed)
    (hl : ∀ l ∈ (p.step (.toolchain version)).launched m, l.Harmless) :
    Toolchain.Adds p.layout [version] m.files
        ((p.step (.toolchain version)).perform m).2.files ∧
      ∀ l ∈ (p.step (.toolchain version)).launched m,
        l.Vanishes m.files ((p.step (.toolchain version)).perform m).2.files := by
  have hrunner : p.runner.dryRun = false := hdry
  obtain ⟨new, hnew, hcourse⟩ := Toolchain.course_of_install hrunner hroot version hfs
  have hstep := perform_toolchain p version m
  have hlaunched : (p.step (.toolchain version)).launched m = new :=
    launched_eq (by rw [hstep]; exact hnew)
  rw [hlaunched] at hl ⊢
  rw [hstep]
  refine Toolchain.adds_of_course hroot hversion hfs hcourse fun l hmem => ?_
  have hharmless := hl l hmem
  rwa [Launch.Harmless, Toolchain.isDownload_of_course hcourse l hmem, if_pos rfl] at hharmless

/-- Tools and the source repository change nothing themselves. -/
theorem same_of_step (ht : t ∈ p.tools ++ [.source])
    (hl : ∀ l ∈ (p.step t).launched m, l.Harmless) : ((p.step t).perform m).2.files = m.files := by
  obtain ⟨new, hnew, hchain⟩ := delegates_step hdry ht m
  have hother : ∀ version, t ≠ .toolchain version := by
    rintro version rfl
    simp [tools] at ht
  have hsame := same_of_harmless hdry hother hl
  rw [launched_eq hnew] at hsame
  exact hchain.eq_of_same hsame

/-- A fork loses its lock, if anything. -/
theorem cleared_of_step {name : String} (hl : ∀ l ∈ (p.step (.fork name)).launched m, l.Harmless) :
    ((p.step (.fork name)).perform m).2.files = m.files ∨
      (m.sees (p.layout.repoDir name) = true ∧ ((p.step (.fork name)).perform m).2.files =
        m.files.cleared (Git.indexLock (p.layout.repoDir name)).toString) := by
  obtain ⟨r, m', new, fs, hstep, hnew, hchain, hcases⟩ := fork_cases hdry name m
  have hsame := same_of_harmless hdry (by simp) hl
  rw [launched_eq (by rw [hstep]; exact hnew)] at hsame
  obtain rfl : fs = m.files := hchain.eq_of_same hsame
  rw [hstep]
  exact hcases.imp id fun h => ⟨h.1, h.2.2⟩

/-- A tool or a repository leaves a place as it was, unless it is a lock that is removed. -/
theorem unlocks_of_step (hroot : p.layout.root.Clean) (ht : t ∈ p.tools ++ ([.source] ++ p.forks))
    (hl : ∀ l ∈ (p.step t).launched m, l.Harmless) (q : Location) :
    ((p.step t).perform m).2.files.tree.get? q = m.files.tree.get? q ∨
      p.Unlocks [t] m ((p.step t).perform m).2.files q := by
  rw [← List.append_assoc] at ht
  rcases List.mem_append.1 ht with hquiet | hfork
  · exact Or.inl (by rw [same_of_step hdry hquiet hl])
  obtain ⟨name, -, rfl⟩ := List.mem_map.1 hfork
  rcases cleared_of_step hdry hl with hsame | ⟨hfound, hcleared⟩
  · exact Or.inl (by rw [hsame])
  rw [hcleared]
  rcases FileSystem.cleared_cases m.files (Git.indexLock (p.layout.repoDir name)).toString with
    hsame | ⟨here, last, e, hleads, hget, he, herased⟩
  · exact Or.inl (by rw [hsame])
  obtain ⟨-, rfl⟩ := Git.leadsTo_indexLock (Layout.clean_repoDir hroot name) hleads
  rw [herased, Tree.get?_erase _ (by simp)]
  by_cases hq : q = here ++ ["index.lock"]
  · subst hq
    refine Or.inr ⟨⟨e, hget, he⟩, ?_, [], name, [], m, rfl, rfl, hfound, here, hleads, rfl⟩
    simp [Tree.get?_erase]
  · exact Or.inl (if_neg hq)

/-! ### Tasks one after the other -/

/-- Distributions one after the other add what belongs to them. -/
theorem adds_of_toolchains (hroot : p.layout.root.Clean) {versions : List String}
    (hversions : ∀ version ∈ versions, '/' ∉ version.toList) (hfs : m.files.WellFormed)
    (hl : ∀ l ∈ (forM (versions.map .toolchain) p.step).launched m, l.Harmless) :
    Toolchain.Adds p.layout versions m.files (p.after (versions.map .toolchain) m).files := by
  refine after_induction hdry
    (motive := fun m' => Toolchain.Adds p.layout versions m.files m'.files) ?_
    ((Toolchain.Adds.refl p.layout hfs.closed).mono (by simp)) hl
  intro t ht m' hadds hl'
  obtain ⟨version, hv, rfl⟩ := List.mem_map.1 ht
  obtain ⟨hstep, -⟩ := adds_of_step hdry hroot (hversions version hv) (hadds.wellFormed hfs) hl'
  exact (hadds.trans hstep).mono (by simp [hv])

/-- The link is removed or made, and then there may be more directories on the way. -/
theorem link_and_base (hroot : p.layout.root.Clean) (hfs : m.files.WellFormed) (q : Location) :
    (p.after [.link, .base] m).files.tree.get? q = m.files.tree.get? q ∨
      (∃ here, m.files.reach p.layout.root = .ok here ∧ q = here ++ ["go"] ∧
        m.files.tree.get? q ≠ some .directory ∧
        ((p.after [.link, .base] m).files.tree.get? q = none ∨
          (p.after [.link, .base] m).files.tree.get? q =
            some (.link (p.layout.goDir Rules.defaultGoVersion).toString))) ∨
      (m.files.tree.get? q = none ∧
        (p.after [.link, .base] m).files.tree.get? q = some .directory ∧
        ∃ n, (p.after [.link, .base] m).files.resolve
          (p.layout.baseRepoPath.ancestor n).toString true = .ok q) := by
  obtain ⟨r, m₁, hstep, hfs₁, hcases, hmade⟩ := relinks_of_step hdry hroot hfs
  cases r with
  | error e =>
      rw [after_cons_error hstep]
      rcases hcases with hsame | ⟨here, hrelinks⟩
      · exact Or.inl (by rw [hsame])
      · by_cases hq : q = here ++ ["go"]
        · subst hq
          exact Or.inr (Or.inl ⟨here, hrelinks.root, rfl, hrelinks.was, hrelinks.is⟩)
        · exact Or.inl (hrelinks.others q hq)
  | ok u =>
      obtain ⟨here, hrelinks, hlink⟩ := hmade rfl
      obtain ⟨hextends, -⟩ := extends_of_step hdry hfs₁
      rw [after_cons_ok hstep, after_singleton]
      by_cases hq : q = here ++ ["go"]
      · subst hq
        refine Or.inr (Or.inl ⟨here, hrelinks.root, rfl, hrelinks.was, Or.inr ?_⟩)
        rw [hextends.grown.gains _ (by rw [hlink]; rfl), hlink]
      · rw [← hrelinks.others q hq]
        rcases hextends.tree q with hsame | ⟨hnone, hdirectory, n, hway⟩
        · exact Or.inl hsame
        · exact Or.inr (Or.inr ⟨hnone, hdirectory, n, hway⟩)

/-- **Tools and repositories, one after the other, lose their locks and nothing else.** -/
theorem unlocks_of_tasks (hroot : p.layout.root.Clean) {ts : List Task}
    (hts : ∀ t ∈ ts, t ∈ p.tools ++ ([.source] ++ p.forks))
    (hl : ∀ l ∈ (forM ts p.step).launched m, l.Harmless) (q : Location) :
    (p.after ts m).files.tree.get? q = m.files.tree.get? q ∨
      p.Unlocks ts m (p.after ts m).files q := by
  induction ts generalizing m with
  | nil => exact Or.inl rfl
  | cons t ts ih =>
      have hfirst := unlocks_of_step hdry hroot (hts t (by simp))
        (fun l hmem => hl l (mem_launched_cons hdry (Or.inl hmem))) q
      rcases hstep : (p.step t).perform m with ⟨e | u, m₁⟩
      · rw [hstep] at hfirst
        rw [after_cons_error hstep]
        exact hfirst.imp id fun h => h.append ts
      · rw [hstep] at hfirst
        rw [after_cons_ok hstep]
        have hrest := ih (m := m₁) (fun t' ht' => hts t' (by simp [ht']))
          fun l hmem => hl l (mem_launched_cons hdry (Or.inr ⟨m₁, hstep, hmem⟩))
        rcases hfirst with hsame | hunlocks
        · have hdone : (forM [t] p.step).perform m = (.ok (), m₁) := by
            rw [List.forM_cons, perform_bind_ok hstep]
            rfl
          exact hrest.imp (fun h => h.trans hsame) (Unlocks.prepend hdone hsame)
        -- what is removed by the first is not there any more for the others
        · refine Or.inr { hunlocks.append ts with is := ?_ }
          rcases hrest with hsame | hunlocks'
          · rw [hsame]
            exact hunlocks.is
          · exact hunlocks'.is

/-- What is behind the distributions: the link and directories on the way are made, and locks are
removed. -/
theorem later_cases (hroot : p.layout.root.Clean) (hfs : m.files.WellFormed)
    (hl : ∀ l ∈ (forM ([.link, .base] ++ (p.tools ++ ([.source] ++ p.forks))) p.step).launched m,
      l.Harmless) {m' : Machine}
    (hm' : p.after ([.link, .base] ++ (p.tools ++ ([.source] ++ p.forks))) m = m') (q : Location) :
    m'.files.tree.get? q = m.files.tree.get? q ∨
      (∃ here, m.files.reach p.layout.root = .ok here ∧ q = here ++ ["go"] ∧
        m.files.tree.get? q ≠ some .directory ∧
        (m'.files.tree.get? q = none ∨ m'.files.tree.get? q =
          some (.link (p.layout.goDir Rules.defaultGoVersion).toString))) ∨
      (m.files.tree.get? q = none ∧ m'.files.tree.get? q = some .directory ∧
        ∃ n, (p.after [.link, .base] m).files.resolve
          (p.layout.baseRepoPath.ancestor n).toString true = .ok q) ∨
      p.Unlocks ([.link, .base] ++ (p.tools ++ ([.source] ++ p.forks))) m m'.files q := by
  subst hm'
  have hfirst := link_and_base hdry hroot hfs q
  rcases hlink : (forM [.link, .base] p.step).perform m with ⟨e | u, m₁⟩
  · have hafter : p.after [.link, .base] m = m₁ := by rw [after, hlink]
    rw [after_append_error hlink]
    rw [hafter] at hfirst ⊢
    rcases hfirst with hsame | hrelinked | hmade
    · exact Or.inl hsame
    · exact Or.inr (Or.inl hrelinked)
    · exact Or.inr (Or.inr (Or.inl hmade))
  have hafter : p.after [.link, .base] m = m₁ := by rw [after, hlink]
  rw [after_append_ok hlink]
  rw [hafter] at hfirst ⊢
  -- behind the link and the directories, only a lock can make a difference
  have hrest := unlocks_of_tasks hdry hroot (m := m₁) (fun t ht => ht)
    (fun l hmem => hl l (mem_launched_append hdry (Or.inr ⟨m₁, hlink, hmem⟩))) q
  rcases hfirst with hsame | ⟨here, hroot', hq, hwas, his⟩ | ⟨hnone, hdirectory, hway⟩
  · rcases hrest with hsame' | hunlocks
    · exact Or.inl (hsame'.trans hsame)
    · exact Or.inr (Or.inr (Or.inr (hunlocks.prepend hlink hsame)))
  · refine Or.inr (Or.inl ⟨here, hroot', hq, hwas, ?_⟩)
    rcases hrest with hsame' | hunlocks
    · rwa [hsame']
    · exact Or.inl hunlocks.is
  · refine Or.inr (Or.inr (Or.inl ⟨hnone, ?_, hway⟩))
    rcases hrest with hsame' | hunlocks
    · rw [hsame', hdirectory]
    · obtain ⟨e, he, hfile⟩ := hunlocks.was
      rw [hdirectory] at he
      exact absurd (Option.some.inj he).symm hfile

end

/-! ### A whole run -/

/-- Before the turn of a distribution there are other distributions only. -/
theorem toolchains_of_split {done rest : List Task} {version : String}
    (h : p.tasks = done ++ .toolchain version :: rest) :
    ∃ earlier later, Rules.goVersions p.rules = earlier ++ version :: later ∧
      done = earlier.map .toolchain := by
  have hlater : .toolchain version ∉ [.link, .base] ++ (p.tools ++ ([.source] ++ p.forks)) := by
    simp [tools, forks]
  rw [tasks] at h
  rcases List.append_eq_append_iff.1 h with ⟨between, -, hsplit⟩ | ⟨between, hsplit, hrest⟩
  · rw [hsplit] at hlater
    simp at hlater
  · cases between with
    | nil =>
        rw [List.nil_append] at hrest
        rw [← hrest] at hlater
        simp at hlater
    | cons t between =>
        obtain ⟨rfl, -⟩ := List.cons_eq_cons.1 hrest
        obtain ⟨earlier, others, hversions, rfl, hothers⟩ := List.map_eq_append_iff.1 hsplit
        obtain ⟨version', later, rfl, hversion, -⟩ := List.map_eq_cons_iff.1 hothers
        obtain rfl : version' = version := by simpa using hversion
        exact ⟨earlier, later, hversions, rfl⟩

/-- **A place that differs after tasks that have started on `m` and left the files `fs'`**, and why. -/
inductive Difference (p : Plan) (m : Machine) (fs' : FileSystem) (q : Location) : Prop
  /-- A directory was made on the way to the root. -/
  | rootDirectory {n : Nat} (was : m.files.tree.get? q = none)
      (is : fs'.tree.get? q = some .directory)
      (way : (p.after p.toolchains m).files.resolve (p.layout.root.ancestor n).toString true =
        .ok q)
  /-- A directory was made on the way to the directory of the repositories. -/
  | baseDirectory {n : Nat} (was : m.files.tree.get? q = none)
      (is : fs'.tree.get? q = some .directory)
      (way : (p.after (p.toolchains ++ [.link, .base]) m).files.resolve
        (p.layout.baseRepoPath.ancestor n).toString true = .ok q)
  /-- A distribution was put in its place, and this is part of it. -/
  | distribution {version : String} {here : Location}
      (asked : version ∈ Rules.goVersions p.rules)
      (placed : Toolchain.Distribution p.layout version here m.files
        (p.after p.toolchains m).files)
      (inside : here ++ ["go-" ++ version] <+: q)
      (is : fs'.tree.get? (here ++ ["go-" ++ version]) = some .directory)
  /-- The link was removed or made. -/
  | link {here : Location}
      (root : (p.after p.toolchains m).files.reach p.layout.root = .ok here)
      (place : q = here ++ ["go"]) (was : m.files.tree.get? q ≠ some .directory)
      (is : fs'.tree.get? q = none ∨ fs'.tree.get? q =
        some (.link (p.layout.goDir Rules.defaultGoVersion).toString))
  /-- The lock of a fork was removed, which was found when its turn came. -/
  | lock {done rest : List Task} {name : String} {m₁ : Machine} {e : Entry}
      (tasks : p.tasks = done ++ .fork name :: rest)
      (turn : (forM done p.step).perform m = (.ok (), m₁)) (locks : p.Locks m₁ name q)
      (was : m.files.tree.get? q = some e) (file : e ≠ .directory)
      (is : fs'.tree.get? q = none)

section

variable (hdry : p.arguments.dryRun = false) (hroot : p.layout.root.Clean)
  (hversions : ∀ version ∈ Rules.goVersions p.rules, '/' ∉ version.toList)
  (hfs : m.files.WellFormed)
  (hl : ∀ l ∈ (forM p.tasks p.step).launched m, l.Harmless)
include hdry hroot hversions hfs hl

/-- **A place that differs after all tasks differs for one of these reasons.** -/
theorem difference_of_tasks (q : Location) :
    (p.after p.tasks m).files.tree.get? q = m.files.tree.get? q ∨
      p.Difference m (p.after p.tasks m).files q := by
  have htasks : p.tasks =
      p.toolchains ++ ([.link, .base] ++ (p.tools ++ ([.source] ++ p.forks))) := rfl
  have hadds : Toolchain.Adds p.layout (Rules.goVersions p.rules) m.files
      (p.after p.toolchains m).files :=
    adds_of_toolchains hdry hroot hversions hfs fun l hmem =>
      hl l (by rw [htasks]; exact mem_launched_append hdry (Or.inl hmem))
  rcases hgo : (forM p.toolchains p.step).perform m with ⟨e | u, m₁⟩
  · have hafter : p.after p.toolchains m = m₁ := by rw [after, hgo]
    have hend : p.after p.tasks m = p.after p.toolchains m := by
      rw [htasks, after_append_error hgo, hafter]
    rw [hend]
    rcases hadds.new q with hsame | ⟨hnone, hdirectory, n, hway⟩ | ⟨version, hv, here, hplaced, hq⟩
    · exact Or.inl hsame
    · exact Or.inr (.rootDirectory hnone hdirectory hway)
    · exact Or.inr (.distribution hv hplaced hq hplaced.place)
  have hafter : p.after p.toolchains m = m₁ := by rw [after, hgo]
  have hbase : p.after (p.toolchains ++ [.link, .base]) m = p.after [.link, .base] m₁ :=
    after_append_ok hgo _
  have hlater := later_cases hdry hroot (m := m₁) (by rw [← hafter]; exact hadds.wellFormed hfs)
    (fun l hmem => hl l (by rw [htasks]; exact mem_launched_append hdry (Or.inr ⟨m₁, hgo, hmem⟩)))
    (after_append_ok hgo _).symm
  rw [← htasks] at hlater
  -- a directory that has been made with the distributions stays
  have hstays : ∀ q, m₁.files.tree.get? q = some .directory →
      (p.after p.tasks m).files.tree.get? q = some .directory := by
    intro q hq
    rcases hlater q with hsame | ⟨-, -, -, hwas, -⟩ | ⟨hnone, -⟩ | ⟨⟨e, he, hfile⟩, -, -⟩
    · rw [hsame, hq]
    · exact absurd hq hwas
    · simp [hq] at hnone
    · rw [hq] at he
      exact absurd (Option.some.inj he).symm hfile
  rcases hadds.new q with hsame | ⟨hnone, hdirectory, n, hway⟩ | ⟨version, hv, here, hplaced, hq⟩
  · rw [hafter] at hsame
    rcases hlater q with hsame' | ⟨here, hreach, hq, hwas, his⟩ | ⟨hnone, hdirectory, n, hway⟩ |
      hunlocks
    · exact Or.inl (hsame'.trans hsame)
    · rw [hsame] at hwas
      exact Or.inr (.link (by rw [hafter]; exact hreach) hq hwas his)
    · rw [hsame] at hnone
      exact Or.inr (.baseDirectory hnone hdirectory (by rw [hbase]; exact hway))
    · obtain ⟨⟨e, he, hfile⟩, hnone, done, name, rest, m₂, hsplit, hturn, hlock⟩ :=
        hunlocks.prepend hgo hsame
      rw [← htasks] at hsplit
      exact Or.inr (.lock hsplit hturn hlock he hfile hnone)
  · rw [hafter] at hdirectory
    exact Or.inr (.rootDirectory hnone (hstays q hdirectory) hway)
  · have hplace := hplaced.place
    rw [hafter] at hplace
    exact Or.inr (.distribution hv hplaced hq (hstays _ hplace))

/-- **Nothing is left of a staging directory** when the task that has made it is over, and nothing was
in its place before. -/
theorem vanishes_of_turn {done rest : List Task} {version : String} {m₁ : Machine}
    (htasks : p.tasks = done ++ .toolchain version :: rest)
    (hdone : (forM done p.step).perform m = (.ok (), m₁)) :
    ∀ l ∈ (p.step (.toolchain version)).launched m₁,
      l.Vanishes m.files ((p.step (.toolchain version)).perform m₁).2.files := by
  obtain ⟨earlier, later, hgo, rfl⟩ := toolchains_of_split htasks
  have hadds := adds_of_toolchains hdry hroot
    (fun v hv => hversions v (by rw [hgo]; exact List.mem_append_left _ hv)) hfs
    fun l hmem => hl l (by rw [htasks]; exact mem_launched_append hdry (Or.inl hmem))
  rw [after, hdone] at hadds
  obtain ⟨-, hvanish⟩ := adds_of_step hdry hroot (hversions version (by rw [hgo]; simp))
    (hadds.wellFormed hfs) fun l hmem => hl l (by
      rw [htasks]
      exact mem_launched_append hdry (Or.inr ⟨m₁, hdone, mem_launched_cons hdry (Or.inl hmem)⟩))
  intro l hmem top htop
  obtain ⟨hbefore, hbehind⟩ := hvanish l hmem top htop
  exact ⟨hadds.gains.none_of_none hbefore, hbehind⟩

end

end Bootstrap.Plan

namespace Bootstrap

/-- **What a whole run changes.**  Without a plan it changes nothing; with a plan, whatever its end, a
place that differs differs for one of the reasons above, and nothing is left of a staging directory
when the task that has made it is over. -/
theorem run_changes_only {words : List String} {a : Arguments}
    (hread : Arguments.read words = .run a) (hdry : a.dryRun = false) {m : Machine}
    (hfs : m.files.WellFormed)
    (hversions : ∀ p m₁, (prepare a).perform { m with log := [] } = (.ok p, m₁) →
      ∀ version ∈ Rules.goVersions p.rules, '/' ∉ version.toList)
    (hl : ∀ l ∈ launchesOf words m, l.Harmless) :
    (∀ e m₁, (prepare a).perform { m with log := [] } = (.error e, m₁) →
      (run words m).2.files = m.files) ∧
    ∀ p m₁, (prepare a).perform { m with log := [] } = (.ok p, m₁) → m₁.files = m.files ∧
      (∀ q, (run words m).2.files.tree.get? q = m.files.tree.get? q ∨
        p.Difference m₁ (run words m).2.files q) ∧
      ∀ done version rest m₂, p.tasks = done ++ .toolchain version :: rest →
        (forM done p.step).perform m₁ = (.ok (), m₂) →
        ∀ l ∈ (p.step (.toolchain version)).launched m₂,
          l.Vanishes m.files ((p.step (.toolchain version)).perform m₂).2.files := by
  constructor
  · intro e m₁ hplan
    obtain ⟨_, rfl⟩ := machine_of_prepare hplan
    rw [run_machine hread, setUp, perform_bind_error hplan]
  · intro p m₁ hplan
    have hdry' : p.arguments.dryRun = false := by rw [(plan_of_prepare hplan).1, hdry]
    have hroot := clean_root_of_prepare hplan
    obtain ⟨records, hrun⟩ := (run_of_plan hread hplan).1
    rw [launchesOf_of_plan hread hplan] at hl
    have hfiles : m₁.files = m.files := by
      obtain ⟨_, rfl⟩ := machine_of_prepare hplan
      rfl
    rw [← hfiles] at hfs ⊢
    refine ⟨rfl, fun q => ?_, fun done version rest m₂ htasks hdone => ?_⟩
    · rw [hrun]
      exact Plan.difference_of_tasks hdry' hroot (hversions p m₁ hplan) hfs hl q
    · exact Plan.vanishes_of_turn hdry' hroot (hversions p m₁ hplan) hfs hl htasks hdone

namespace Sample

/-- The small machine, but a download leaves a file in its staging directory. -/
def unpacking : Machine := { machine with
  behaviour := fun _ c fs =>
    if c.isDownload then
      (.exited 0, { fs with
        tree := fs.tree.put (c.directory.parts ++ ["VERSION"]) (.file "go".toUTF8 false) })
    else (.exited 0, fs) }

/-- A run of it, and what its commands do. -/
theorem run_unpacking :
    ((prepare arguments).perform { unpacking with log := [] }).1.toOption.map
        (fun p => Rules.goVersions p.rules) = some ["1.10.2", "1.9"] ∧
      (run words unpacking).1.exit = .returned 0 ∧
      ∀ l ∈ launchesOf words unpacking,
        if l.command.isDownload then
          l.after.tree.Closed ∧
            (l.before.resolve l.command.directory.toString true).toOption =
              some l.command.directory.parts ∧
            l.after = { l.before with
              tree := l.before.tree.put (l.command.directory.parts ++ ["VERSION"])
                (.file "go".toUTF8 false) }
        else l.after = l.before := by
  decide +kernel

theorem harmless_unpacking : ∀ l ∈ launchesOf words unpacking, l.Harmless := by
  intro l hmem
  have hl := run_unpacking.2.2 l hmem
  unfold Launch.Harmless
  split at hl
  · next hdownload =>
    obtain ⟨hclosed, hresolve, hafter⟩ := hl
    rw [if_pos hdownload]
    exact Launch.confined_of_put hclosed (FileSystem.ok_of_toOption hresolve)
      (List.cons_ne_nil "VERSION" []) hafter
  · next hdownload =>
    rw [if_neg hdownload]
    exact hl

end Sample

/-- The two distributions are put in place with what was unpacked. -/
theorem run_changes_only_sample :
    Sample.unpacking.files.WellFormed ∧
      (∀ l ∈ launchesOf Sample.words Sample.unpacking, l.Harmless) ∧
      (run Sample.words Sample.unpacking).1.exit = .returned 0 ∧
      ∃ p m₁, (prepare Sample.arguments).perform { Sample.unpacking with log := [] } = (.ok p, m₁) ∧
        Rules.goVersions p.rules = ["1.10.2", "1.9"] ∧
        ∀ q, (run Sample.words Sample.unpacking).2.files.tree.get? q =
            Sample.unpacking.files.tree.get? q ∨
          p.Difference m₁ (run Sample.words Sample.unpacking).2.files q := by
  have hfs : Sample.unpacking.files.WellFormed := ⟨by decide +kernel, by decide +kernel⟩
  obtain ⟨hversions, hreturned, -⟩ := Sample.run_unpacking
  refine ⟨hfs, Sample.harmless_unpacking, hreturned, ?_⟩
  obtain ⟨p, hprepared, hgo⟩ := Option.map_eq_some_iff.1 hversions
  have hplan := perform_of_toOption hprepared
  refine ⟨p, _, hplan, hgo, ?_⟩
  refine ((run_changes_only Sample.read_words rfl hfs ?_ Sample.harmless_unpacking).2 p _
    hplan).2.1
  intro p' m' hplan'
  obtain rfl : p = p' := Except.ok.inj (Prod.mk.inj (hplan.symm.trans hplan')).1
  rw [hgo]
  decide

end Bootstrap

end Provision
