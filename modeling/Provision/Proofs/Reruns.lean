/-
**Finished runs that are started again.**

A finished run has left a settled workspace.  A run that finds one, with all repositories in it, has
nothing to put in place: it downloads no distribution, makes the link that it has removed, clones no
repository and restores nothing.  It builds the tools that are not on the search path, sets the
address of every fork, and removes the locks of the forks.

Main definitions:

* `Provision.Bootstrap.Plan.IsPlain` — a plan whose names stay in their places;
* `Provision.Bootstrap.Plan.Ready` — **all repositories are in their places**;
* `Provision.Bootstrap.Plan.Refreshing` — the files while tools and repositories have their turns.

Main results:

* `Provision.Bootstrap.Plan.ready_of_settled` — a settled workspace in which the repositories are
  found is ready;
* `Provision.Bootstrap.Plan.idle_of_first` — distributions, link and directory change nothing;
* `Provision.Bootstrap.Plan.follows_refreshes` — the commands of the rest;
* `Provision.Bootstrap.rerun_only_refreshes` — **a run behind a finished one**.
-/

import Provision.Proofs.Settled

set_option relaxedAutoImplicit false
set_option autoImplicit false

namespace Provision

open Step

namespace Bootstrap

namespace Plan

/-- The source repository and the forks. -/
def repositories (p : Plan) : List String := p.config.sourceRepo :: Rules.destinations p.rules

/-- **A plan whose names stay in their places**: the base package and the repositories lie below the
directory of the sources, and no distribution has the name of a staging directory. -/
structure IsPlain (p : Plan) : Prop where
  relative : (Path.ofString p.layout.basePackage).anchor = .relative
  package : ".." ∉ (Path.ofString p.layout.basePackage).parts
  repositories : ∀ name ∈ p.repositories, Path.IsPart name ∧ name ≠ ".."
  versions : ∀ version ∈ Rules.goVersions p.rules,
    '/' ∉ version.toList ∧ ¬"tmp-".toList <+: version.toList

/-- The directory of the repositories, for a root that leads to `here`. -/
def base (p : Plan) (here : Location) : Location :=
  here ++ "src" :: (Path.ofString p.layout.basePackage).parts

/-- The place of the lock of a fork. -/
def IsLock (p : Plan) (here q : Location) : Prop :=
  ∃ name ∈ Rules.destinations p.rules, q = p.base here ++ [name, ".git", "index.lock"]

/-- **All repositories are in their places**, and no link is in the way to a lock. -/
structure Ready (p : Plan) (here : Location) (fs : FileSystem) : Prop where
  /-- The directory of the repositories is found, -/
  reach : fs.reach p.layout.baseRepoPath = .ok (p.base here)
  base : fs.stat p.layout.baseRepoPath.toString = .ok .directory
  /-- and the repositories in it, none of which is a link. -/
  repositories : ∀ name ∈ p.repositories,
    fs.LeadsTo (p.layout.repoDir name).toString (p.base here) name ∧
      ∃ e, fs.tree.get? (p.base here ++ [name]) = some e ∧ ∀ text, e ≠ .link text
  links : ∀ rest text, fs.tree.get? (p.base here ++ rest) ≠ some (.link text)

variable {p : Plan} {here : Location} {fs fs₁ fs' : FileSystem} {m m₁ : Machine} {t : Task}

/-! ### A settled workspace is ready -/

theorem baseRepoPath_eq (hplain : p.IsPlain) : p.layout.baseRepoPath =
    ⟨p.layout.root.anchor,
      p.layout.root.parts ++ "src" :: (Path.ofString p.layout.basePackage).parts⟩ := by
  have hsrc : Path.IsPart "src" := ⟨by decide, by decide, by decide⟩
  rw [Layout.baseRepoPath, Layout.packageDir, Path.child, Path.child_of_isPart _ hsrc,
    Path.join_of_relative hplain.relative]
  simp

/-- In a settled workspace the root leads to its directory also with the link. -/
theorem Settled.reach (h : p.Settled here fs) (hroot : p.layout.root.Clean) :
    fs.reach p.layout.root = .ok here := by
  obtain ⟨hreach, -⟩ := FileSystem.reach_of_leadsTo_child hroot Toolchain.isPart_go h.leadsTo
  generalize hless : ({ fs with tree := fs.tree.erase (here ++ ["go"]) } : FileSystem) = less at hreach
  have hgains : less.tree.Gains fs.tree := by
    rw [← hless]
    exact Tree.gains_of_erase _ (by simp)
  exact FileSystem.reach_of_gains hgains (by rw [← hless]) hreach

/-- The way to the repositories holds no link. -/
theorem Settled.base_eq (h : p.Settled here fs) (hroot : p.layout.root.Clean) (hplain : p.IsPlain)
    {there : Location} (hreach : fs.reach p.layout.baseRepoPath = .ok there) :
    there = p.base here := by
  rw [baseRepoPath_eq hplain, FileSystem.reach, List.append_assoc] at hreach
  obtain ⟨mid, links, hmid, hwalk⟩ := FileSystem.walk_append_of_ok (by simp) hreach
  obtain rfl : here = mid := by
    have := h.reach hroot
    rw [FileSystem.reach] at this
    simpa [this] using hmid
  have hnames : ∀ w ∈ "src" :: (Path.ofString p.layout.basePackage).parts, w ≠ "." ∧ w ≠ ".." := by
    intro w hw
    rcases List.mem_cons.1 hw with rfl | hw
    · decide
    · refine ⟨(Path.clean_ofString _ w hw).2.1, ?_⟩
      rintro rfl
      exact hplain.package hw
  have hend := FileSystem.walk_names_of_ok hnames (fun q hq hne text hlink => ?_) hwalk
  · cases links <;> simpa [FileSystem.walk, FileSystem.walkWith, eq_comm, base] using hend
  -- the only link is not among the sources
  · obtain ⟨w, rest, rfl⟩ := List.exists_cons_of_ne_nil hne
    obtain ⟨rfl, -⟩ := List.cons_prefix_cons.1 hq
    simpa using h.links _ text hlink

/-- **A settled workspace in which the repositories are found is ready.** -/
theorem ready_of_settled (h : p.Settled here fs) (hroot : p.layout.root.Clean)
    (hplain : p.IsPlain)
    (hfound : ∀ name ∈ p.repositories, ∃ e, fs.stat (p.layout.repoDir name).toString = .ok e) :
    p.Ready here fs := by
  have hlinks : ∀ rest text, fs.tree.get? (p.base here ++ rest) ≠ some (.link text) := by
    intro rest text hlink
    have := h.links _ text hlink
    simp [base] at this
  have hclean : p.layout.baseRepoPath.Clean := (hroot.child_text _).child_text _
  have hall : ∀ name ∈ p.repositories,
      fs.reach p.layout.baseRepoPath = .ok (p.base here) ∧
        fs.LeadsTo (p.layout.repoDir name).toString (p.base here) name ∧
          ∃ e, fs.tree.get? (p.base here ++ [name]) = some e ∧ ∀ text, e ≠ .link text := by
    intro name hname
    obtain ⟨hpart, hdots⟩ := hplain.repositories name hname
    obtain ⟨e, hstat⟩ := hfound name hname
    obtain ⟨there, hleads, hget⟩ := FileSystem.leadsTo_of_stat hclean hpart hdots
      (fun there hthere text => by
        rw [h.base_eq hroot hplain hthere]
        exact hlinks [name] text) hstat
    obtain ⟨hreach, -⟩ := FileSystem.reach_of_leadsTo_child hclean hpart hleads
    obtain rfl := h.base_eq hroot hplain hreach
    refine ⟨hreach, hleads, e, hget, ?_⟩
    rintro text rfl
    exact hlinks [name] text hget
  obtain ⟨hreach, hleads, -⟩ := hall p.config.sourceRepo (by simp [repositories])
  obtain ⟨hpart, -⟩ := hplain.repositories p.config.sourceRepo (by simp [repositories])
  obtain ⟨start, names, henter, -⟩ := hleads.enter
  refine ⟨hreach, ?_, fun name hname => (hall name hname).2, hlinks⟩
  have hparts : p.layout.baseRepoPath.parts ≠ [] := by
    rw [baseRepoPath_eq hplain]
    simp
  exact FileSystem.stat_of_reach hclean hparts hpart henter hreach
    (h.wellFormed.get?_of_reach hreach)

/-! ### Distributions, link and directory -/

end Plan

end Bootstrap

namespace FileSystem

variable {fs fs' : FileSystem}

theorem Same.keeps (h : fs.Same fs') (bare : Location → Prop) : fs.Keeps bare fs' where
  closed hc := hc.congr h.tree
  workingDirectory := h.workingDirectory
  kept := h.gains.kept
  links q text _ hlink := by rwa [← h.tree]

end FileSystem

namespace Bootstrap

namespace Plan

variable {p : Plan} {here : Location} {fs fs₁ fs' : FileSystem} {m m₁ : Machine} {t : Task}

section

variable (hdry : p.arguments.dryRun = false)
include hdry

/-- A distribution that is in its place is left alone. -/
theorem idle_of_toolchain (h : p.Settled here m.files) {version : String}
    (hv : version ∈ Rules.goVersions p.rules) :
    m.misses (p.layout.goDir version) = false ∧
      ((p.step (.toolchain version)).perform m).2.files = m.files := by
  have hrunner : p.runner.dryRun = false := hdry
  obtain ⟨hleads, hthere⟩ := h.toolchains version hv
  obtain ⟨e, he⟩ := Option.isSome_iff_exists.1 hthere
  have hstat : m.files.stat (p.layout.goDir version).toString = .ok e := by
    refine hleads.stat_eq he ?_
    rintro text rfl
    have hname : "go-" ++ version = "go" := by simpa using h.links _ text he
    exact Toolchain.goName_ne version (by decide) hname
  rw [perform_toolchain, Toolchain.perform_install hrunner]
  rw [Machine.misses, hstat]
  cases e <;> exact ⟨rfl, rfl⟩

/-- The link that is removed is made again. -/
theorem idle_of_link (h : p.Settled here m.files) :
    m.files.Same ((p.step .link).perform m).2.files := by
  have hleads : m.files.LeadsTo p.layout.goLink.toString here "go" := by
    have hgains : (m.files.tree.erase (here ++ ["go"])).Gains m.files.tree :=
      Tree.gains_of_erase _ (by simp)
    exact h.leadsTo.of_kept hgains.kept rfl id
  have hunlink := hleads.unlink h.link (by simp)
  have hcleared : m.files.cleared p.layout.goLink.toString =
      { m.files with tree := m.files.tree.erase (here ++ ["go"]) } := by
    rw [FileSystem.cleared, hunlink]
  obtain ⟨fs₀, fs₁, honce⟩ := h.linkable
  have hsymlink := h.leadsTo.symlink (by simp [Tree.get?_erase]) honce
  obtain ⟨r, m', hstep, -, hcases⟩ := link_cases hdry m
  rw [hstep]
  rw [hcleared] at hcases
  rcases hcases with ⟨-, hmade⟩ | ⟨-, hfiles, hnull | ⟨refusal, hrefused⟩⟩
  · rw [hsymlink] at hmade
    rw [← Except.ok.inj hmade]
    refine ⟨rfl, fun q => ?_⟩
    dsimp only
    rw [Tree.get?_put _ (by simp), Tree.get?_erase _ (by simp)]
    split
    · next hq => rw [hq, h.link]
    · rfl
  · rw [hunlink] at hnull
    simp at hnull
  · rw [hfiles, hsymlink] at hrefused
    simp at hrefused

/-- **In a ready workspace, distributions, link and directory launch nothing and change nothing.** -/
theorem idle_of_step (h : p.Settled here m.files)
    (hbase : m.files.stat p.layout.baseRepoPath.toString = .ok .directory)
    (ht : t ∈ p.toolchains ++ [.link, .base]) :
    (p.step t).Follows m [] ∧ m.files.Same ((p.step t).perform m).2.files := by
  obtain ⟨wanted, hblock, hfollows⟩ := follows_step hdry t m
  rcases List.mem_append.1 ht with ht | ht
  · obtain ⟨version, hv, rfl⟩ := List.mem_map.1 ht
    obtain ⟨hmisses, hfiles⟩ := idle_of_toolchain hdry h hv
    obtain rfl : wanted = [] := by simpa [Block, hmisses] using hblock
    exact ⟨hfollows, .of_eq hfiles⟩
  · rcases List.mem_cons.1 ht with rfl | ht
    · obtain rfl : wanted = [] := hblock
      exact ⟨hfollows, idle_of_link hdry h⟩
    · obtain rfl : t = .base := List.mem_singleton.1 ht
      obtain rfl : wanted = [] := hblock
      obtain ⟨r, m', hstep, -, hcases⟩ := base_cases hdry m
      rw [hstep]
      refine ⟨hfollows, .of_eq (hcases.resolve_right fun hmissing => ?_)⟩
      simp [FileSystem.found, hbase] at hmissing

theorem idle_of_first {ts : List Task} (h : p.Settled here m.files)
    (hbase : m.files.stat p.layout.baseRepoPath.toString = .ok .directory)
    (hts : ∀ t ∈ ts, t ∈ p.toolchains ++ [.link, .base]) :
    (forM ts p.step).Follows m [] ∧ m.files.Same (p.after ts m).files := by
  induction ts generalizing m with
  | nil => exact ⟨(quiet_pure _).silent.follows m, .refl _⟩
  | cons t ts ih =>
      obtain ⟨hfirst, hsame⟩ := idle_of_step hdry h hbase (hts t (by simp))
      have hrest : ∀ m₁, (p.step t).perform m = (.ok (), m₁) →
          (forM ts p.step).Follows m₁ [] ∧ m₁.files.Same (p.after ts m₁).files := by
        intro m₁ hstep
        rw [hstep] at hsame
        refine ih (h.keeps (hsame.keeps _)) ?_ fun t' ht' => hts t' (by simp [ht'])
        exact FileSystem.stat_of_gains hsame.gains hsame.workingDirectory hbase
      constructor
      · rw [List.forM_cons]
        exact hfirst.bind fun _ m₁ hstep => (hrest m₁ hstep).1
      · rcases hstep : (p.step t).perform m with ⟨e | u, m₁⟩
        · rw [hstep] at hsame
          rwa [after_cons_error hstep]
        · rw [hstep] at hsame
          rw [after_cons_ok hstep]
          exact hsame.trans (hrest m₁ hstep).2

end

/-! ### Tools and repositories -/

/-- **The files while tools and repositories have their turns**, in a workspace that was ready as
`fs₁`: nothing is gone but locks, and no directory of Git is a link. -/
structure Refreshing (p : Plan) (here : Location) (fs₁ fs : FileSystem) : Prop where
  workingDirectory : fs.workingDirectory = fs₁.workingDirectory
  kept : fs₁.tree.Kept (p.IsLock here) fs.tree
  git : ∀ name ∈ Rules.destinations p.rules, ∀ text,
    fs.tree.get? (p.base here ++ [name, ".git"]) ≠ some (.link text)

theorem not_isLock (p : Plan) (here : Location) {rest : Location} (h : rest.length < 3) :
    ¬p.IsLock here (p.base here ++ rest) := by
  rintro ⟨name, -, hname⟩
  have := congrArg List.length (List.append_cancel_left hname)
  simp only [List.length_cons, List.length_nil] at this
  omega

theorem not_isLock_base (p : Plan) (here : Location) : ¬p.IsLock here (p.base here) := by
  have hshort : ([] : Location).length < 3 := by decide
  have := not_isLock p here hshort
  rwa [List.append_nil] at this

namespace Refreshing

theorem of_same (hready : p.Ready here fs₁) (h : fs₁.Same fs) : p.Refreshing here fs₁ fs where
  workingDirectory := h.workingDirectory
  kept q e he := Or.inl ⟨e, by rw [h.tree, he], .refl e⟩
  git name _ text := by
    rw [h.tree]
    exact hready.links [name, ".git"] text

theorem keeps (h : p.Refreshing here fs₁ fs)
    (hkeeps : fs.Keeps (fun q => q.getLast? = some ".git") fs') : p.Refreshing here fs₁ fs' where
  workingDirectory := hkeeps.workingDirectory.trans h.workingDirectory
  kept := by
    intro q e he
    rcases h.kept q e he with ⟨e', he', hkind⟩ | hgone
    · obtain ⟨e'', he'', hkind'⟩ :=
        (hkeeps.kept q e' he').resolve_right fun hnever => hnever.1.elim
      exact Or.inl ⟨e'', he'', hkind.trans hkind'⟩
    · exact Or.inr hgone
  git name hname text hlink :=
    h.git name hname text (hkeeps.links _ text (by simp) hlink)

variable (hready : p.Ready here fs₁) (h : p.Refreshing here fs₁ fs)
include hready h

theorem reach : fs.reach p.layout.baseRepoPath = .ok (p.base here) :=
  FileSystem.reach_of_kept h.kept h.workingDirectory hready.reach (not_isLock_base p here)

/-- A repository is still there. -/
theorem repository {name : String} (hname : name ∈ p.repositories) :
    fs.LeadsTo (p.layout.repoDir name).toString (p.base here) name ∧
      ∃ e, fs.tree.get? (p.base here ++ [name]) = some e ∧ ∀ text, e ≠ .link text := by
  obtain ⟨hleads, e, he, hlink⟩ := hready.repositories name hname
  refine ⟨hleads.of_kept h.kept h.workingDirectory (not_isLock_base p here), ?_⟩
  obtain ⟨e', he', hkind⟩ :=
    (h.kept _ e he).resolve_right fun hgone => not_isLock p here (by simp) hgone.1
  exact ⟨e', he', hkind.ne_link hlink⟩

theorem sees {m : Machine} (hm : m.files = fs) {name : String} (hname : name ∈ p.repositories) :
    m.sees (p.layout.repoDir name) = true := by
  obtain ⟨hleads, e, he, hlink⟩ := h.repository hready hname
  rw [Machine.sees, hm, FileSystem.found, hleads.stat_eq he hlink]

/-- **The path of a lock leads to the place of the lock.** -/
theorem lock_eq (hroot : p.layout.root.Clean) (hplain : p.IsPlain) {name : String}
    (hname : name ∈ Rules.destinations p.rules) {there : Location} {last : String}
    (hleads : fs.LeadsTo (Git.indexLock (p.layout.repoDir name)).toString there last) :
    there ++ [last] = p.base here ++ [name, ".git", "index.lock"] := by
  have hmem : name ∈ p.repositories := List.mem_cons_of_mem _ hname
  obtain ⟨hpart, hdots⟩ := hplain.repositories name hmem
  obtain ⟨hrepo, rfl⟩ := Git.leadsTo_indexLock (Layout.clean_repoDir hroot name) hleads
  obtain ⟨-, e, he, hlink⟩ := h.repository hready hmem
  have hgit : Path.IsPart ".git" := ⟨by decide, by decide, by decide⟩
  have hparts : (p.layout.repoDir name).child ".git" =
      ⟨p.layout.baseRepoPath.anchor, p.layout.baseRepoPath.parts ++ [name, ".git"]⟩ := by
    rw [Path.child_of_isPart _ hgit, Layout.repoDir, Path.child_of_isPart _ hpart]
    simp
  rw [hparts, FileSystem.reach, List.append_assoc] at hrepo
  obtain ⟨mid, links, hmid, hwalk⟩ := FileSystem.walk_append_of_ok (by simp) hrepo
  obtain rfl : p.base here = mid := by
    have := h.reach hready
    rw [FileSystem.reach] at this
    simpa [this] using hmid
  -- neither the repository nor its directory of Git is a link
  obtain ⟨-, -, hwalk⟩ := FileSystem.walk_cons_of_ok hpart.2.1 hdots
    (fun text ht => hlink text (by simpa [he] using ht)) hwalk
  obtain ⟨-, -, hwalk⟩ := FileSystem.walk_cons_of_ok (by decide) (by decide)
    (fun text ht => h.git name hname text (by simpa using ht)) hwalk
  have hend : p.base here ++ [name] ++ [".git"] = there := by
    cases links <;> simpa [FileSystem.walk, FileSystem.walkWith] using hwalk
  rw [← hend]
  simp

/-- The lock of a fork may be removed. -/
theorem cleared (hroot : p.layout.root.Clean) (hplain : p.IsPlain) {name : String}
    (hname : name ∈ Rules.destinations p.rules) :
    p.Refreshing here fs₁ (fs.cleared (Git.indexLock (p.layout.repoDir name)).toString) := by
  rcases FileSystem.cleared_cases fs (Git.indexLock (p.layout.repoDir name)).toString with
    hsame | ⟨there, last, e, hleads, hget, he, hcleared⟩
  · rwa [hsame]
  rw [hcleared]
  have hplace := h.lock_eq hready hroot hplain hname hleads
  rw [hplace] at hget ⊢
  refine ⟨h.workingDirectory, fun q e₁ he₁ => ?_, fun name' hname' text hlink => ?_⟩
  · dsimp only
    rw [Tree.get?_erase _ (by simp)]
    by_cases hq : q = p.base here ++ [name, ".git", "index.lock"]
    -- what was there before was a file, for what is removed is no directory and there was no link
    · refine Or.inr ⟨⟨name, hname, hq⟩, ?_⟩
      rcases h.kept q e₁ he₁ with ⟨e', he', hkind⟩ | ⟨-, hfile⟩
      · rw [hq, hget] at he'
        obtain rfl := Option.some.inj he'
        cases e₁ with
        | directory => exact absurd hkind.of_directory he
        | file content executable => rfl
        | link text => exact absurd (hq ▸ he₁) (hready.links _ text)
      · exact hfile
    · rw [if_neg hq]
      exact h.kept q e₁ he₁
  · dsimp only at hlink
    rw [Tree.get?_erase _ (by simp)] at hlink
    split at hlink
    · simp at hlink
    · exact h.git name' hname' text hlink

end Refreshing

section

variable (hdry : p.arguments.dryRun = false) (hroot : p.layout.root.Clean) (hplain : p.IsPlain)
  (hready : p.Ready here fs₁)
include hdry hroot hplain hready

/-- **One of the tools or repositories**: the files go on refreshing, and a place that none of its
commands has changed is as it was, unless it is a lock that has been removed. -/
theorem refreshing_of_step (h : p.Refreshing here fs₁ m.files)
    (ht : t ∈ p.tools ++ ([.source] ++ p.forks))
    (hl : ∀ l ∈ (p.step t).launched m, l.Gentle fun q => q.getLast? = some ".git") :
    p.Refreshing here fs₁ ((p.step t).perform m).2.files ∧
      ∀ q, (∀ l ∈ (p.step t).launched m, l.after.tree.get? q = l.before.tree.get? q) →
        ((p.step t).perform m).2.files.tree.get? q = m.files.tree.get? q ∨
          p.IsLock here q ∧ ((p.step t).perform m).2.files.tree.get? q = none := by
  have hother : ∀ version, t ≠ .toolchain version := by
    rintro version rfl
    simp [tools, forks] at ht
  obtain ⟨new, fs, hnew, hchain, hcases⟩ := work_cases hdry ht m
  have hgentle : ∀ l ∈ new,
      l.Gentle (fun q => q.getLast? = some ".git") ∧ l.command.isDownload = false := by
    rw [← launched_eq hnew]
    exact fun l hmem => ⟨hl l hmem, isDownload_of_launched hdry hother l hmem⟩
  have hbefore := h.keeps (hchain.keeps hgentle)
  have huntouched : ∀ q, (∀ l ∈ new, l.after.tree.get? q = l.before.tree.get? q) →
      fs.tree.get? q = m.files.tree.get? q := fun q hq =>
    hchain.relates (R := fun fs fs' => fs'.tree.get? q = fs.tree.get? q) (fun _ => rfl)
      (fun _ _ _ h₁ h₂ => h₂.trans h₁) hq
  rw [launched_eq hnew]
  rcases hcases with hsame | ⟨name, hname, hcleared⟩
  · rw [hsame]
    exact ⟨hbefore, fun q hq => Or.inl (huntouched q hq)⟩
  · rw [hcleared]
    refine ⟨hbefore.cleared hready hroot hplain hname, fun q hq => ?_⟩
    rcases FileSystem.cleared_cases fs (Git.indexLock (p.layout.repoDir name)).toString with
      hsame | ⟨there, last, e, hleads, hget, he, herased⟩
    · rw [hsame]
      exact Or.inl (huntouched q hq)
    · rw [herased, Tree.get?_erase _ (by simp),
        hbefore.lock_eq hready hroot hplain hname hleads]
      by_cases hplace : q = p.base here ++ [name, ".git", "index.lock"]
      · exact Or.inr ⟨⟨name, hname, hplace⟩, if_pos hplace⟩
      · rw [if_neg hplace]
        exact Or.inl (huntouched q hq)

/-- **Tools and repositories, one after the other.** -/
theorem refreshing_of_tasks {ts : List Task} (h : p.Refreshing here fs₁ m.files)
    (hts : ∀ t ∈ ts, t ∈ p.tools ++ ([.source] ++ p.forks))
    (hl : ∀ l ∈ (forM ts p.step).launched m, l.Gentle fun q => q.getLast? = some ".git") :
    p.Refreshing here fs₁ (p.after ts m).files := by
  refine after_induction hdry (motive := fun m => p.Refreshing here fs₁ m.files) ?_ h hl
  intro t ht m h hl
  exact (refreshing_of_step hdry hroot hplain hready h (hts t ht) hl).1

/-- A place that none of their commands has changed is as it was, unless it is a lock that has been
removed. -/
theorem untouched_of_tasks {ts : List Task} (h : p.Refreshing here fs₁ m.files)
    (hts : ∀ t ∈ ts, t ∈ p.tools ++ ([.source] ++ p.forks))
    (hl : ∀ l ∈ (forM ts p.step).launched m, l.Gentle fun q => q.getLast? = some ".git")
    {q : Location}
    (hq : ∀ l ∈ (forM ts p.step).launched m, l.after.tree.get? q = l.before.tree.get? q) :
    (p.after ts m).files.tree.get? q = m.files.tree.get? q ∨
      p.IsLock here q ∧ (p.after ts m).files.tree.get? q = none := by
  -- the places are looked at while the files are refreshing, for that is what a step asks for
  refine (after_induction hdry (motive := fun m' => p.Refreshing here fs₁ m'.files ∧
    (m'.files.tree.get? q = m.files.tree.get? q ∨ p.IsLock here q ∧ m'.files.tree.get? q = none)) ?_
    ⟨h, Or.inl rfl⟩ fun l hmem => And.intro (hl l hmem) (hq l hmem)).2
  rintro t ht m' ⟨h', hbefore⟩ hboth
  obtain ⟨hnext, huntouched⟩ := refreshing_of_step hdry hroot hplain hready h' (hts t ht)
    fun l hmem => (hboth l hmem).1
  refine ⟨hnext, ?_⟩
  rcases huntouched q fun l hmem => (hboth l hmem).2 with hsame | hlock
  · rwa [hsame]
  · exact Or.inr hlock

/-- Forks that are there are refreshed, each with one command. -/
theorem follows_forks {names : List String} (hnames : ∀ name ∈ names, name ∈ Rules.destinations p.rules)
    (h : p.Refreshing here fs₁ m.files)
    (hl : ∀ l ∈ (forM (names.map .fork) p.step).launched m,
      l.Gentle fun q => q.getLast? = some ".git") :
    (forM (names.map .fork) p.step).Follows m (names.flatMap p.refreshCommands) := by
  induction names generalizing m with
  | nil => exact (quiet_pure _).silent.follows m
  | cons name names ih =>
      have hname := hnames name (by simp)
      obtain ⟨wanted, hblock, hfollows⟩ := follows_step hdry (.fork name) m
      obtain rfl : wanted = p.refreshCommands name := by
        simpa [Block, h.sees hready rfl (List.mem_cons_of_mem _ hname)] using hblock
      rw [List.map_cons] at hl ⊢
      rw [List.forM_cons, List.flatMap_cons]
      refine hfollows.bind fun _ m₁ hstep => ih (fun n hn => hnames n (by simp [hn])) ?_
        fun l hmem => hl l (mem_launched_cons hdry (Or.inr ⟨m₁, hstep, hmem⟩))
      obtain ⟨hnext, -⟩ := refreshing_of_step hdry hroot hplain hready h
        (by simpa [tools, forks] using hname)
        fun l hmem => hl l (mem_launched_cons hdry (Or.inl hmem))
      rwa [hstep] at hnext

/-- **The commands for tools and repositories**: tools are built if need be, and then each fork is
refreshed. -/
theorem follows_refreshes (h : p.Refreshing here fs₁ m.files)
    (hl : ∀ l ∈ (forM (p.tools ++ ([.source] ++ p.forks)) p.step).launched m,
      l.Gentle fun q => q.getLast? = some ".git") :
    ∃ built, p.Word p.tools m built ∧
      (forM (p.tools ++ ([.source] ++ p.forks)) p.step).Follows m
        (built ++ (Rules.destinations p.rules).flatMap p.refreshCommands) := by
  obtain ⟨built, hword, htools⟩ := follows_tasks hdry p.tools m
  refine ⟨built, hword, ?_⟩
  rw [List.forM_append]
  refine htools.bind fun _ m₁ hdone => ?_
  have hl₁ := fun l hmem => hl l (mem_launched_append hdry (Or.inr ⟨m₁, hdone, hmem⟩))
  have h₁ := refreshing_of_tasks hdry hroot hplain hready h
    (fun t ht => List.mem_append_left _ ht)
    fun l hmem => hl l (mem_launched_append hdry (Or.inl hmem))
  rw [after, hdone] at h₁
  -- the source repository is there, and launches nothing
  obtain ⟨wanted, hblock, hsource⟩ := follows_step hdry .source m₁
  obtain rfl : wanted = [] := by
    have hmem : p.config.sourceRepo ∈ p.repositories := List.mem_cons_self
    simpa [Block, h₁.sees hready rfl hmem] using hblock
  rw [List.singleton_append, List.forM_cons]
  refine hsource.bind fun _ m₂ hstep => ?_
  rw [List.singleton_append] at hl₁
  obtain ⟨h₂, -⟩ := refreshing_of_step hdry hroot hplain hready h₁ (by simp)
    fun l hmem => hl₁ l (mem_launched_cons hdry (Or.inl hmem))
  rw [hstep] at h₂
  exact follows_forks hdry hroot hplain hready (fun name hname => hname) h₂
    fun l hmem => hl₁ l (mem_launched_cons hdry (Or.inr ⟨m₂, hstep, hmem⟩))

end

/-! ### A whole run -/

/-- **A run that only refreshes.**  It starts its tasks on `m`, launches `ls` and leaves the files
`fs'`; `done` says that it has come to its end. -/
structure Refreshes (p : Plan) (here : Location) (m : Machine) (ls : List Launch) (done : Prop)
    (fs' : FileSystem) : Prop where
  /-- It builds the tools that are not found and sets the address of every fork, in order. -/
  commands : ∃ built, p.Word p.tools (p.turn (p.toolchains ++ [.link, .base]) m) built ∧
    ls.map (·.command) <+: built ++ (Rules.destinations p.rules).flatMap p.refreshCommands ∧
    (done → ls.map (·.command) =
      built ++ (Rules.destinations p.rules).flatMap p.refreshCommands)
  /-- The link has the text that it had. -/
  link : m.files.tree.get? (here ++ ["go"]) =
      some (.link (p.layout.goDir Rules.defaultGoVersion).toString) ∧
    fs'.tree.get? (here ++ ["go"]) =
      some (.link (p.layout.goDir Rules.defaultGoVersion).toString)
  /-- The distributions are there, and hold what they held if no command has changed it. -/
  toolchains : ∀ version ∈ Rules.goVersions p.rules,
    (m.files.tree.get? (here ++ ["go-" ++ version])).isSome ∧
      ∀ q, here ++ ["go-" ++ version] <+: q →
        (∀ l ∈ ls, l.after.tree.get? q = l.before.tree.get? q) →
        fs'.tree.get? q = m.files.tree.get? q
  /-- A place that no command has changed is as it was, unless it is a lock that has been removed. -/
  others : ∀ q, (∀ l ∈ ls, l.after.tree.get? q = l.before.tree.get? q) →
    fs'.tree.get? q = m.files.tree.get? q ∨ p.IsLock here q ∧ fs'.tree.get? q = none

/-- No lock lies in a distribution. -/
theorem not_isLock_toolchain {version : String} {q : Location}
    (hq : here ++ ["go-" ++ version] <+: q) : ¬p.IsLock here q := by
  rintro ⟨name, -, rfl⟩
  rw [base, List.append_assoc, List.prefix_append_right_inj, List.cons_append,
    List.cons_prefix_cons] at hq
  have := congrArg (fun s => s.toList.head?) hq.1
  simp at this

theorem turn_eq {ts : List Task} {u : Unit} (h : (forM ts p.step).perform m = (.ok u, m₁)) :
    p.turn ts m = m₁ := by
  induction ts generalizing m with
  | nil => simpa [turn] using h
  | cons t ts ih =>
      rw [List.forM_cons] at h
      obtain ⟨_, m₂, hstep, hrest⟩ := perform_bind_eq_ok.1 h
      rw [turn, List.foldl_cons, hstep]
      exact ih hrest

section

variable (hdry : p.arguments.dryRun = false) (hroot : p.layout.root.Clean) (hplain : p.IsPlain)
  (hsettled : p.Settled here m.files) (hready : p.Ready here m.files)
  (hl : ∀ l ∈ (forM p.tasks p.step).launched m, l.Gentle fun q => q.getLast? = some ".git")

/-- The tasks that find nothing to do, and those that may. -/
theorem tasks_eq (p : Plan) : p.tasks =
    (p.toolchains ++ [.link, .base]) ++ (p.tools ++ ([.source] ++ p.forks)) := by
  simp [tasks]

include hdry hsettled hready

/-- Behind the first tasks the files are the same, and refreshing goes on from there. -/
theorem refreshing_of_first (hfirst : (forM (p.toolchains ++ [.link, .base]) p.step).perform m =
    (.ok (), m₁)) : p.Refreshing here m.files m₁.files ∧
      ∀ l ∈ (forM (p.tools ++ ([.source] ++ p.forks)) p.step).launched m₁,
        l ∈ (forM p.tasks p.step).launched m := by
  obtain ⟨-, hsame⟩ := idle_of_first hdry hsettled hready.base (fun t ht => ht)
  rw [after, hfirst] at hsame
  refine ⟨.of_same hready hsame, fun l hmem => ?_⟩
  rw [tasks_eq]
  exact mem_launched_append hdry (Or.inr ⟨m₁, hfirst, hmem⟩)

include hroot hplain hl

/-- **The commands of all tasks**: those of the first ones launch nothing. -/
theorem follows_of_tasks :
    ∃ built, p.Word p.tools (p.turn (p.toolchains ++ [.link, .base]) m) built ∧
      (forM p.tasks p.step).Follows m
        (built ++ (Rules.destinations p.rules).flatMap p.refreshCommands) := by
  obtain ⟨hidle, -⟩ := idle_of_first hdry hsettled hready.base (fun t ht => ht)
  rcases hfirst : (forM (p.toolchains ++ [.link, .base]) p.step).perform m with ⟨e | u, m₁⟩
  · obtain ⟨built, hword, -⟩ := follows_tasks hdry p.tools
      (p.turn (p.toolchains ++ [.link, .base]) m)
    refine ⟨built, hword, ?_⟩
    rw [tasks_eq, List.forM_append]
    refine hidle.bind fun _ m₁ h => ?_
    rw [hfirst] at h
    simp at h
  · obtain ⟨hrefreshing, hmem⟩ := refreshing_of_first hdry hsettled hready hfirst
    obtain ⟨built, hword, hwork⟩ := follows_refreshes hdry hroot hplain hready hrefreshing
      fun l h => hl l (hmem l h)
    rw [← turn_eq hfirst] at hword
    refine ⟨built, hword, ?_⟩
    rw [tasks_eq, List.forM_append]
    refine hidle.bind fun _ m₂ h => ?_
    obtain rfl : m₁ = m₂ := by simpa using hfirst.symm.trans h
    exact hwork

/-- **The files behind all tasks.** -/
theorem refreshing_of_all : p.Refreshing here m.files (p.after p.tasks m).files ∧
    ∀ q, (∀ l ∈ (forM p.tasks p.step).launched m, l.after.tree.get? q = l.before.tree.get? q) →
      (p.after p.tasks m).files.tree.get? q = m.files.tree.get? q ∨
        p.IsLock here q ∧ (p.after p.tasks m).files.tree.get? q = none := by
  obtain ⟨-, hsame⟩ := idle_of_first hdry hsettled hready.base (fun t ht => ht)
  rcases hfirst : (forM (p.toolchains ++ [.link, .base]) p.step).perform m with ⟨e | u, m₁⟩
  · have hend : p.after p.tasks m = m₁ := by rw [tasks_eq, after_append_error hfirst]
    rw [after, hfirst] at hsame
    rw [hend]
    exact ⟨.of_same hready hsame, fun q _ => Or.inl (hsame.tree q)⟩
  · have hend : p.after p.tasks m = p.after (p.tools ++ ([.source] ++ p.forks)) m₁ := by
      rw [tasks_eq, after_append_ok hfirst]
    obtain ⟨hrefreshing, hmem⟩ := refreshing_of_first hdry hsettled hready hfirst
    have hl₁ := fun l h => hl l (hmem l h)
    rw [after, hfirst] at hsame
    rw [hend]
    refine ⟨refreshing_of_tasks hdry hroot hplain hready hrefreshing (fun t ht => ht) hl₁,
      fun q hq => ?_⟩
    rw [← hsame.tree q]
    exact untouched_of_tasks hdry hroot hplain hready hrefreshing (fun t ht => ht) hl₁
      fun l h => hq l (hmem l h)

/-- **All tasks in a settled workspace in which the repositories are found only refresh.** -/
theorem refreshes_of_tasks :
    p.Refreshes here m ((forM p.tasks p.step).launched m)
      (((forM p.tasks p.step).perform m).1 = .ok ()) (p.after p.tasks m).files := by
  obtain ⟨hrefreshing, hothers⟩ := refreshing_of_all hdry hroot hplain hsettled hready hl
  obtain ⟨built, hword, new, hnew⟩ := follows_of_tasks hdry hroot hplain hsettled hready hl
  have hlaunched : (forM p.tasks p.step).launched m = new := launched_eq hnew.continues.launches
  refine ⟨⟨built, hword, ?_, fun hdone => ?_⟩, ⟨hsettled.link, ?_⟩, fun version hv => ?_, hothers⟩
  · rw [hlaunched]
    exact hnew.commands
  · rw [hlaunched]
    exact hnew.complete () hdone
  · exact hrefreshing.kept.link hsettled.link
  · refine ⟨(hsettled.toolchains version hv).2, fun q hq huntouched => ?_⟩
    exact (hothers q huntouched).resolve_right fun h => not_isLock_toolchain hq h.1

end

end Plan

/-- **A run behind a finished one only refreshes.**  The first run starts where there is no link but
the one to the default distribution, and returns zero; none of its commands removes anything or makes
a link, and afterwards all repositories are found.  The second run has the same environment,
configuration and rules; none of its commands removes anything or puts a link in the place of a
directory of Git.

Of links the second run is asked for less than the first: its commands may make them, though not at
a place that is named `.git`.  The lock of a fork is removed by way of that directory, and a link that
came to stand there would lead the removal to another place. -/
theorem rerun_only_refreshes {words : List String} {a : Arguments}
    (hread : Arguments.read words = .run a) (hdry : a.dryRun = false) {m m₁ m' m₁' : Machine}
    {p p' : Plan} (hplan : (prepare a).perform { m with log := [] } = (.ok p, m₁))
    (hfs : m.files.WellFormed)
    (hlinks : ∀ q text, m.files.tree.get? q = some (.link text) →
      ∃ here, m.files.reach p.layout.root = .ok here ∧ q = here ++ ["go"])
    (hplain : p.IsPlain) (hreturned : (run words m).1.exit = .returned 0)
    (hgentle : ∀ l ∈ launchesOf words m, l.Gentle fun _ => True)
    (hfound : ∀ name ∈ p.repositories, (run words m).2.sees (p.layout.repoDir name) = true)
    (hfiles : m'.files = (run words m).2.files)
    (henvironment : m'.environment = m.environment) (haccounts : m'.accounts = m.accounts)
    (hplan' : (prepare a).perform { m' with log := [] } = (.ok p', m₁'))
    (hconfig : p'.config = p.config) (hrules : p'.rules = p.rules)
    (hgentle' : ∀ l ∈ launchesOf words m', l.Gentle fun q => q.getLast? = some ".git") :
    ∃ here, m₁'.files = m'.files ∧ m'.files.reach p.layout.root = .ok here ∧
      p.Refreshes here m₁' (launchesOf words m') ((run words m').1.exit = .returned 0)
        (run words m').2.files := by
  have hroot := clean_root_of_prepare hplan
  have hdry' : p.arguments.dryRun = false := by rw [(plan_of_prepare hplan).1, hdry]
  obtain rfl : p' = p := plan_of_same hplan hplan' henvironment haccounts hconfig hrules
  -- the first run
  obtain ⟨⟨records, hrun⟩, hzero⟩ := run_of_plan hread hplan
  have hstart : m₁.files = m.files := by
    obtain ⟨_, rfl⟩ := machine_of_prepare hplan
    rfl
  rw [launchesOf_of_plan hread hplan] at hgentle
  rw [← hstart] at hfs hlinks
  rcases hdone : (forM p'.tasks p'.step).perform m₁ with ⟨r, m₂⟩
  obtain rfl : r = .ok () := by simpa [hdone] using hzero hreturned
  obtain ⟨here, hsettled⟩ :=
    Plan.settled_of_tasks hdry' hroot hfs hplain.versions hlinks hgentle hdone
  rw [hdone] at hrun
  have hfiles' : m'.files = m₂.files := by rw [hfiles, hrun]
  -- the second run
  obtain ⟨⟨records', hrun'⟩, hzero'⟩ := run_of_plan hread hplan'
  have hstart' : m₁'.files = m'.files := by
    obtain ⟨_, rfl⟩ := machine_of_prepare hplan'
    rfl
  rw [launchesOf_of_plan hread hplan'] at hgentle' ⊢
  rw [← hfiles', ← hstart'] at hsettled
  have hready : p'.Ready here m₁'.files := by
    refine Plan.ready_of_settled hsettled hroot hplain fun name hname => ?_
    rw [hstart', hfiles]
    exact Machine.exists_stat_of_sees (hfound name hname)
  refine ⟨here, hstart', by rw [← hstart']; exact hsettled.reach hroot, ?_⟩
  have hrefreshes := Plan.refreshes_of_tasks hdry' hroot hplain hsettled hready hgentle'
  rw [hrun']
  exact { hrefreshes with
    commands := by
      obtain ⟨built, hword, hprefix, hend⟩ := hrefreshes.commands
      exact ⟨built, hword, hprefix, fun h => hend (hzero' h)⟩ }

namespace Sample

/-- What a command puts in place: a download one file of a distribution, and a clone the directory of
its repository. -/
def product (c : Command) : Option (Location × Entry) :=
  match c.argv with
  | ["git", "clone", url] =>
      let name := String.ofList ((Text.pieces '/' url.toList).getLastD [])
      some (["home", "go", "src", "github.com", "pub", name], .directory)
  | _ =>
      if c.isDownload then
        some (c.directory.parts ++ ["VERSION"], .file "go".toUTF8 false)
      else none

/-- The small machine, with commands that put something in place. -/
def working : Machine := { machine with
  behaviour := fun _ c fs =>
    match product c with
    | some (q, e) => (.exited 0, { fs with tree := fs.tree.put q e })
    | none => (.exited 0, fs) }

/-- The machine after a first run. -/
def worked : Machine := (run words working).2

theorem worked_eq : worked = (run words working).2 := by rw [worked]

/-- Whether a launch has done what its command does, on files where nothing was in its place. -/
def isProductive (l : Launch) : Bool :=
  l.after.tree.Closed && match product l.command with
    | some (q, e) => l.before.tree.get? q = none && !e matches .link _ &&
        l.after = { l.before with tree := l.before.tree.put q e }
    | none => l.after = l.before

/-- The plan of its runs. -/
def workingPlan : Plan where
  arguments := arguments
  environment := machine.environment
  config := { sourceOrg := "acme", sourceRepo := "widgets", targetOrg := "pub",
              githubHost := "github.com", basePackage := "github.com/pub", rulesFile := "/rules" }
  layout := ⟨Path.ofString "/home/go", "github.com/pub"⟩
  rules := [⟨"fork", [⟨"main", "1.9"⟩]⟩]

theorem isPlain_workingPlan : workingPlan.IsPlain where
  relative := by decide +kernel
  package := by decide +kernel
  repositories := by
    unfold Path.IsPart
    decide +kernel
  versions := by decide +kernel

/-- Two runs on this machine. -/
theorem run_working :
    (run words working).1.exit = .returned 0 ∧ (run words worked).1.exit = .returned 0 ∧
      (launchesOf words working).length = 12 ∧
      (launchesOf words working).all isProductive ∧ (launchesOf words worked).all isProductive ∧
      ((prepare arguments).perform { working with log := [] }).1.toOption = some workingPlan ∧
      ((prepare arguments).perform { worked with log := [] }).1.toOption = some workingPlan ∧
      workingPlan.repositories.all (fun name => worked.sees (workingPlan.layout.repoDir name)) := by
  decide +kernel

/-- Such a launch has left the files as they were, or put something new in place. -/
theorem cases_of_isProductive {l : Launch} (h : isProductive l = true) :
    l.after.tree.Closed ∧ (l.after = l.before ∨ ∃ q e, l.before.tree.get? q = none ∧
      (∀ text, e ≠ .link text) ∧ l.after = { l.before with tree := l.before.tree.put q e }) := by
  unfold isProductive at h
  rw [Bool.and_eq_true, decide_eq_true_eq] at h
  refine ⟨h.1, ?_⟩
  split at h
  · next q e _ =>
    simp only [Bool.and_eq_true, decide_eq_true_eq] at h
    obtain ⟨-, ⟨hnone, hlink⟩, hafter⟩ := h
    refine Or.inr ⟨q, e, hnone, ?_, hafter⟩
    rintro text rfl
    simp at hlink
  · exact Or.inl (by simpa using h.2)

/-- What such a launch does is gentle. -/
theorem gentle_of_isProductive {l : Launch} (h : isProductive l = true)
    (bare : Location → Prop) : l.Gentle bare := by
  obtain ⟨hclosed, hsame | ⟨q, e, hnone, hlink, hafter⟩⟩ := cases_of_isProductive h
  · exact Launch.gentle_of_same hclosed hsame
  · exact Launch.gentle_of_put hclosed hnone hlink hafter

/-- There is no link on the machine. -/
theorem links_working (q : Location) (text : String) :
    working.files.tree.get? q ≠ some (.link text) := by
  intro hlink
  have hentries : ∀ x ∈ working.files.tree.entries, ∀ text, x.2 ≠ .link text := by
    intro x hx text
    rcases List.mem_cons.1 hx with rfl | hx
    · simp
    · obtain rfl := List.mem_singleton.1 hx
      simp
  exact hentries _ (Tree.mem_of_link hlink) text rfl

end Sample

/-- The second run builds the tools once more, and sets the address of the fork. -/
theorem rerun_only_refreshes_sample :
    (run Sample.words Sample.working).1.exit = .returned 0 ∧
      (run Sample.words Sample.worked).1.exit = .returned 0 ∧
      ∃ here m₁, (prepare Sample.arguments).perform { Sample.worked with log := [] } =
          (.ok Sample.workingPlan, m₁) ∧
        Rules.destinations Sample.workingPlan.rules = ["fork"] ∧
        Sample.workingPlan.Refreshes here m₁ (launchesOf Sample.words Sample.worked)
          ((run Sample.words Sample.worked).1.exit = .returned 0)
          (run Sample.words Sample.worked).2.files := by
  obtain ⟨hfirst, hsecond, -, hgentle, hgentle', hplan, hplan', hfound⟩ := Sample.run_working
  refine ⟨hfirst, hsecond, ?_⟩
  have hprepare := perform_of_toOption hplan
  have hprepare' := perform_of_toOption hplan'
  -- the first run has left the environment and the accounts alone
  have hcontinues := continues_run Sample.read_words rfl Sample.working
  have henvironment : Sample.worked.environment = Sample.working.environment := by
    rw [Sample.worked_eq, hcontinues.environment]
  have haccounts : Sample.worked.accounts = Sample.working.accounts := by
    rw [Sample.worked_eq, hcontinues.accounts]
  obtain ⟨here, -, -, hrefreshes⟩ := rerun_only_refreshes Sample.read_words rfl hprepare
    ⟨by decide +kernel, by decide +kernel⟩
    (fun q text hlink => absurd hlink (Sample.links_working q text)) Sample.isPlain_workingPlan hfirst
    (fun l hl => Sample.gentle_of_isProductive (List.all_eq_true.1 hgentle l hl) _)
    (fun name hname => by rw [← Sample.worked_eq]; exact List.all_eq_true.1 hfound name hname)
    (by rw [Sample.worked_eq]) henvironment haccounts hprepare' rfl rfl
    (fun l hl => Sample.gentle_of_isProductive (List.all_eq_true.1 hgentle' l hl) _)
  exact ⟨here, _, hprepare', rfl, hrefreshes⟩

end Bootstrap

end Provision
