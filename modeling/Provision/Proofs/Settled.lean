/-
**What a finished run has settled.**

A run that returns zero, with commands that remove nothing and make no links, leaves the workspace in
a settled state: the distributions are in their places, and the only link is the one to the default
distribution, which can be removed and made again without the way to it being lost.  The link settles
this, and none of the tasks behind it changes it.

Main definition:

* `Provision.Bootstrap.Plan.Settled` — **a settled workspace**.

Main results:

* `Provision.Bootstrap.Plan.keeps_of_toolchains` — distributions that have been put in place;
* `Provision.Bootstrap.Plan.settled_of_link` — the link settles the workspace;
* `Provision.Bootstrap.Plan.settled_of_tasks` — **a finished run leaves a settled workspace**.
-/

import Provision.Proofs.Clearing
import Provision.Proofs.Keeping
import Provision.Proofs.Layouts
import Provision.Proofs.Turns

set_option relaxedAutoImplicit false
set_option autoImplicit false

namespace Provision

open Step

namespace Bootstrap.Plan

/-- **A settled workspace**, whose root leads to the directory `here`. -/
structure Settled (p : Plan) (here : Location) (fs : FileSystem) : Prop where
  wellFormed : fs.WellFormed
  /-- There is one link, -/
  links : ∀ q text, fs.tree.get? q = some (.link text) → q = here ++ ["go"]
  /-- which leads to the default distribution, -/
  link : fs.tree.get? (here ++ ["go"]) =
    some (.link (p.layout.goDir Rules.defaultGoVersion).toString)
  /-- and does not lie on the way to itself; -/
  leadsTo : FileSystem.LeadsTo { fs with tree := fs.tree.erase (here ++ ["go"]) }
    p.layout.goLink.toString here "go"
  /-- a link with its text can be made. -/
  linkable : ∃ fs₀ fs₁ : FileSystem, fs₀.symlink (p.layout.goDir Rules.defaultGoVersion).toString
    p.layout.goLink.toString = .ok fs₁
  /-- The distributions are in their places. -/
  toolchains : ∀ version ∈ Rules.goVersions p.rules,
    fs.LeadsTo (p.layout.goDir version).toString here ("go-" ++ version) ∧
      (fs.tree.get? (here ++ ["go-" ++ version])).isSome

variable {p : Plan} {here : Location} {fs fs' : FileSystem} {m m₁ : Machine} {t : Task}

namespace Settled

/-- A settled workspace stays settled if everything is kept and no link is made. -/
theorem keeps (h : p.Settled here fs) (hkeeps : fs.Keeps (fun _ => True) fs') :
    p.Settled here fs' where
  wellFormed := hkeeps.wellFormed h.wellFormed
  links q text hlink := h.links q text (hkeeps.links q text trivial hlink)
  link := hkeeps.kept.link h.link
  leadsTo := h.leadsTo.of_kept (hkeeps.kept.erase (by simp)) hkeeps.workingDirectory id
  linkable := h.linkable
  toolchains := by
    intro version hv
    obtain ⟨hleads, hthere⟩ := h.toolchains version hv
    exact ⟨hleads.of_kept hkeeps.kept hkeeps.workingDirectory id, hkeeps.kept.isSome id hthere⟩

/-- The lock of a repository is not part of it. -/
theorem cleared (h : p.Settled here fs) {repo : Path} (hrepo : repo.Clean) :
    p.Settled here (fs.cleared (Git.indexLock repo).toString) := by
  rcases FileSystem.cleared_cases fs (Git.indexLock repo).toString with
    hsame | ⟨there, name, e, hleads, hget, he, hcleared⟩
  · rwa [hsame]
  obtain ⟨-, rfl⟩ := Git.leadsTo_indexLock hrepo hleads
  have hfile : e.isFile = true := by
    cases e with
    | directory => exact absurd rfl he
    | file content executable => rfl
    | link text => simpa using h.links _ text hget
  have hkept := Tree.kept_erase hget hfile
  -- the directory of the link and the distributions is no file
  have hhere : here ≠ there ++ ["index.lock"] := by
    rintro rfl
    have hdirectory := h.wellFormed.closed _ "go" (by rw [h.link]; rfl)
    rw [hget] at hdirectory
    exact he (Option.some.inj hdirectory)
  have hothers : ∀ name, name ≠ "index.lock" →
      (fs.tree.erase (there ++ ["index.lock"])).get? (here ++ [name]) =
        fs.tree.get? (here ++ [name]) := by
    intro name hname
    rw [Tree.get?_erase _ (by simp), if_neg (by simp [hname])]
  have hleft : ∀ q, q ≠ there ++ ["index.lock"] →
      (fs.tree.erase (there ++ ["index.lock"])).get? q = fs.tree.get? q := by
    intro q hq
    rw [Tree.get?_erase _ (by simp), if_neg hq]
  rw [hcleared]
  refine ⟨?_, fun q text hlink => ?_, ?_, ?_, h.linkable, fun version hv => ?_⟩
  · rw [← hcleared]
    exact h.wellFormed.cleared _
  · have hq : q ≠ there ++ ["index.lock"] := by
      rintro rfl
      simp [Tree.get?_erase] at hlink
    rw [hleft q hq] at hlink
    exact h.links q text hlink
  · rw [hothers _ (by decide), h.link]
  · exact h.leadsTo.of_kept (hkept.erase (by simp)) rfl hhere
  · obtain ⟨hleads', hthere⟩ := h.toolchains version hv
    refine ⟨hleads'.of_kept hkept rfl hhere, ?_⟩
    rwa [hothers]
    intro hname
    have := congrArg (fun s => s.toList.head?) hname
    simp at this

end Settled

section

variable (hdry : p.arguments.dryRun = false) (hroot : p.layout.root.Clean)
include hdry hroot

/-! ### The distributions -/

/-- A distribution that has been put in place. -/
theorem keeps_of_toolchain {version : String} (hversion : '/' ∉ version.toList)
    (htmp : ¬"tmp-".toList <+: version.toList) (hfs : m.files.WellFormed)
    (hlinks : ∀ here name text, m.files.tree.get? (here ++ [name]) = some (.link text) →
      name = "go")
    (hl : ∀ l ∈ (p.step (.toolchain version)).launched m, l.Gentle fun _ => True) {u : Unit}
    (hstep : (p.step (.toolchain version)).perform m = (.ok u, m₁)) :
    m.files.Keeps (fun _ => True) m₁.files ∧
      ∃ here, m₁.files.LeadsTo (p.layout.goDir version).toString here ("go-" ++ version) ∧
        (m₁.files.tree.get? (here ++ ["go-" ++ version])).isSome := by
  have hrunner : p.runner.dryRun = false := hdry
  obtain ⟨new, hnew, hcourse⟩ := Toolchain.course_of_install hrunner hroot version hfs
  have hperform := perform_toolchain p version m
  rw [launched_eq (by rw [hperform]; exact hnew)] at hl
  rw [hperform] at hstep
  rcases hinstall : (Toolchain.install version p.layout p.runner).perform m with ⟨e | status, m₂⟩
  · simp [hinstall, Except.map] at hstep
  · rw [hinstall] at hcourse hstep
    obtain rfl : m₂ = m₁ := by simpa [Except.map] using hstep
    exact Toolchain.keeps_of_course hroot hversion htmp hlinks hcourse hl

/-- **Distributions that have been put in place**, one after the other. -/
theorem keeps_of_toolchains {versions : List String}
    (hversions : ∀ version ∈ versions,
      '/' ∉ version.toList ∧ ¬"tmp-".toList <+: version.toList)
    (hfs : m.files.WellFormed)
    (hlinks : ∀ here name text, m.files.tree.get? (here ++ [name]) = some (.link text) →
      name = "go")
    (hl : ∀ l ∈ (forM (versions.map .toolchain) p.step).launched m, l.Gentle fun _ => True)
    {u : Unit} (hdone : (forM (versions.map .toolchain) p.step).perform m = (.ok u, m₁)) :
    m.files.Keeps (fun _ => True) m₁.files ∧
      ∀ version ∈ versions,
        ∃ here, m₁.files.LeadsTo (p.layout.goDir version).toString here ("go-" ++ version) ∧
          (m₁.files.tree.get? (here ++ ["go-" ++ version])).isSome := by
  induction versions generalizing m with
  | nil =>
      obtain rfl : m = m₁ := by simpa using hdone
      exact ⟨.refl _ _, by simp⟩
  | cons version versions ih =>
      rw [List.map_cons] at hl hdone
      rw [List.forM_cons] at hdone
      obtain ⟨_, m₂, hstep, hothers⟩ := perform_bind_eq_ok.1 hdone
      obtain ⟨hversion, htmp⟩ := hversions version (by simp)
      obtain ⟨hfirst, here, hleads, hthere⟩ := keeps_of_toolchain hdry hroot hversion htmp hfs hlinks
        (fun l hmem => hl l (mem_launched_cons hdry (Or.inl hmem))) hstep
      obtain ⟨hrest, hplaces⟩ := ih (fun v h => hversions v (by simp [h])) (hfirst.wellFormed hfs)
        (fun here name text hlink => hlinks here name text (hfirst.links _ text trivial hlink))
        (fun l hmem => hl l (mem_launched_cons hdry (Or.inr ⟨m₂, hstep, hmem⟩))) hothers
      refine ⟨hfirst.trans hrest, fun v hv => ?_⟩
      rcases List.mem_cons.1 hv with rfl | hv
      · exact ⟨here, hleads.of_kept hrest.kept hrest.workingDirectory id, hrest.kept.isSome id hthere⟩
      · exact hplaces v hv

/-! ### The link -/

/-- **The link settles the workspace**, if the only link has been in its place. -/
theorem settled_of_link (hfs : m.files.WellFormed)
    (hversions : ∀ version ∈ Rules.goVersions p.rules, '/' ∉ version.toList)
    (hlinks : ∀ q text, m.files.tree.get? q = some (.link text) →
      ∃ here, m.files.reach p.layout.root = .ok here ∧ q = here ++ ["go"])
    (hplaces : ∀ version ∈ Rules.goVersions p.rules,
      ∃ here, m.files.LeadsTo (p.layout.goDir version).toString here ("go-" ++ version) ∧
        (m.files.tree.get? (here ++ ["go-" ++ version])).isSome) {u : Unit}
    (hstep : (p.step .link).perform m = (.ok u, m₁)) : ∃ here, p.Settled here m₁.files := by
  obtain ⟨r, m', hperform, -, hcases⟩ := link_cases hdry m
  obtain ⟨rfl, rfl⟩ : r = .ok u ∧ m' = m₁ := by simpa [hperform] using hstep
  obtain ⟨-, hsymlink⟩ := hcases.resolve_right (by simp)
  obtain ⟨hless, hworking⟩ := FileSystem.gains_of_cleared m.files p.layout.goLink.toString
  obtain ⟨here, hrelinks, hlinked⟩ := Toolchain.relinks_of_symlink hroot hsymlink
  obtain ⟨there, name, hleads, hnone, hfiles⟩ := FileSystem.symlink_eq_ok hsymlink
  obtain ⟨hreach, rfl⟩ := FileSystem.reach_of_leadsTo_child hroot Toolchain.isPart_go hleads
  obtain rfl : here = there := by
    have hback := FileSystem.reach_of_gains hless hworking.symm hreach
    simpa [hrelinks.root] using hback
  -- without the link, the files are those in which its place had been cleared
  have herased : (m.files.cleared p.layout.goLink.toString).tree.Gains
      (m'.files.tree.erase (here ++ ["go"])) := by
    intro q hq
    have hne : q ≠ here ++ ["go"] := by
      rintro rfl
      simp [hnone] at hq
    rw [Tree.get?_erase _ (by simp), if_neg hne, hfiles, Tree.get?_put _ (by simp), if_neg hne]
  have hdirectory : m'.files.workingDirectory =
      (m.files.cleared p.layout.goLink.toString).workingDirectory := by rw [hfiles]
  refine ⟨here, (hfs.cleared _).symlink hsymlink, fun q text hq => ?_, hlinked.link,
    hleads.of_kept herased.kept hdirectory id, ⟨_, _, hsymlink⟩, fun version hv => ?_⟩
  · by_cases hne : q = here ++ ["go"]
    · exact hne
    · rw [hrelinks.others q hne] at hq
      obtain ⟨there, hthere, rfl⟩ := hlinks q text hq
      obtain rfl : here = there := by simpa [hrelinks.root] using hthere
      rfl
  · obtain ⟨there, hto, hthere⟩ := hplaces version hv
    have hpart := Toolchain.isPart_goName (hversions version hv)
    obtain ⟨hback, -⟩ := FileSystem.reach_of_leadsTo_child hroot hpart hto
    obtain rfl : here = there := by simpa [hrelinks.root] using hback
    refine ⟨hto.of_reach hroot hpart (hdirectory.trans hworking) hlinked.root, ?_⟩
    have hother : "go-" ++ version ≠ "go" := Toolchain.goName_ne version (by decide)
    rwa [hrelinks.others _ (by simpa using hother)]

/-! ### The tasks behind the link -/

/-- **A task behind the link leaves the workspace settled.** -/
theorem settled_of_step (h : p.Settled here m.files)
    (ht : t ∈ [.base] ++ (p.tools ++ ([.source] ++ p.forks)))
    (hl : ∀ l ∈ (p.step t).launched m, l.Gentle fun _ => True) :
    p.Settled here ((p.step t).perform m).2.files := by
  have hother : ∀ version, t ≠ .toolchain version := by
    rintro version rfl
    simp [tools, forks] at ht
  have hgentle : ∀ l ∈ (p.step t).launched m,
      l.Gentle (fun _ => True) ∧ l.command.isDownload = false :=
    fun l hmem => ⟨hl l hmem, isDownload_of_launched hdry hother l hmem⟩
  rcases List.mem_append.1 ht with hbase | hwork
  · obtain rfl : t = .base := List.mem_singleton.1 hbase
    obtain ⟨hextends, hfs⟩ := extends_of_step hdry h.wellFormed
    exact h.keeps (hextends.keeps hfs)
  · obtain ⟨new, fs, hnew, hchain, hcases⟩ := work_cases hdry hwork m
    rw [launched_eq hnew] at hgentle
    have hbefore := h.keeps (hchain.keeps hgentle)
    rcases hcases with hsame | ⟨name, -, hcleared⟩
    · rwa [hsame]
    · rw [hcleared]
      exact hbefore.cleared (Layout.clean_repoDir hroot name)

/-- The tasks behind the link, one after the other, leave the workspace settled. -/
theorem settled_of_later {ts : List Task} (h : p.Settled here m.files)
    (hts : ∀ t ∈ ts, t ∈ [.base] ++ (p.tools ++ ([.source] ++ p.forks)))
    (hl : ∀ l ∈ (forM ts p.step).launched m, l.Gentle fun _ => True) :
    p.Settled here (p.after ts m).files := by
  refine after_induction hdry (motive := fun m => p.Settled here m.files) ?_ h hl
  intro t ht m h hl
  exact settled_of_step hdry hroot h (hts t ht) hl

/-- **A finished run leaves a settled workspace**, if no link but the one to the default distribution
was there before. -/
theorem settled_of_tasks (hfs : m.files.WellFormed)
    (hversions : ∀ version ∈ Rules.goVersions p.rules,
      '/' ∉ version.toList ∧ ¬"tmp-".toList <+: version.toList)
    (hlinks : ∀ q text, m.files.tree.get? q = some (.link text) →
      ∃ here, m.files.reach p.layout.root = .ok here ∧ q = here ++ ["go"])
    (hl : ∀ l ∈ (forM p.tasks p.step).launched m, l.Gentle fun _ => True) {u : Unit}
    (hdone : (forM p.tasks p.step).perform m = (.ok u, m₁)) : ∃ here, p.Settled here m₁.files := by
  have htasks : p.tasks =
      p.toolchains ++ ([.link] ++ ([.base] ++ (p.tools ++ ([.source] ++ p.forks)))) := rfl
  rw [htasks, List.forM_append] at hdone
  obtain ⟨_, m₂, hgo, hdone⟩ := perform_bind_eq_ok.1 hdone
  rw [List.forM_append] at hdone
  obtain ⟨_, m₃, hlink, hdone⟩ := perform_bind_eq_ok.1 hdone
  rw [htasks] at hl
  have hlater := fun l hmem => hl l (mem_launched_append hdry (Or.inr ⟨m₂, hgo, hmem⟩))
  obtain ⟨hkeeps, hplaces⟩ := keeps_of_toolchains hdry hroot hversions hfs
    (fun here name text hlink => by
      obtain ⟨there, -, hthere⟩ := hlinks _ text hlink
      simpa using (List.append_inj' hthere rfl).2)
    (fun l hmem => hl l (mem_launched_append hdry (Or.inl hmem))) hgo
  have hstep : (p.step .link).perform m₂ = (.ok (), m₃) := by simpa using hlink
  obtain ⟨here, hsettled⟩ := settled_of_link hdry hroot (hkeeps.wellFormed hfs)
    (fun version hv => (hversions version hv).1)
    (fun q text hq => by
      obtain ⟨here, hreach, hplace⟩ := hlinks q text (hkeeps.links q text trivial hq)
      exact ⟨here, hkeeps.reach hreach, hplace⟩) hplaces hstep
  have hend := settled_of_later hdry hroot hsettled (fun t ht => ht)
    fun l hmem => hlater l (mem_launched_append hdry (Or.inr ⟨m₃, hlink, hmem⟩))
  rw [after, hdone] at hend
  exact ⟨here, hend⟩

end

end Bootstrap.Plan

end Provision
