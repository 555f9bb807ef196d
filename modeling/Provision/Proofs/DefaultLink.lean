/-
**Following the default link.**

When all distributions are in their places, the link `go` is made with the path of the default one as
its text.  A path that is absolute means the same wherever it is read, so that the link leads to the
distribution, unless the way to the root takes so many links that it cannot be gone twice in one walk.
A relative path is read from the directory of the link, which is the root and not the directory that
the program works in; so the link leads to the distribution only if the way to the root, gone from the
root itself, comes back to it.

Main definitions:

* `Provision.Toolchain.Advances` — rounds that remove nothing;
* `Provision.Layout.LinkLeadsBack` — **the text of the link leads from the link to the distribution**.

Main results:

* `Provision.Toolchain.advances_install` — a round removes nothing, whatever its version is;
* `Provision.Toolchain.Linked.follow` — where the link leads;
* `Provision.Toolchain.Linked.dangles` — a relative root that does not begin below itself;
* `Provision.Toolchain.default_link_works_iff` — **when the link works**.
-/

import Provision.Proofs.Routes
import Provision.Proofs.Toolchains

set_option relaxedAutoImplicit false
set_option autoImplicit false

namespace Provision

open FileSystem

/-- **The text of the link leads from the link to the distribution**, in the directory `here` to which
the root has led by way of `links` links.  An absolute path takes the same links again, behind the one
that is followed. -/
def Layout.LinkLeadsBack (layout : Layout) (t : Tree) (here : Location) (links : Nat) : Prop :=
  if layout.root.anchor = .relative then
    links < maxLinks ∧
      walk t true (maxLinks - (links + 1)) here
        (layout.root.parts ++ ["go-" ++ Rules.defaultGoVersion]) =
          .ok (here ++ ["go-" ++ Rules.defaultGoVersion])
  else 2 * links < maxLinks

namespace Toolchain

open Step

variable {layout : Layout} {fs fs' : FileSystem} {here : Location} {links : Nat}

/-! ### Rounds that remove nothing -/

/-- **Nothing is removed from `m` to `m'`**, if the launches in between are confined. -/
structure Advances (m : Machine) (new : List Launch) (m' : Machine) : Prop where
  launches : m'.launches = m.launches ++ new
  files : m.files.WellFormed → (∀ l ∈ new, l.Confined) → m.files.tree.Gains m'.files.tree ∧
    m'.files.workingDirectory = m.files.workingDirectory ∧ m'.files.WellFormed

theorem Advances.refl (m : Machine) : Advances m [] m :=
  ⟨by simp, fun hfs _ => ⟨.refl _, rfl, hfs⟩⟩

theorem Advances.trans {m m₁ m₂ : Machine} {new new' : List Launch} (h : Advances m new m₁)
    (h' : Advances m₁ new' m₂) : Advances m (new ++ new') m₂ where
  launches := by rw [h'.launches, h.launches, List.append_assoc]
  files := by
    intro hfs hconfined
    rw [List.forall_mem_append] at hconfined
    obtain ⟨hgains, hworking, hfs₁⟩ := h.files hfs hconfined.1
    obtain ⟨hgains', hworking', hfs₂⟩ := h'.files hfs₁ hconfined.2
    exact ⟨hgains.trans hgains', hworking'.trans hworking, hfs₂⟩

section

variable {runner : Runner} (hdry : runner.dryRun = false) (hroot : layout.root.Clean)
  {m m₁ m' : Machine}
include hdry hroot

/-- **A round removes nothing**, whatever its version is. -/
theorem advances_install (version : String) (m : Machine) :
    ∃ new, Advances m new ((install version layout runner).perform m).2 := by
  obtain ⟨_, -, new, hcarries⟩ := follows_install hdry version layout m
  have hlaunches := hcarries.continues.launches
  refine ⟨new, hlaunches, fun hfs hconfined => ?_⟩
  obtain ⟨new', hlaunches', hcourse⟩ := course_of_install hdry hroot version hfs
  obtain rfl : new = new' := List.append_cancel_left (hlaunches.symm.trans hlaunches')
  exact gains_of_course hfs hcourse hconfined

/-- Neither do any number of rounds. -/
theorem advances_mapM {versions : List String} {statuses : List Status}
    (h : (versions.mapM fun v => install v layout runner).perform m = (.ok statuses, m')) :
    ∃ new, Advances m new m' := by
  induction versions generalizing m statuses with
  | nil =>
      obtain ⟨-, rfl⟩ : [] = statuses ∧ m = m' := by simpa using h
      exact ⟨[], .refl m⟩
  | cons v versions ih =>
      rw [List.mapM_cons, perform_bind_eq_ok] at h
      obtain ⟨status, m₁, hfirst, hrest⟩ := h
      rw [perform_bind_eq_ok] at hrest
      obtain ⟨others, m₂, hothers, hend⟩ := hrest
      obtain ⟨-, rfl⟩ : status :: others = statuses ∧ m₂ = m' := by simpa using hend
      obtain ⟨new, hround⟩ := advances_install hdry hroot v m
      obtain ⟨new', hrounds⟩ := ih hothers
      rw [hfirst] at hround
      exact ⟨new ++ new', hround.trans hrounds⟩

end

/-! ### Where the link leads -/

/-- The name of the place of the default version. -/
theorem isPart_default : Path.IsPart ("go-" ++ Rules.defaultGoVersion) :=
  isPart_goName (by decide)

theorem isName_default : IsName ("go-" ++ Rules.defaultGoVersion) :=
  ⟨by decide, by decide, by decide⟩

/-- The text of the link starts at the root directory if the root of the workspace does. -/
theorem linkOrigin_goDir (hroot : layout.root.Clean) (here : Location) :
    linkOrigin here (layout.goDir Rules.defaultGoVersion).toString =
      if layout.root.anchor = .relative then here else [] := by
  rw [linkOrigin, Layout.goDir, Path.toString_child _ isPart_default,
    startsAtRoot_text _ (hroot.parts.concat isPart_default)]
  cases layout.root.anchor <;> rfl

/-- The names in the text of the link. -/
theorem steps_goDir (hroot : layout.root.Clean) :
    steps (layout.goDir Rules.defaultGoVersion).toString.toList =
      layout.root.parts ++ ["go-" ++ Rules.defaultGoVersion] := by
  rw [Layout.goDir, Path.toString_child _ isPart_default,
    steps_text _ (by simp) (hroot.parts.concat isPart_default)]

namespace Linked

variable (h : Linked layout here fs) (hroot : layout.root.Clean)
  (hroute : Route fs.tree (fs.origin layout.root.anchor) layout.root.parts links here)
include h hroot hroute

/-- **Where the link leads**: the names of its text are followed with the links that are left. -/
theorem follow : fs.resolve layout.goLink.toString true =
    (if maxLinks ≤ links then .error .linkLoop
      else walk fs.tree true (maxLinks - (links + 1))
        (if layout.root.anchor = .relative then here else [])
        (layout.root.parts ++ ["go-" ++ Rules.defaultGoVersion])).mapError .failed := by
  obtain ⟨start, names, henter, -⟩ := h.leadsTo.enter
  have htext := henter
  rw [Layout.goLink, Path.toString_child _ isPart_go] at htext
  obtain ⟨rfl, hnames⟩ := enter_text (by simp) (hroot.parts.concat isPart_go) htext
  have hwalk : walk fs.tree true maxLinks (fs.origin layout.root.anchor) (names ++ ["go"]) =
      if maxLinks ≤ links then .error .linkLoop
      else walk fs.tree true (maxLinks - (links + 1))
        (if layout.root.anchor = .relative then here else [])
        (layout.root.parts ++ ["go-" ++ Rules.defaultGoVersion]) := by
    rw [hnames, hroute.walk true (by simp), walk_link h.leadsTo.name h.link (Or.inr rfl),
      linkOrigin_goDir hroot, steps_goDir hroot, List.append_nil]
    -- the link is followed if one is left for it
    by_cases hmany : maxLinks ≤ links
    · rw [if_pos hmany]
      split
      · rfl
      · next hless =>
        have hzero : maxLinks - links = 0 := by omega
        rw [hzero]
    · have hleft : maxLinks - links = maxLinks - (links + 1) + 1 := by omega
      rw [if_neg hmany, if_neg (by omega), hleft]
  rw [resolve, henter]
  simp only [bind, Except.bind, hwalk]

/-- **The link leads to the distribution if and only if its text leads back.** -/
theorem leads_iff (hplace : fs.tree.get? (here ++ ["go-" ++ Rules.defaultGoVersion]) =
      some .directory) :
    fs.resolve layout.goLink.toString true = .ok (here ++ ["go-" ++ Rules.defaultGoVersion]) ↔
      layout.LinkLeadsBack fs.tree here links := by
  have hok : ∀ {walked : Except Errno Location} {there : Location},
      walked.mapError Refusal.failed = .ok there ↔ walked = .ok there := by
    intro walked there
    cases walked <;> simp
  rw [h.follow hroot hroute, hok, Layout.LinkLeadsBack]
  by_cases hrelative : layout.root.anchor = .relative
  · simp only [if_pos hrelative]
    by_cases hmany : maxLinks ≤ links
    · simp [hmany, Nat.not_lt.2 hmany]
    · simp [hmany, Nat.lt_of_not_le hmany]
  -- the way to the root is gone once more
  · have horigin : fs.origin layout.root.anchor = [] := if_neg hrelative
    rw [horigin] at hroute
    simp only [if_neg hrelative]
    rw [hroute.walk true (by simp), walk_directory isName_default hplace, walk_nil]
    by_cases hmany : maxLinks ≤ links
    · rw [if_pos hmany]
      simp
      omega
    · rw [if_neg hmany]
      split
      · simp
        omega
      · simp
        omega

omit hroute in
/-- **The link leads nowhere if the root is relative** and nothing in the root itself bears the name
that it begins with. -/
theorem dangles {w : String} {rest : List String} (hrelative : layout.root.anchor = .relative)
    (hparts : layout.root.parts = w :: rest) (hdots : w ≠ "..")
    (hnone : fs.tree.get? (here ++ [w]) = none) :
    ¬layout.LinkLeadsBack fs.tree here links := by
  have hname : IsName w := by
    have hreach := h.root
    rw [reach, hparts] at hreach
    exact (walk_name_of_ok (hroot w (by simp [hparts])).2.1 hdots hreach).1
  rw [Layout.LinkLeadsBack, if_pos hrelative, hparts, List.cons_append, walk_missing hname hnone]
  simp

end Linked

/-! ### All distributions, and the link -/

section

variable {runner : Runner} (hdry : runner.dryRun = false) (hroot : layout.root.Clean)
  {m m' : Machine} (hfs : m.files.WellFormed)
  (hplace : ∀ text, m.files.lstat (layout.goDir Rules.defaultGoVersion).toString ≠ .ok (.link text))
include hdry hroot hfs hplace

/-- **Behind its round the default version is in its place**, and is no link. -/
theorem lstat_of_install {status : Status} {new : List Launch}
    (hround : (install Rules.defaultGoVersion layout runner).perform m = (.ok status, m'))
    (hnew : m'.launches = m.launches ++ new) (hconfined : ∀ l ∈ new, l.Confined) :
    m'.files.lstat (layout.goDir Rules.defaultGoVersion).toString = .ok .directory := by
  obtain ⟨new', hlaunches, hturnout⟩ := turnout_of_install hdry hroot
    (show '/' ∉ Rules.defaultGoVersion.toList by decide) (by decide) m
  rw [hround] at hlaunches hturnout
  obtain rfl : new = new' := List.append_cancel_left (hnew.symm.trans hlaunches)
  have hcases := hturnout hfs hconfined
  generalize m'.files = fs' at hcases
  cases hcases with
  | existing found => exact lstat_of_stat_ok hroot isPart_default (by decide) found hplace
  | installed missing download root fills leadsTo => exact leadsTo.lstat_eq fills.place

/-- Behind all rounds it still is. -/
theorem lstat_of_rounds {rules : List RepositoryRule} {statuses : List Status}
    (h : ((Rules.goVersions rules).mapM fun v => install v layout runner).perform m =
      (.ok statuses, m')) :
    ∃ new, m'.launches = m.launches ++ new ∧ ((∀ l ∈ new, l.Confined) → m'.files.WellFormed ∧
      m'.files.lstat (layout.goDir Rules.defaultGoVersion).toString = .ok .directory) := by
  obtain ⟨others, hothers⟩ := Rules.exists_goVersions_eq rules
  rw [hothers, List.mapM_cons, perform_bind_eq_ok] at h
  obtain ⟨status, m₁, hfirst, h⟩ := h
  rw [perform_bind_eq_ok] at h
  obtain ⟨more, m₂, hmore, hend⟩ := h
  obtain ⟨-, rfl⟩ : status :: more = statuses ∧ m₂ = m' := by simpa using hend
  obtain ⟨new, hround⟩ := advances_install hdry hroot Rules.defaultGoVersion m
  obtain ⟨new', hrounds⟩ := advances_mapM hdry hroot hmore
  rw [hfirst] at hround
  refine ⟨new ++ new', (hround.trans hrounds).launches, fun hconfined => ?_⟩
  rw [List.forall_mem_append] at hconfined
  obtain ⟨-, -, hfs₁⟩ := hround.files hfs hconfined.1
  obtain ⟨hgains, hworking, hfs₂⟩ := hrounds.files hfs₁ hconfined.2
  exact ⟨hfs₂, lstat_of_gains hgains hworking
    (lstat_of_install hdry hroot hfs hplace hfirst hround.launches hconfined.1)⟩

/-- **When the link works**: behind an installation that has gone through, the path of the default
version leads to a directory below the root, and that of the link leads to the same one if and only if
its text leads back. -/
theorem default_link_works_iff {rules : List RepositoryRule} {statuses : List Status}
    (hperform : (installAll rules layout runner).perform m = (.ok statuses, m'))
    (hconfined : ∀ l ∈ (installAll rules layout runner).launched m, l.Confined) :
    ∃ here links,
      Route m'.files.tree (m'.files.origin layout.root.anchor) layout.root.parts links here ∧
      m'.files.tree.get? (here ++ ["go-" ++ Rules.defaultGoVersion]) = some .directory ∧
      m'.files.resolve (layout.goDir Rules.defaultGoVersion).toString true =
        .ok (here ++ ["go-" ++ Rules.defaultGoVersion]) ∧
      (m'.files.resolve layout.goLink.toString true =
          m'.files.resolve (layout.goDir Rules.defaultGoVersion).toString true ↔
        layout.LinkLeadsBack m'.files.tree here links) := by
  have hsteps := hperform
  rw [installAll, hdry, perform_bind_eq_ok] at hsteps
  obtain ⟨statuses', m₁, hrounds, hsteps⟩ := hsteps
  rw [perform_bind_eq_ok] at hsteps
  obtain ⟨link, m₂, hlink, hend⟩ := hsteps
  obtain ⟨-, rfl⟩ : statuses' = statuses ∧ m₂ = m' := by simpa using hend
  obtain ⟨new, hlaunches, hfiles⟩ := lstat_of_rounds hdry hroot hfs hplace hrounds
  obtain ⟨r, m₃, hperformed, hsilent, -⟩ := linkDefault_cases layout Rules.defaultGoVersion m₁
  obtain ⟨rfl, rfl⟩ : .ok link = r ∧ m₂ = m₃ := by simpa [hlink] using hperformed
  rw [launched_eq (by rw [hperform, hsilent, hlaunches])] at hconfined
  obtain ⟨hfs₁, hdefault⟩ := hfiles hconfined
  obtain ⟨there, hreach, hleads, hget⟩ :=
    leadsTo_of_lstat_ok hroot isPart_default (by decide) hdefault
  -- the link has been made in the directory that the root leads to
  obtain ⟨r, m₃, hperformed, -, -, hworking, -, hmade⟩ := relinks_of_linkDefault hroot hfs₁
  obtain ⟨rfl, rfl⟩ : .ok link = r ∧ m₂ = m₃ := by simpa [hlink] using hperformed
  obtain ⟨here, hrelinks, hlinked⟩ := hmade link rfl
  obtain rfl : there = here := by simpa [hreach] using hrelinks.root
  rw [← hrelinks.others _ (by simp; decide)] at hget
  have hthere : m₂.files.resolve (layout.goDir Rules.defaultGoVersion).toString true =
      .ok (there ++ ["go-" ++ Rules.defaultGoVersion]) :=
    (hleads.of_reach hroot isPart_default hworking hlinked.root).resolve_of_directory hget true
  obtain ⟨links, -, hroute⟩ := exists_route hlinked.root
  refine ⟨there, links, hroute, hget, hthere, ?_⟩
  rw [hthere]
  exact hlinked.leads_iff hroot hroute hget

end

namespace Sample

/-- A root that is relative to the home directory. -/
def relative : Layout := ⟨Path.ofString "gp", "example.org"⟩

/-- A machine that works in the home directory, and on which downloads do nothing. -/
def homely : Machine where
  files := ⟨⟨[(["home"], .directory)]⟩, ["home"]⟩

/-- The default version is installed below the relative root. -/
def linking : Step (List Status) := installAll [] relative ⟨relative.root, false⟩

theorem confined_linking : ∀ l ∈ linking.launched homely, l.Confined := by
  have hall : ∀ l ∈ linking.launched homely, l.after.tree.Closed ∧ l.after = l.before := by
    decide +kernel
  exact fun l hl => Launch.confined_of_same (hall l hl).1 (hall l hl).2

end Sample

/-- The link below a relative root leads nowhere, though the distribution is there. -/
theorem relative_root_link_dangles :
    Sample.relative.root.Clean ∧ Sample.homely.files.WellFormed ∧
      (∀ text, Sample.homely.files.lstat
        (Sample.relative.goDir Rules.defaultGoVersion).toString ≠ .ok (.link text)) ∧
      (∀ l ∈ Sample.linking.launched Sample.homely, l.Confined) ∧
      (Sample.linking.perform Sample.homely).1 = .ok [.installed] ∧
      (Sample.linking.perform Sample.homely).2.files.resolve
        (Sample.relative.goDir Rules.defaultGoVersion).toString true =
          .ok ["home", "gp", "go-1.10.2"] ∧
      (Sample.linking.perform Sample.homely).2.files.resolve
        Sample.relative.goLink.toString true ≠ .ok ["home", "gp", "go-1.10.2"] := by
  have hmissing : (Sample.homely.files.lstat
      (Sample.relative.goDir Rules.defaultGoVersion).toString).toOption = none := by decide +kernel
  have hnowhere : ((Sample.linking.perform Sample.homely).2.files.resolve
      Sample.relative.goLink.toString true).toOption = none := by decide +kernel
  refine ⟨Path.clean_ofString _, ⟨by decide, by decide⟩, fun text htext => ?_,
    Sample.confined_linking, FileSystem.ok_of_toOption (by decide +kernel),
    FileSystem.ok_of_toOption (by decide +kernel), fun hlink => ?_⟩
  · rw [htext] at hmissing
    simp [Except.toOption] at hmissing
  · rw [hlink] at hnowhere
    simp [Except.toOption] at hnowhere

/-- Below an absolute root the link leads to the distribution. -/
theorem default_link_works_sample :
    Sample.workspace.root.Clean ∧ Sample.half.files.WellFormed ∧
      (∀ l ∈ Sample.completing.launched Sample.half, l.Confined) ∧
      ∃ here links m', (Sample.completing.perform Sample.half) = (.ok [.installed, .existing], m') ∧
        m'.files.resolve Sample.workspace.goLink.toString true =
          m'.files.resolve (Sample.workspace.goDir Rules.defaultGoVersion).toString true ∧
        Sample.workspace.LinkLeadsBack m'.files.tree here links := by
  have hfs : Sample.half.files.WellFormed := ⟨by decide, by decide⟩
  have hmissing : (Sample.half.files.lstat
      (Sample.workspace.goDir Rules.defaultGoVersion).toString).toOption = none := by decide +kernel
  have hperform : Sample.completing.perform Sample.half =
      (.ok [.installed, .existing], (Sample.completing.perform Sample.half).2) :=
    perform_of_toOption (by decide +kernel)
  have hlink : (Sample.completing.perform Sample.half).2.files.resolve
      Sample.workspace.goLink.toString true = .ok ["home", "go", "go-1.10.2"] :=
    FileSystem.ok_of_toOption (by decide +kernel)
  have hplace : (Sample.completing.perform Sample.half).2.files.resolve
      (Sample.workspace.goDir Rules.defaultGoVersion).toString true =
        .ok ["home", "go", "go-1.10.2"] :=
    FileSystem.ok_of_toOption (by decide +kernel)
  obtain ⟨here, links, -, -, -, hiff⟩ := default_link_works_iff rfl (Path.clean_ofString _) hfs
    (fun text htext => by rw [htext] at hmissing; simp [Except.toOption] at hmissing) hperform
    Sample.confined_completing
  have hsame := hlink.trans hplace.symm
  exact ⟨Path.clean_ofString _, hfs, Sample.confined_completing, here, links, _, hperform, hsame,
    hiff.1 hsame⟩

end Toolchain

end Provision
