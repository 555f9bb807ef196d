/-
**What a run reaches.**

The rules name repositories and versions of Go by arbitrary texts, and these end up in paths.  In a
world without links a run works at and below the root of the workspace, however the rules look, but
for two kinds of names.  A destination that is an absolute path, or goes up, takes the directory of
its repository with it, and so the commands that are launched there and the lock that is removed
there.  A version that goes up takes the place with it that its distribution is moved to.  Nothing
else leaves the workspace, save the directories that are missing above its root.

Main definitions:

* `Provision.Layout.Below`, `Provision.Layout.InSources` — paths that stay below the root;
* `Provision.Bootstrap.Plan.Holds`, `Provision.Bootstrap.Plan.OnTheWay`,
  `Provision.Bootstrap.Plan.Clears`, `Provision.Bootstrap.Plan.Contains` — **the places that a run may
  change by itself**.

Main results:

* `Provision.Layout.InSources.avoids` — a path to the sources does not lead over the link;
* `Provision.Bootstrap.Plan.between_of_toolchain`, `Provision.Bootstrap.Plan.works_of_link`,
  `Provision.Bootstrap.Plan.works_of_base`, `Provision.Bootstrap.Plan.leading_of_work` — what each task
  changes;
* `Provision.Bootstrap.Plan.between_of_tasks` — **what all tasks change by themselves**.
-/

import Provision.Proofs.Layouts
import Provision.Proofs.PlainTrees
import Provision.Proofs.Segments

set_option relaxedAutoImplicit false
set_option autoImplicit false

namespace Provision

open Step

/-! ### Paths below the root -/

namespace Layout

variable {l : Layout} {q : Path}

/-- **A path at or below the root**: behind the components of the root it only goes down. -/
def Below (l : Layout) (q : Path) : Prop :=
  q.anchor = l.root.anchor ∧
    ∃ names, (∀ w ∈ names, w ≠ "." ∧ w ≠ "..") ∧ q.parts = l.root.parts ++ names

/-- A path to or below the sources. -/
def InSources (l : Layout) (q : Path) : Prop :=
  q.anchor = l.root.anchor ∧
    ∃ names, (∀ w ∈ names, w ≠ "." ∧ w ≠ "..") ∧ q.parts = l.root.parts ++ "src" :: names

theorem below_child (l : Layout) {w : String} (hw : Path.IsPart w) (hdots : w ≠ "..") :
    l.Below (l.root.child w) := by
  rw [Path.child_of_isPart _ hw]
  refine ⟨rfl, [w], fun v hv => ?_, rfl⟩
  rw [List.mem_singleton.1 hv]
  exact ⟨hw.2.1, hdots⟩

theorem InSources.below (h : l.InSources q) : l.Below q := by
  obtain ⟨hanchor, names, hnames, hparts⟩ := h
  refine ⟨hanchor, "src" :: names, fun w hw => ?_, hparts⟩
  rcases List.mem_cons.1 hw with rfl | hw
  · decide
  · exact hnames w hw

theorem InSources.child (h : l.InSources q) {s : String} (hs : ¬Path.Leaves s) :
    l.InSources (q.child s) := by
  obtain ⟨hanchor, names, hnames, hparts⟩ := h
  rw [Path.child_of_not_leaves hs]
  refine ⟨hanchor, names ++ (Path.ofString s).parts, fun w hw => ?_, by simp [hparts]⟩
  rcases List.mem_append.1 hw with hw | hw
  · exact hnames w hw
  · exact Path.not_dots_of_not_leaves hs w hw

theorem inSources_packageDir (l : Layout) {s : String} (hs : ¬Path.Leaves s) :
    l.InSources (l.packageDir s) := by
  refine InSources.child ?_ hs
  rw [Path.child_of_isPart l.root ⟨by decide, by decide, by decide⟩]
  exact ⟨rfl, [], by simp, rfl⟩

theorem InSources.indexLock (h : l.InSources q) : l.InSources (Git.indexLock q) := by
  have hgit : ¬Path.Leaves ".git" := by decide
  have hlock : ¬Path.Leaves "index.lock" := by decide
  exact (h.child hgit).child hlock

theorem Below.absolute (h : l.Below q) (habsolute : l.root.anchor ≠ .relative) :
    q.anchor ≠ .relative := h.1 ▸ habsolute

/-- The place of a path below the root lies below the place of the root. -/
theorem Below.above (h : l.Below q) : l.root.location <+: q.location := by
  obtain ⟨-, names, hnames, hparts⟩ := h
  have hplace : q.location = l.root.location ++ names := by
    rw [Path.location, hparts, FileSystem.descend_append, FileSystem.descend_names hnames]
    rfl
  rw [hplace]
  exact List.prefix_append _ _

/-- The place of the link to the default distribution. -/
def goPlace (l : Layout) : Location := l.root.location ++ ["go"]

/-- The place of the link, unless the way of the root leads over it. -/
def Links (l : Layout) (q : Location) : Prop :=
  q = l.goPlace ∧ ∀ names, names <+: l.root.parts → FileSystem.descend [] names ≠ q

theorem avoids_root (l : Layout) : l.root.Avoids l.Links :=
  fun names hnames hlink => hlink.2 names hnames rfl

/-- Along the way of a path to the sources lie the places along the way of the root and then places in
the sources. -/
theorem InSources.descend (h : l.InSources q) {names : List String} (hnames : names <+: q.parts) :
    names <+: l.root.parts ∨
      ∃ rest, FileSystem.descend [] names = l.root.location ++ "src" :: rest := by
  obtain ⟨-, below, hbelow, hparts⟩ := h
  rw [hparts] at hnames
  rcases List.prefix_or_prefix_of_prefix hnames (List.prefix_append _ _) with hshort | ⟨rest, rfl⟩
  · exact Or.inl hshort
  have hrest := (List.prefix_append_right_inj _).1 hnames
  cases rest with
  | nil => exact Or.inl (by simp)
  | cons w rest =>
      obtain ⟨rfl, htail⟩ := List.cons_prefix_cons.1 hrest
      refine Or.inr ⟨rest, ?_⟩
      rw [FileSystem.descend_append, FileSystem.descend_names fun v hv => ?_]
      · rfl
      · rcases List.mem_cons.1 hv with rfl | hv
        · decide
        · exact hbelow v (htail.subset hv)

/-- A path to the sources avoids the link. -/
theorem InSources.avoids (h : l.InSources q) : q.Avoids l.Links := by
  intro names hnames hlink
  rcases h.descend hnames with hshort | ⟨rest, hrest⟩
  · exact l.avoids_root names hshort hlink
  · have hplace := hlink.1
    rw [hrest, goPlace] at hplace
    simp at hplace

theorem anchor_goDir (l : Layout) (version : String) :
    (l.goDir version).anchor = l.root.anchor := by
  rw [goDir, Path.child, Path.join_of_relative (relative_goName version)]

end Layout

theorem Toolchain.not_leaves_stagingName (n : Nat) : ¬Path.Leaves (stagingName n) := by
  refine Path.not_leaves_of_isPart (isPart_stagingName n) fun h => ?_
  have := congrArg (fun s => s.toList.head?) h
  simp [stagingName] at this

namespace Bootstrap.Plan

variable {p : Plan} {linked : Location → Prop} {fs fs' fs'' : FileSystem} {m m' : Machine}

/-! ### Places that a run may change -/

/-- A place at or below the root, or at or below the place of a version that goes up. -/
def Holds (p : Plan) (q : Location) : Prop :=
  p.layout.root.location <+: q ∨ ∃ version ∈ Rules.goVersions p.rules,
    Path.Leaves ("go-" ++ version) ∧ (p.layout.goDir version).location <+: q

/-- A directory that was missing on the way to the root and has been made. -/
def OnTheWay (p : Plan) (fs fs' : FileSystem) (q : Location) : Prop :=
  fs.tree.get? q = none ∧ fs'.tree.get? q = some .directory ∧
    ∃ names, names <+: p.layout.root.parts ∧ q = FileSystem.descend [] names

/-- The lock in the repository of a destination that is an absolute path or goes up has been removed. -/
def Clears (p : Plan) (fs fs' : FileSystem) (q : Location) : Prop :=
  ∃ name ∈ Rules.destinations p.rules, Path.Leaves name ∧
    fs.place (Git.indexLock (p.layout.repoDir name)).toString .isDirectory = .ok q ∧
      fs'.tree.get? q = none

/-- What differs lies at or below the root, or has been made on the way there. -/
def Builds (p : Plan) (fs fs' : FileSystem) : Prop :=
  ∀ q, fs.tree.get? q ≠ fs'.tree.get? q → p.Holds q ∨ p.OnTheWay fs fs' q

/-- **What differs is at a place that the run may change.** -/
def Contains (p : Plan) (fs fs' : FileSystem) : Prop :=
  ∀ q, fs.tree.get? q ≠ fs'.tree.get? q → p.Holds q ∨ p.OnTheWay fs fs' q ∨ p.Clears fs fs' q

theorem Builds.refl (p : Plan) (fs : FileSystem) : p.Builds fs fs := fun _ hq => absurd rfl hq

theorem Builds.trans (h : p.Builds fs fs') (h' : p.Builds fs' fs'') : p.Builds fs fs'' := by
  intro q hq
  by_cases hfirst : fs.tree.get? q = fs'.tree.get? q
  · rcases h' q (by rwa [← hfirst]) with hholds | ⟨hnone, hdirectory, hway⟩
    · exact Or.inl hholds
    · exact Or.inr ⟨hfirst.trans hnone, hdirectory, hway⟩
  rcases h q hfirst with hholds | ⟨hnone, hdirectory, hway⟩
  · exact Or.inl hholds
  -- what has been made on the way is not made once more
  by_cases hsecond : fs'.tree.get? q = fs''.tree.get? q
  · exact Or.inr ⟨hnone, by rw [← hsecond, hdirectory], hway⟩
  rcases h' q hsecond with hholds | ⟨hnone', -, -⟩
  · exact Or.inl hholds
  · rw [hdirectory] at hnone'
    simp at hnone'

theorem Builds.contains (h : p.Builds fs fs') : p.Contains fs fs' :=
  fun q hq => (h q hq).imp id Or.inl

theorem Contains.refl (p : Plan) (fs : FileSystem) : p.Contains fs fs := (Builds.refl p fs).contains

/-- A path below the root is one of the places. -/
theorem holds_of_below {q : Path} (h : p.layout.Below q) {r : Location} (hr : q.location <+: r) :
    p.Holds r :=
  Or.inl (h.above.trans hr)

/-- What lies at or below the place of a distribution may change. -/
theorem holds_of_goDir {version : String} (hversion : version ∈ Rules.goVersions p.rules)
    {q : Location} (hq : (p.layout.goDir version).location <+: q) : p.Holds q := by
  by_cases hleaves : Path.Leaves ("go-" ++ version)
  · exact Or.inr ⟨version, hversion, hleaves, hq⟩
  · exact Or.inl ((Path.prefix_location_child hleaves _).trans hq)

/-- **A change by the run itself** in a tree with few links, which stays one. -/
def Works (p : Plan) (linked : Location → Prop) (fs fs' : FileSystem) : Prop :=
  fs.Plain linked → p.Builds fs fs' ∧ fs'.Plain linked

theorem Works.refl (p : Plan) (linked : Location → Prop) (fs : FileSystem) : p.Works linked fs fs :=
  fun hfs => ⟨Builds.refl p fs, hfs⟩

theorem Works.trans (h : p.Works linked fs fs') (h' : p.Works linked fs' fs'') :
    p.Works linked fs fs'' := by
  intro hfs
  obtain ⟨hbuilds, hfs'⟩ := h hfs
  obtain ⟨hbuilds', hfs''⟩ := h' hfs'
  exact ⟨hbuilds.trans hbuilds', hfs''⟩

section

variable (hclean : p.layout.root.Clean) (habsolute : p.layout.root.anchor ≠ .relative)
include hclean habsolute

/-! ### Distributions -/

omit habsolute in
theorem below_staging (n : Nat) : p.layout.Below (Toolchain.staging p.layout.root n) := by
  rw [Toolchain.staging_eq_child hclean]
  have hpart := Toolchain.isPart_stagingName n
  refine p.layout.below_child hpart fun h => Toolchain.not_leaves_stagingName n ?_
  rw [h]
  decide

omit hclean habsolute in
/-- Making a directory and those above it, if all of them may be made. -/
theorem works_of_ensureDirectories {path : Path} (hpath : path.Clean)
    (hanchor : path.anchor ≠ .relative) (havoids : path.Avoids linked)
    (hway : ∀ names, names <+: path.parts →
      names <+: p.layout.root.parts ∨ p.Holds (FileSystem.descend [] names))
    (fs : FileSystem) : p.Works linked fs (fs.ensureDirectories path).1 := by
  refine FileSystem.ensureDirectories_induction (R := p.Works linked) (Works.refl p linked)
    (fun _ _ _ => Works.trans) path (fun n fs fs' hmake hfs => ?_) fs
  obtain ⟨hparts, hsame⟩ := Path.ancestor_parts path n
  obtain ⟨here, name, hleads, hnone, hmade⟩ := FileSystem.makeDirectory_eq_ok hmake
  obtain ⟨hmissing, hfs', hget⟩ := hfs.makeDirectory (fun w hw => hpath w (hparts.subset hw))
    (by rw [hsame]; exact hanchor) (havoids.of_prefix hparts) hleads hnone hmade
  refine ⟨fun q hq => ?_, hfs'⟩
  rw [hget] at hq
  by_cases hqe : q = (path.ancestor n).location
  · subst hqe
    rcases hway _ hparts with hroot | hholds
    · exact Or.inr ⟨hmissing, by rw [hget, if_pos rfl], _, hroot, rfl⟩
    · exact Or.inl hholds
  · rw [if_neg hqe] at hq
    exact absurd rfl hq

theorem works_of_makeStaging {r : Except Failure Path}
    (h : (Toolchain.makeStaging p.layout.root).perform m = (r, m')) :
    p.Works (fun _ => False) m.files m'.files := by
  have hroot := works_of_ensureDirectories (p := p) hclean habsolute (Path.avoids_none _)
    (fun names hnames => Or.inl hnames) m.files
  rw [Toolchain.makeStaging, perform_bind_ok (perform_files m)] at h
  dsimp only at h
  rw [perform_bind_ok (perform_setFiles _ _)] at h
  split at h
  · rw [perform_refused] at h
    rw [← congrArg (fun x => x.2.files) h]
    exact hroot
  cases r with
  | error e =>
      rw [(Toolchain.error_of_makeStagingWithin h).2]
      exact hroot
  | ok path =>
      obtain ⟨n, -, hmake⟩ := Toolchain.files_of_makeStagingWithin h
      refine hroot.trans fun hfs => ?_
      obtain ⟨here, name, hleads, hnone, hmade⟩ := FileSystem.makeDirectory_eq_ok hmake
      have hpart := Toolchain.isPart_stagingName n
      obtain ⟨-, rfl⟩ := FileSystem.reach_of_leadsTo_textBelow hclean hpart hleads
      obtain ⟨-, hfs', hget⟩ := hfs.makeDirectory (hclean.child hpart)
        (by rw [Path.child_of_isPart _ hpart]; exact habsolute) (Path.avoids_none _)
        (FileSystem.leadsTo_child_of_textBelow hclean hpart hleads) hnone hmade
      refine ⟨fun q hq => Or.inl ?_, hfs'⟩
      rw [hget] at hq
      split at hq
      · next hqe =>
        subst hqe
        rw [← Toolchain.staging_eq_child hclean]
        exact holds_of_below (below_staging hclean n) (List.prefix_refl _)
      · exact absurd rfl hq

/-- A staging directory is moved into its place, or stays, and is removed. -/
theorem works_of_move {version : String} (hversion : version ∈ Rules.goVersions p.rules) (n : Nat)
    (h : fs' = fs ∨ fs.rename (Toolchain.staging p.layout.root n).toString
      (p.layout.goDir version).toString = .ok fs') :
    p.Works (fun _ => False) fs
      (fs'.removeTree (Toolchain.staging p.layout.root n).toString) := by
  have hbelow := below_staging (p := p) hclean n
  have hstaging : (Toolchain.staging p.layout.root n).Clean := Path.clean_ofString _
  have hanchor := hbelow.absolute habsolute
  have hmoved : p.Works (fun _ => False) fs fs' := by
    rcases h with rfl | hrename
    · exact .refl p _ _
    intro hfs
    obtain ⟨hfs', hchanges⟩ := hfs.rename hstaging hanchor (hclean.child_text _)
      (p.layout.anchor_goDir version ▸ habsolute) hrename
    refine ⟨fun q hq => Or.inl ?_, hfs'⟩
    rcases hchanges q hq with hq | hq
    · exact holds_of_below hbelow hq
    · exact holds_of_goDir hversion hq
  refine hmoved.trans fun hfs' => ?_
  have hne : (Toolchain.staging p.layout.root n).location ≠ [] := by
    rw [Toolchain.staging_eq_child hclean, Path.location_child (Toolchain.not_leaves_stagingName n)]
    simp [Path.ofString_of_isPart (Toolchain.isPart_stagingName n)]
  obtain ⟨hfs'', hchanges⟩ := hfs'.removeTree hstaging hanchor (Path.avoids_none _) hne
  exact ⟨fun q hq => Or.inl (holds_of_below hbelow (hchanges q hq)), hfs''⟩

variable (hdry : p.arguments.dryRun = false)
include hdry

/-- **Fetching a distribution** works at and below the root around its download, but for a version that
goes up. -/
theorem between_of_fetch {version : String} (hversion : version ∈ Rules.goVersions p.rules)
    (hfs : m.files.Plain fun _ => False)
    (hl : ∀ l ∈ (Toolchain.fetch version p.layout p.runner).launched m, l.Linkless) :
    Launch.Between p.Builds m.files ((Toolchain.fetch version p.layout p.runner).launched m)
        ((Toolchain.fetch version p.layout p.runner).perform m).2.files ∧
      ((Toolchain.fetch version p.layout p.runner).perform m).2.files.Plain fun _ => False := by
  have hsilent := (Toolchain.silent_makeStaging p.layout.root m).launches
  rcases hmake : (Toolchain.makeStaging p.layout.root).perform m with ⟨e | path, m₁⟩
  -- there is no staging directory, and nothing has been launched
  · rw [hmake] at hsilent
    have hfetch : (Toolchain.fetch version p.layout p.runner).perform m = (.error e, m₁) :=
      perform_bind_error hmake
    rw [launched_nil_of_same (by rw [hfetch, hsilent, List.append_nil]), hfetch]
    exact works_of_makeStaging hclean habsolute hmake hfs
  · obtain ⟨n, -, rfl, -⟩ := Toolchain.staging_of_makeStaging hmake
    obtain ⟨hbuilds, hfs₁⟩ := works_of_makeStaging hclean habsolute hmake hfs
    have hrunner : p.runner.dryRun = false := hdry
    obtain ⟨r, m₂, hfill, hlaunches, hcases⟩ :=
      Toolchain.fill_cases hrunner version p.layout.root (p.layout.goDir version) n m₁
    have hfetch : (Toolchain.fetch version p.layout p.runner).perform m = (r,
        { m₂ with files := m₂.files.removeTree (Toolchain.staging p.layout.root n).toString }) := by
      rw [Toolchain.fetch, perform_bind_ok hmake, perform_cleaningUp, hfill]
    have hlaunched : (Toolchain.fetch version p.layout p.runner).launched m =
        [m₁.launched (Toolchain.download version p.layout.root n)] := by
      rw [hmake, List.append_nil] at hsilent
      refine launched_eq ?_
      rw [hfetch, ← hsilent]
      exact hlaunches
    rw [hlaunched] at hl ⊢
    rw [hfetch]
    have hmove : m₂.files = (m₁.launched (Toolchain.download version p.layout.root n)).after ∨
        (m₁.launched (Toolchain.download version p.layout.root n)).after.rename
          (Toolchain.staging p.layout.root n).toString (p.layout.goDir version).toString =
            .ok m₂.files := by
      rcases hcases with ⟨-, -, hrename⟩ | ⟨e, -, -, hstay⟩
      · exact Or.inr hrename
      · exact Or.inl hstay
    obtain ⟨hbuilds', hfs'⟩ :=
      works_of_move hclean habsolute hversion n hmove ((hl _ (by simp)).plain hfs₁)
    exact ⟨⟨hbuilds, hbuilds'⟩, hfs'⟩

/-- **A distribution** is put in place at or below the root, but for a version that goes up. -/
theorem between_of_toolchain {version : String} (hversion : version ∈ Rules.goVersions p.rules)
    (hfs : m.files.Plain fun _ => False)
    (hl : ∀ l ∈ (p.step (.toolchain version)).launched m, l.Linkless) :
    Launch.Between p.Builds m.files ((p.step (.toolchain version)).launched m)
        ((p.step (.toolchain version)).perform m).2.files ∧
      ((p.step (.toolchain version)).perform m).2.files.Plain fun _ => False := by
  have hrunner : p.runner.dryRun = false := hdry
  have hsame : (p.step (.toolchain version)).launched m =
      (Toolchain.install version p.layout p.runner).launched m := by
    rw [launched, perform_toolchain, launched]
  rw [hsame] at hl ⊢
  rw [perform_toolchain]
  dsimp only
  have hperform := Toolchain.perform_install hrunner version p.layout m
  -- a step that launches nothing and leaves the files alone
  have hquiet : ∀ s : Step Toolchain.Status, s.Quiet →
      (Toolchain.install version p.layout p.runner).perform m = s.perform m →
      Launch.Between p.Builds m.files ((Toolchain.install version p.layout p.runner).launched m)
        ((Toolchain.install version p.layout p.runner).perform m).2.files ∧
      ((Toolchain.install version p.layout p.runner).perform m).2.files.Plain fun _ => False := by
    intro s hs hinstall
    obtain ⟨records, hm⟩ := hs m
    rw [launched_nil_of_same (by rw [hinstall, hm]), hinstall, hm]
    exact ⟨Builds.refl p _, hfs⟩
  split at hperform
  · exact hquiet _ ((quiet_info _).bind fun _ => quiet_pure _) hperform
  · exact hquiet _ (quiet_throw _) hperform
  · exact hquiet _ (quiet_throw _) hperform
  · split at hperform
    · rw [perform_bind_ok (perform_info _ m), perform_bind_pure] at hperform
      -- what is fetched is fetched on the same files, with one record more in the log
      generalize hm₁ : ({ m with log := _ } : Machine) = m₁ at hperform
      have hfiles : m₁.files = m.files := by rw [← hm₁]
      have hlaunches : m₁.launches = m.launches := by rw [← hm₁]
      have hlaunched : (Toolchain.install version p.layout p.runner).launched m =
          (Toolchain.fetch version p.layout p.runner).launched m₁ := by
        rw [launched, hperform, launched, hlaunches]
      rw [hlaunched] at hl ⊢
      rw [hperform, ← hfiles]
      exact between_of_fetch hclean habsolute hdry hversion (by rw [hfiles]; exact hfs) hl
    · exact hquiet _ (quiet_throw _) hperform

/-! ### The link and the directory of the repositories -/

/-- **The link** is removed or made at its place. -/
theorem works_of_link (hfs : m.files.Plain fun _ => False) :
    p.Builds m.files ((p.step .link).perform m).2.files ∧
      ((p.step .link).perform m).2.files.Plain p.layout.Links := by
  have hgo : ¬Path.Leaves "go" := by decide
  have hbelow : p.layout.Below p.layout.goLink :=
    p.layout.below_child Toolchain.isPart_go (by decide)
  have hlink : p.layout.goLink.Clean := hclean.child_text _
  have hanchor := hbelow.absolute habsolute
  have hplace : p.layout.goLink.location = p.layout.goPlace := Path.location_child hgo _
  obtain ⟨r, m', hstep, -, hcases⟩ := link_cases hdry m
  obtain ⟨hcleared, hchanges⟩ := hfs.cleared p.layout.goLink.toString
  have hclears : p.Builds m.files (m.files.cleared p.layout.goLink.toString) := by
    intro q hq
    obtain ⟨⟨here, name, hleads, rfl⟩, -⟩ := hchanges q hq
    rw [hfs.location_of_leadsTo hlink hanchor (Path.avoids_none _) hleads]
    exact Or.inl (holds_of_below hbelow (List.prefix_refl _))
  rw [hstep]
  rcases hcases with ⟨-, hsymlink⟩ | ⟨-, hsame, -⟩
  · obtain ⟨hroot, hnone, hfs', hchanges'⟩ :=
      hcleared.symlink hclean Toolchain.isPart_go habsolute hsymlink
    refine ⟨hclears.trans fun q hq => Or.inl ?_, hfs'.mono fun q hq => ?_⟩
    · rw [hchanges' q hq]
      exact holds_of_below hbelow (List.prefix_refl _)
    · obtain rfl : q = p.layout.goLink.location := hq.resolve_left id
      refine ⟨hplace, fun names hnames hsame => ?_⟩
      -- everything on the way of the root is there, and nothing was in the place of the link
      have hthere := hroot names hnames
      have hnone' : (m.files.cleared p.layout.goLink.toString).tree.get?
          p.layout.goLink.location = none := hnone
      rw [hsame, hnone'] at hthere
      simp at hthere
  · dsimp only
    rw [hsame]
    exact ⟨hclears, hcleared.mono fun _ => False.elim⟩

variable (hpackage : ¬Path.Leaves p.layout.basePackage)
include hpackage

/-- **The directory of the repositories** is made with those above it. -/
theorem works_of_base (m : Machine) :
    p.Works p.layout.Links m.files ((p.step .base).perform m).2.files := by
  have hsources : p.layout.InSources p.layout.baseRepoPath :=
    p.layout.inSources_packageDir hpackage
  obtain ⟨r, m', hstep, -, hcases⟩ := base_cases hdry m
  rw [hstep]
  rcases hcases with hsame | ⟨-, hmade⟩
  · dsimp only
    rw [hsame]
    exact .refl p _ _
  · dsimp only
    rw [hmade]
    refine works_of_ensureDirectories ((hclean.child_text _).child_text _)
      (hsources.below.absolute habsolute) hsources.avoids
      (fun names hnames => ?_) _
    refine (hsources.descend hnames).imp id fun ⟨rest, hrest⟩ => Or.inl ?_
    rw [hrest]
    exact List.prefix_append _ _

/-! ### Tools and repositories -/

/-- **A fork** leaves the files to its commands, but for its lock. -/
theorem leading_of_fork {name : String} (hname : name ∈ Rules.destinations p.rules)
    (hfs : m.files.Plain p.layout.Links) (hl : ∀ l ∈ (p.step (.fork name)).launched m, l.Linkless) :
    Launch.Leading p.Contains m.files ((p.step (.fork name)).launched m)
        ((p.step (.fork name)).perform m).2.files ∧
      ((p.step (.fork name)).perform m).2.files.Plain p.layout.Links := by
  obtain ⟨r, m', new, fs, hstep, hlaunches, hchain, hcases⟩ := fork_cases hdry name m
  rw [launched_eq (by rw [hstep]; exact hlaunches)] at hl ⊢
  rw [hstep]
  have hfs' := hchain.plain hl hfs
  rcases hcases with hsame | ⟨-, hne, hcleared⟩
  · dsimp only
    rw [hsame]
    exact ⟨hchain.leading (Contains.refl p), hfs'⟩
  · obtain ⟨hfs'', hchanges⟩ :=
      hfs'.cleared (Git.indexLock (p.layout.repoDir name)).toString
    dsimp only
    rw [hcleared]
    refine ⟨hchain.leading_of_ne_nil (Contains.refl p) hne fun q hq => ?_, hfs''⟩
    obtain ⟨⟨here, last, hleads, rfl⟩, hgone⟩ := hchanges q hq
    by_cases hleaves : Path.Leaves name
    · exact Or.inr (Or.inr ⟨name, hname, hleaves, hleads.place .isDirectory, hgone⟩)
    · have hsources : p.layout.InSources (Git.indexLock (p.layout.repoDir name)) :=
        ((p.layout.inSources_packageDir hpackage).child hleaves).indexLock
      refine Or.inl ?_
      rw [hfs'.location_of_leadsTo
        (((Layout.clean_repoDir hclean name).child_text _).child_text _)
        (hsources.below.absolute habsolute) hsources.avoids hleads]
      exact holds_of_below hsources.below (List.prefix_refl _)

/-- **Tools and repositories** leave the files to their commands, but for locks. -/
theorem leading_of_work {t : Task} (ht : t ∈ p.tools ++ ([.source] ++ p.forks))
    (hfs : m.files.Plain p.layout.Links) (hl : ∀ l ∈ (p.step t).launched m, l.Linkless) :
    Launch.Leading p.Contains m.files ((p.step t).launched m) ((p.step t).perform m).2.files ∧
      ((p.step t).perform m).2.files.Plain p.layout.Links := by
  by_cases hfork : t ∈ p.forks
  · obtain ⟨name, hname, rfl⟩ := List.mem_map.1 hfork
    exact leading_of_fork hclean habsolute hdry hpackage hname hfs hl
  · rw [← List.append_assoc] at ht
    obtain ⟨new, hnew, hchain⟩ :=
      delegates_step hdry ((List.mem_append.1 ht).resolve_right hfork) m
    rw [launched_eq hnew] at hl ⊢
    exact ⟨hchain.leading (Contains.refl p), hchain.plain hl hfs⟩

/-! ### All tasks -/

/-- The link and the directory of the repositories launch nothing. -/
theorem between_of_places (hfs : m.files.Plain fun _ => False) :
    Launch.Between p.Builds m.files ((forM [.link, .base] p.step).launched m)
        (p.after [.link, .base] m).files ∧
      (p.after [.link, .base] m).files.Plain p.layout.Links := by
  have hlink : (p.step .link).launched m = [] := by
    obtain ⟨r, m', hstep, hlaunches, -⟩ := link_cases hdry m
    exact launched_nil_of_same (by rw [hstep]; exact hlaunches)
  have hbase : ∀ m : Machine, (p.step .base).launched m = [] := by
    intro m
    obtain ⟨r, m', hstep, hlaunches, -⟩ := base_cases hdry m
    exact launched_nil_of_same (by rw [hstep]; exact hlaunches)
  obtain ⟨hbuilds, hlinks⟩ := works_of_link hclean habsolute hdry hfs
  rcases hperform : (p.step .link).perform m with ⟨e | u, m₁⟩
  · rw [hperform] at hbuilds hlinks
    rw [launched_cons_error hdry hperform, after_cons_error hperform, hlink]
    exact ⟨hbuilds, hlinks⟩
  · rw [hperform] at hbuilds hlinks
    obtain ⟨hbuilds', hlinks'⟩ := works_of_base hclean habsolute hdry hpackage m₁ hlinks
    rw [launched_cons_ok hdry hperform, after_cons_ok hperform, hlink, launched_singleton hdry,
      hbase, after_singleton]
    exact ⟨hbuilds.trans hbuilds', hlinks'⟩

/-- What is done before the first tool is looked for. -/
theorem between_of_front (hfs : m.files.Plain fun _ => False)
    (hl : ∀ l ∈ (forM (p.toolchains ++ [.link, .base]) p.step).launched m, l.Linkless) :
    Launch.Between p.Builds m.files ((forM (p.toolchains ++ [.link, .base]) p.step).launched m)
        (p.after (p.toolchains ++ [.link, .base]) m).files ∧
      (p.after (p.toolchains ++ [.link, .base]) m).files.Plain p.layout.Links := by
  have htrans : ∀ x y z, p.Builds x y → p.Builds y z → p.Builds x z := fun _ _ _ => Builds.trans
  have hstep : ∀ t ∈ p.toolchains, ∀ m : Machine, m.files.Plain (fun _ => False) →
      (∀ l ∈ (p.step t).launched m, l.Linkless) →
      Launch.Between p.Builds m.files ((p.step t).launched m) ((p.step t).perform m).2.files ∧
        ((p.step t).perform m).2.files.Plain fun _ => False := by
    intro t ht m hfs hl
    obtain ⟨version, hversion, rfl⟩ := List.mem_map.1 ht
    exact between_of_toolchain hclean habsolute hdry hversion hfs hl
  have htoolchains := segments_induction hdry (S := Launch.Between p.Builds)
    (I := FileSystem.Plain fun _ => False) (Builds.refl p)
    (fun _ _ _ _ _ h h' => h.append htrans h') hstep hfs
    fun l hmem => hl l (mem_launched_append hdry (Or.inl hmem))
  -- a run that ends here has made no link
  refine segments_append hdry
    (S := fun fs ls fs' => Launch.Between p.Builds fs ls fs' ∧ fs'.Plain fun _ => False)
    (T := fun fs ls fs' => Launch.Between p.Builds fs ls fs' ∧ fs'.Plain p.layout.Links)
    (U := fun fs ls fs' => Launch.Between p.Builds fs ls fs' ∧ fs'.Plain p.layout.Links)
    (fun _ _ _ h => ⟨h.1, h.2.mono fun _ => False.elim⟩)
    (fun _ _ _ _ _ h h' => ⟨h.1.append htrans h'.1, h'.2⟩) htoolchains fun m₁ hm₁ => ?_
  have hfs₁ := htoolchains.2
  rw [after, hm₁] at hfs₁
  exact between_of_places hclean habsolute hdry hpackage hfs₁

/-- **What all tasks do by themselves**, before, between and behind their commands, is done at places
that the run may change. -/
theorem between_of_tasks (hfs : m.files.Plain fun _ => False)
    (hl : ∀ l ∈ (forM p.tasks p.step).launched m, l.Linkless) :
    Launch.Between p.Contains m.files ((forM p.tasks p.step).launched m)
      (p.after p.tasks m).files := by
  have hparts : p.tasks = (p.toolchains ++ [.link, .base]) ++ (p.tools ++ ([.source] ++ p.forks)) :=
    (List.append_assoc ..).symm
  rw [hparts] at hl ⊢
  obtain ⟨hfront, hlinks⟩ := between_of_front hclean habsolute hdry hpackage hfs
    fun l hmem => hl l (mem_launched_append hdry (Or.inl hmem))
  refine segments_append hdry (T := Launch.Leading p.Contains)
    (fun _ _ _ => id) (fun _ _ _ _ _ h h' => h.append_leading h')
    (hfront.mono fun _ _ => Builds.contains) fun m₁ hm₁ => ?_
  rw [after, hm₁] at hlinks
  refine (segments_induction hdry (I := FileSystem.Plain p.layout.Links) (fun _ => rfl)
    (fun _ _ _ _ _ h h' => h.append h')
    (fun t ht m hfs => leading_of_work hclean habsolute hdry hpackage ht hfs) hlinks
    fun l hmem => hl l (mem_launched_append hdry (Or.inr ⟨m₁, hm₁, hmem⟩))).1

end

end Bootstrap.Plan

end Provision
