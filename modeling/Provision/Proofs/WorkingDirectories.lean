/-
**Commands are launched in directories that are there.**

A command is launched in a directory, and nobody looks whether there is one.  At the start there need
not be any.  A download is launched in the staging directory that was made for it.  The tools and the
repositories come behind the directory of the repositories, which is made before them, and the first
command of each is launched there; the others are launched where the first one has put something.  So
there always is a directory, as long as no command takes one away and the first commands do put
something in place.  There is one exception: what is in the place of a fork that is found may be no
directory, and its address is set there all the same.

What leads to a directory may lead over the link to the default distribution.  So this link has to
stay as well: where it is removed, a command may be launched in no directory.

Main definitions:

* `Provision.FileSystem.GoLinked` — files without links, but for some with the name of the one that a
  run makes;
* `Provision.Launch.Sparing`, `Provision.Launch.Constructive` — commands that take no directory away
  and make no link, and **those that leave the links as well**;
* `Provision.Bootstrap.Plan.Delivers` — a command that puts in place what it is for;
* `Provision.Launch.Housed` — **a launch in a directory**.

Main results:

* `Provision.FileSystem.stat_of_ensureDirectories` — a directory that was made is there;
* `Provision.Launch.Constructive.keepsDirectories` — what leads to a directory still does;
* `Provision.Toolchain.housed_of_course` — one installation;
* `Provision.Launch.Chain.housed` — commands of which the first makes a place for the others;
* `Provision.Bootstrap.Plan.housed_of_tasks` — the tasks of a plan;
* `Provision.Bootstrap.launched_in_directories` — **all commands of a run, but for those that set the
  address of a fork, are launched in directories**;
* `Provision.Bootstrap.launched_in_no_directory` — one that is not, behind a command that has removed
  the link.
-/

import Provision.Proofs.Clones
import Provision.Proofs.PlainTrees
import Provision.Proofs.Roots
import Provision.Proofs.Segments

set_option relaxedAutoImplicit false
set_option autoImplicit false

namespace Provision

open Step

namespace FileSystem

variable {fs fs' : FileSystem} {p : Path} {text name : String} {here there place : Location}

/-! ### Directories that are made -/

theorem stat_of_isDirectory (h : fs.isDirectory text = .ok true) :
    fs.stat text = .ok .directory := by
  unfold isDirectory at h
  cases hstat : fs.stat text with
  | error r => cases hno : r.saysNo <;> simp [hstat, hno] at h
  | ok e => cases e <;> simp [hstat, Entry.isDirectory] at h ⊢

/-- A directory that was made, or accepted, is there. -/
theorem stat_of_ensureDirectory (hfs : fs.WellFormed) (h : fs.ensureDirectory p = .ok fs') :
    fs'.stat p.toString = .ok .directory := by
  unfold ensureDirectory at h
  split at h
  · next hmade =>
    obtain rfl : _ = fs' := by simpa using h
    obtain ⟨here, name, -, hleads, -, hget, -, -⟩ := hfs.makeDirectory hmade
    exact hleads.stat_eq (by rw [hget, if_pos rfl]) (by simp)
  · simp at h
  · split at h
    · simp at h
    · split at h
      · next hlook =>
        obtain rfl : fs = fs' := by simpa using h
        exact stat_of_isDirectory hlook
      · simp at h
      · simp at h

theorem WellFormed.ensureDirectoriesWithin (hfs : fs.WellFormed) (depth : Nat) (p : Path) :
    (fs.ensureDirectoriesWithin depth p).1.WellFormed :=
  ensureDirectoriesWithin_induction (R := fun fs fs' => fs.WellFormed → fs'.WellFormed)
    (fun _ => id) (fun _ _ _ h h' hfs => h' (h hfs)) depth p
    (fun _ _ _ hmade hfs => (extends_makeDirectory hfs hmade).2) fs hfs

theorem stat_of_ensureDirectoriesWithin {depth : Nat} (hfs : fs.WellFormed)
    (h : fs.ensureDirectoriesWithin depth p = (fs', none)) :
    fs'.stat p.toString = .ok .directory := by
  -- the directory itself is made last, at every depth
  unfold FileSystem.ensureDirectoriesWithin at h
  split at h
  · next hmade =>
    obtain rfl : _ = fs' := by simpa using h
    exact stat_of_ensureDirectory hfs hmade
  · split at h
    · simp at h
    · split at h
      · simp at h
      · next above =>
        split at h
        · simp at h
        · next fs₁ hparent =>
          split at h
          · next hmade =>
            obtain rfl : _ = fs' := by simpa using h
            have hfs₁ := hfs.ensureDirectoriesWithin above p.parent
            rw [hparent] at hfs₁
            exact stat_of_ensureDirectory hfs₁ hmade
          · simp at h
  · simp at h

/-- **A directory that was made with those above it is there.** -/
theorem stat_of_ensureDirectories (hfs : fs.WellFormed)
    (h : (fs.ensureDirectories p).2 = none) :
    (fs.grownTo p).stat p.toString = .ok .directory :=
  stat_of_ensureDirectoriesWithin hfs (Prod.ext rfl h)

/-! ### Files with one kind of link -/

/-- **Files without links, but for some with the name of the link to the default distribution.** -/
structure GoLinked (fs : FileSystem) : Prop extends fs.WellFormed where
  links : ∀ here name text, fs.tree.get? (here ++ [name]) = some (.link text) → name = "go"

namespace GoLinked

theorem of_extends (h : fs.GoLinked) (hextends : fs.Extends p fs')
    (hfs' : fs'.WellFormed) : fs'.GoLinked where
  toWellFormed := hfs'
  links here name text hlink := by
    rcases hextends.tree (here ++ [name]) with hsame | ⟨-, hdirectory, -⟩
    · exact h.links here name text (by rw [← hsame, hlink])
    · simp [hdirectory] at hlink

theorem of_gains (h : fs'.GoLinked) (hfs : fs.WellFormed) (hgains : fs.tree.Gains fs'.tree) :
    fs.GoLinked where
  toWellFormed := hfs
  links here name text hlink := h.links here name text (by rw [hgains _ (by rw [hlink]; rfl), hlink])

theorem cleared (h : fs.GoLinked) (text : String) : (fs.cleared text).GoLinked :=
  h.of_gains (h.toWellFormed.cleared text) (gains_of_cleared fs text).1

/-- A subtree that does not hold the working directory may be gone. -/
theorem loses (h : fs.GoLinked) (hout : ¬place <+: fs.workingDirectory)
    (hloses : fs.Loses place fs') : fs'.GoLinked where
  closed := by
    intro q last hq
    rw [hloses.tree] at hq ⊢
    split at hq
    · simp at hq
    next hout =>
    rw [if_neg fun hpre => hout (hpre.trans (List.prefix_append _ _))]
    exact h.closed q last hq
  workingDirectory := by
    rw [hloses.workingDirectory, hloses.tree, if_neg hout, h.workingDirectory]
  links here name text hlink := by
    rw [hloses.tree] at hlink
    split at hlink
    · simp at hlink
    · exact h.links here name text hlink

/-- A directory that does not hold the working directory may be elsewhere. -/
theorem moves (h : fs.GoLinked) (hout : ¬place <+: fs.workingDirectory)
    (hthere : fs.tree.get? there = some .directory) (hapart : ¬place <+: there)
    (hdirectory : fs.tree.get? place = some .directory) (hroom : fs.tree.HasRoom (there ++ [name]))
    (hmoves : fs.Moves place (there ++ [name]) fs') : fs'.GoLinked where
  closed := hmoves.closed_of_apart h.closed hthere hapart
  workingDirectory := by
    rw [hmoves.workingDirectory, hmoves.tree]
    by_cases hnew : there ++ [name] <+: fs.workingDirectory
    -- the working directory has been replaced, for a directory with something in it cannot be
    · rw [if_pos hnew]
      by_cases hsame : fs.workingDirectory = there ++ [name]
      · rw [hsame, List.drop_length, List.append_nil, hdirectory]
      · have := hroom.below _ hnew hsame
        simp [h.workingDirectory] at this
    · rw [if_neg hnew, if_neg hout, h.workingDirectory]
  links here last text hlink := by
    rw [hmoves.tree] at hlink
    split at hlink
    · next hnew =>
      rcases List.prefix_concat_iff.1 hnew with heq | ⟨rest, rfl⟩
      · rw [heq, List.drop_length, List.append_nil, hdirectory] at hlink
        simp at hlink
      · rw [List.append_assoc (there ++ [name]), List.drop_left, ← List.append_assoc] at hlink
        exact h.links _ last text hlink
    · split at hlink
      · simp at hlink
      · exact h.links here last text hlink

/-- A new link with the name may be made. -/
theorem symlink {target : String} (h : fs.GoLinked) (hp : p.Clean)
    (hmade : fs.symlink target (p.child "go").toString = .ok fs') : fs'.GoLinked where
  toWellFormed := h.toWellFormed.symlink hmade
  links here last text hlink := by
    obtain ⟨there, name, hleads, -, rfl⟩ := symlink_eq_ok hmade
    obtain ⟨-, rfl⟩ := reach_of_leadsTo_child hp Toolchain.isPart_go hleads
    rw [Tree.get?_put _ (by simp)] at hlink
    split at hlink
    · next hsame => simpa using (List.append_inj' hsame rfl).2
    · exact h.links here last text hlink

/-- What stands below a path with another name is no link. -/
theorem lstat_ne_link (h : fs.GoLinked) (hp : p.Clean) {w : String} (hw : Path.IsPart w)
    (hdots : w ≠ "..") (hgo : w ≠ "go") (target : String) :
    fs.lstat (p.child w).toString ≠ .ok (.link target) := by
  intro hlink
  obtain ⟨here, -, -, hget⟩ := leadsTo_of_lstat_ok hp hw hdots hlink
  exact hgo (h.links here w target hget)

end GoLinked

end FileSystem

/-! ### Commands that take no directory away -/

namespace Launch

variable {l : Launch} {fs fs' : FileSystem} {ls : List Launch}

/-- **A command that takes no directory away** and makes no link. -/
structure Sparing (l : Launch) : Prop extends l.Linkless where
  workingDirectory : l.after.workingDirectory = l.before.workingDirectory
  directories : ∀ q, l.before.tree.get? q = some .directory → l.after.tree.get? q = some .directory

/-- **A command that takes no directory and no link away**, and makes no link. -/
structure Constructive (l : Launch) : Prop extends l.Sparing where
  linked : ∀ q text, l.before.tree.get? q = some (.link text) →
    l.after.tree.get? q = some (.link text)

/-- **A launch in a directory.** -/
def Housed (l : Launch) : Prop :=
  l.before.stat l.command.directory.toString = .ok .directory

theorem Sparing.goLinked (hl : l.Sparing) (h : l.before.GoLinked) : l.after.GoLinked where
  closed := hl.closed h.closed
  workingDirectory := by
    rw [hl.workingDirectory]
    exact hl.directories _ h.workingDirectory
  links here name text hlink := h.links here name text (hl.links _ text hlink)

/-- **What leads to a directory still does**: behind such a command there are the same links, and
only files may be gone. -/
theorem Constructive.keepsDirectories (hl : l.Constructive) :
    l.before.KeepsDirectories l.after := by
  have hkept : l.before.tree.Kept (fun q => l.before.tree.get? q ≠ some .directory) l.after.tree := by
    intro q e hq
    cases e with
    | directory => exact Or.inl ⟨_, hl.directories q hq, .refl _⟩
    | link text => exact Or.inl ⟨_, hl.linked q text hq, .refl _⟩
    | file content executable => exact Or.inr ⟨by simp [hq], rfl⟩
  exact FileSystem.keepsDirectories_of_kept hkept hl.workingDirectory fun _ => id

theorem Chain.goLinked (h : Chain fs ls fs') (hls : ∀ l ∈ ls, l.Sparing) (hfs : fs.GoLinked) :
    fs'.GoLinked :=
  h.relates (R := fun fs fs' => fs.GoLinked → fs'.GoLinked) (fun _ => id)
    (fun _ _ _ h₁ h₂ hp => h₂ (h₁ hp)) (fun l hmem hp => (hls l hmem).goLinked hp) hfs

theorem Chain.keepsDirectories (h : Chain fs ls fs') (hls : ∀ l ∈ ls, l.Constructive) :
    fs.KeepsDirectories fs' :=
  h.relates .refl (fun _ _ _ => .trans) fun l hl => (hls l hl).keepsDirectories

/-- A directory is there whenever one of the commands is launched. -/
theorem Chain.stat_before (h : Chain fs ls fs') (hls : ∀ l ∈ ls, l.Constructive)
    {text : String} (hstat : fs.stat text = .ok .directory) :
    ∀ l ∈ ls, l.before.stat text = .ok .directory := by
  induction ls generalizing fs with
  | nil => simp
  | cons l ls ih =>
      obtain ⟨rfl, htail⟩ := h
      refine List.forall_mem_cons.2 ⟨hstat, ih htail (fun k hk => hls k (by simp [hk])) ?_⟩
      exact (hls l (by simp)).keepsDirectories.stat hstat

/-- **Commands of which the first makes a place for the others**: if the first is launched in a
directory and leaves one in the place of the others, all of them are launched in directories. -/
theorem Chain.housed {c : Command} {cs : List Command} {place : Path} (h : Chain fs ls fs')
    (hls : ∀ l ∈ ls, l.Constructive) (hcommands : ls.map (·.command) <+: c :: cs)
    (hexited : ∀ earlier l later, ls = earlier ++ l :: later → later ≠ [] → l.ending = .exited 0)
    (hfirst : fs.stat c.directory.toString = .ok .directory)
    (hplace : ∀ k ∈ cs, k.directory = place)
    (hmade : ∀ l ∈ ls, l.command = c → l.ending = .exited 0 →
      l.after.stat place.toString = .ok .directory) : ∀ l ∈ ls, l.Housed := by
  cases ls with
  | nil => simp
  | cons l ls =>
      obtain ⟨rfl, htail⟩ := h
      obtain ⟨hc, hothers⟩ := List.cons_prefix_cons.1 hcommands
      have hc : l.command = c := hc
      refine List.forall_mem_cons.2 ⟨by rwa [Housed, hc], fun k hk => ?_⟩
      -- another command is launched only behind a first one that has exited with zero
      have hdone := hexited [] l ls rfl (List.ne_nil_of_mem hk)
      have hthere := htail.stat_before (fun k hk => hls k (by simp [hk]))
        (hmade l (by simp) hc hdone) k hk
      rwa [Housed, hplace k.command (hothers.subset (List.mem_map_of_mem hk))]

end Launch

/-! ### An installation -/

/-- A launch that is not the last one has exited with zero. -/
theorem Machine.CarriesOut.exited_of_later {α : Type} {m m' : Machine} {wanted : List Command}
    {new : List Launch} {r : Except Failure α} (h : m.CarriesOut wanted new r m')
    (earlier : List Launch) (l : Launch) (later : List Launch) (hnew : new = earlier ++ l :: later)
    (hlater : later ≠ []) : l.ending = .exited 0 := by
  cases hfail : l.failure? with
  | none => exact Launch.failure?_eq_none_iff.1 hfail
  | some f => exact absurd (h.stops earlier l later f hnew hfail).1 hlater

namespace Toolchain

variable {version : String} {layout : Layout} {fs ext fs' : FileSystem} {here : Location} {n : Nat}
  {l : Launch}

/-- A download is launched in the staging directory that was made for it. -/
theorem Staged.housed (hstaged : Staged layout fs ext here n l.before)
    (hcommand : l.command = download version layout.root n) : l.Housed :=
  FileSystem.stat_of_get? (hstaged.resolve hcommand) (by rw [hstaged.tree, if_pos rfl])

theorem Staged.goLinked (hstaged : Staged layout fs ext here n fs') (hfs : fs.GoLinked) :
    fs'.GoLinked := by
  have hext := hfs.of_extends hstaged.grows hstaged.wellFormed
  have hhere := hstaged.wellFormed.get?_of_reach hstaged.root
  have hmake := Tree.get?_makeDirectory_of_missing hext.closed (by simp) hstaged.fresh
  have hclosed : fs'.tree.Closed :=
    (hext.closed.makeDirectory hhere hstaged.fresh).congr fun q => (hstaged.tree q).trans (hmake q).symm
  refine ⟨hext.toWellFormed.of_gains hstaged.gains hstaged.workingDirectory hclosed,
    fun here name text hlink => ?_⟩
  rw [hstaged.tree] at hlink
  split at hlink
  · simp at hlink
  · exact hext.links here name text hlink

/-- **Behind a download that takes no directory away** the path of the staging directory still leads
to it, and the working directory does not lie in it. -/
theorem Staged.after_constructive (hroot : layout.root.Clean)
    (hstaged : Staged layout fs ext here n l.before) (hfs : fs.GoLinked)
    (hcommand : l.command = download version layout.root n) (hl : l.Constructive) :
    l.after.GoLinked ∧ l.after.LeadsTo (staging layout.root n).toString here (stagingName n) ∧
      l.after.tree.get? (here ++ [stagingName n]) = some .directory ∧
      ¬here ++ [stagingName n] <+: l.after.workingDirectory := by
  have hafter := hl.goLinked (hstaged.goLinked hfs)
  have hpath : l.command.directory = staging layout.root n := by rw [hcommand]; rfl
  have hbefore := hstaged.resolve hcommand
  rw [hpath] at hbefore
  obtain ⟨hresolve, hdirectory⟩ := hl.keepsDirectories _ _ hbefore
    (by rw [hstaged.tree, if_pos rfl])
  rw [staging_eq_child hroot] at hresolve
  have hname : stagingName n ≠ "go" ∧ stagingName n ≠ ".." := by
    rw [stagingName_eq]
    exact ⟨goName_ne _ (by decide), goName_ne _ (by decide)⟩
  -- what is found there is no link, so that it is where the path leads to
  obtain ⟨there, hleads, hget⟩ := FileSystem.leadsTo_of_stat hroot (isPart_stagingName n) hname.2
    (fun here _ text hlink => hname.1 (hafter.links here _ text hlink))
    (FileSystem.stat_of_get? hresolve hdirectory)
  obtain rfl : there = here := by
    have := (hleads.resolve_of_directory hget true).symm.trans hresolve
    simpa using this
  refine ⟨hafter, by rwa [staging_eq_child hroot], hdirectory, fun hpre => ?_⟩
  rw [hl.workingDirectory, hstaged.workingDirectory] at hpre
  have hnone := hstaged.wellFormed.closed.none_of_prefix hstaged.fresh hpre
  simp [hstaged.wellFormed.workingDirectory] at hnone

/-- **One installation launches its download in a directory**, and puts no link in place. -/
theorem housed_of_course (hroot : layout.root.Clean) (hfs : fs.GoLinked)
    {new : List Launch} {r : Except Failure Status} (h : Course version layout fs new fs' r)
    (hl : ∀ l ∈ new, l.Constructive) : (∀ l ∈ new, l.Housed) ∧ fs'.GoLinked := by
  cases h with
  | existing found => exact ⟨by simp, hfs⟩
  | prevented grows wellFormed files => exact ⟨by simp, hfs.of_extends grows wellFormed⟩
  | @undone here n l e command staged =>
      refine ⟨by simpa using staged.housed command, ?_⟩
      obtain ⟨hafter, hleads, hget, hout⟩ :=
        staged.after_constructive hroot hfs command (hl l (List.mem_singleton_self l))
      exact hafter.loses hout (FileSystem.loses_removeTree hafter.closed hleads (Or.inr hget))
  | @installed moved here n l missing command staged ending rename =>
      refine ⟨by simpa using staged.housed command, ?_⟩
      obtain ⟨hafter, hleads, hget, hout⟩ :=
        staged.after_constructive hroot hfs command (hl l (List.mem_singleton_self l))
      rcases FileSystem.rename_cases rename with
        rfl | ⟨here', name, there, name', e, hfrom, hto, he, hobstacle, hapart, hfree, hmoves⟩
      · exact hafter.loses hout (FileSystem.loses_removeTree hafter.closed hleads (Or.inr hget))
      obtain ⟨rfl, rfl⟩ : here' = here ∧ name = stagingName n := by
        have hplace := (hfrom.place .busy).symm.trans (hleads.place .busy)
        simpa using hplace
      obtain rfl : e = .directory := by simpa [hget] using he.symm
      have hroom := FileSystem.hasRoom_of_obstacle? hafter.closed hobstacle
      rw [FileSystem.removeTree_of_moves hleads hfree hget hroom hmoves]
      exact hafter.moves hout (hafter.get?_of_leadsTo hto) hapart hget hroom hmoves

end Toolchain

/-- **The directory of the repositories is there** once it has been made, or has been found to be one. -/
theorem Repository.stat_of_ensureBase {layout : Layout} {m m₁ : Machine} {path : Path}
    (hfs : m.files.WellFormed) (h : (ensureBase layout false).perform m = (.ok path, m₁)) :
    m₁.files.stat layout.baseRepoPath.toString = .ok .directory := by
  unfold ensureBase at h
  dsimp only at h
  obtain ⟨there, m₂, hfound, h⟩ := perform_bind_eq_ok.1 h
  obtain ⟨-, rfl⟩ := found_eq_sees hfound
  cases there with
  | true =>
      rw [if_pos rfl, perform_bind_ok (perform_files m₂)] at h
      split at h
      · next hlook =>
        rw [perform_bind_ok (perform_debug _ m₂), perform_pure] at h
        obtain rfl := (Prod.mk.inj h).2
        exact FileSystem.stat_of_isDirectory hlook
      · simp at h
      · simp at h
  | false =>
      rw [if_neg (by decide), if_neg (by decide), perform_bind_ok (perform_files m₂),
        perform_bind_ok (perform_setFiles _ m₂)] at h
      split at h
      · simp at h
      · next hmade =>
        rw [perform_pure] at h
        obtain rfl := (Prod.mk.inj h).2
        exact FileSystem.stat_of_ensureDirectories hfs hmade

namespace Bootstrap

/-- Whether a command sets the address of a repository. -/
def isRefresh (c : Command) : Bool := ["git", "remote", "set-url"].isPrefixOf c.argv

namespace Plan

variable {p : Plan} {m m₁ : Machine} {t : Task}

/-- **A command that puts in place what it is for**: a package that is got, and a repository that is
cloned, are directories if the command exits with zero. -/
structure Delivers (p : Plan) (l : Launch) : Prop where
  package : ∀ importPath, l.command.argv = ["go", "get", importPath] → l.ending = .exited 0 →
    l.after.stat (p.layout.packageDir importPath).toString = .ok .directory
  source : l.command.argv = p.cloning p.config.sourceOrg p.config.sourceRepo →
    l.ending = .exited 0 → l.after.stat (p.layout.repoDir p.config.sourceRepo).toString = .ok .directory
  fork : ∀ name ∈ Rules.destinations p.rules,
    l.command.argv = p.cloning p.config.targetOrg name → l.ending = .exited 0 →
      l.after.stat (p.layout.repoDir name).toString = .ok .directory

/-- Launches in directories, but for those that set the address of a fork. -/
def HousedBut (_ : FileSystem) (ls : List Launch) (_ : FileSystem) : Prop :=
  ∀ l ∈ ls, isRefresh l.command = false → l.Housed

/-- The files behind the directory of the repositories. -/
structure Based (p : Plan) (fs : FileSystem) : Prop where
  goLinked : fs.GoLinked
  base : fs.stat p.layout.baseRepoPath.toString = .ok .directory

section

variable (hdry : p.arguments.dryRun = false) (hroot : p.layout.root.Clean)
include hdry

/-! ### The tasks before the tools -/

include hroot in
theorem housed_of_toolchain {version : String} (hfs : m.files.GoLinked)
    (hl : ∀ l ∈ (p.step (.toolchain version)).launched m, l.Constructive ∧ p.Delivers l) :
    HousedBut m.files ((p.step (.toolchain version)).launched m)
        ((p.step (.toolchain version)).perform m).2.files ∧
      ((p.step (.toolchain version)).perform m).2.files.GoLinked := by
  have hrunner : p.runner.dryRun = false := hdry
  obtain ⟨new, hnew, hcourse⟩ :=
    Toolchain.course_of_install hrunner hroot version hfs.toWellFormed
  have hperform := perform_toolchain p version m
  rw [launched_eq (by rw [hperform]; exact hnew)] at hl ⊢
  rw [hperform]
  obtain ⟨hhoused, hfs'⟩ :=
    Toolchain.housed_of_course hroot hfs hcourse fun l hmem => (hl l hmem).1
  exact ⟨fun l hmem _ => hhoused l hmem, hfs'⟩

include hroot in
theorem goLinked_of_link (hfs : m.files.GoLinked) : ((p.step .link).perform m).2.files.GoLinked := by
  obtain ⟨r, m', hperform, -, hcases⟩ := link_cases hdry m
  have hcleared := hfs.cleared p.layout.goLink.toString
  rw [hperform]
  rcases hcases with ⟨-, hsymlink⟩ | ⟨-, hsame, -⟩
  · exact hcleared.symlink hroot hsymlink
  · dsimp only
    rwa [hsame]

/-- **Behind its task the directory of the repositories is there**, if the task succeeds. -/
theorem based_of_base (hfs : m.files.GoLinked) (h : (p.step .base).perform m = (.ok (), m₁)) :
    p.Based m₁.files := by
  obtain ⟨hextends, hfs'⟩ := extends_of_step hdry hfs.toWellFormed
  rw [h] at hextends hfs'
  have hbase : p.step .base = Repository.ensureBase p.layout false >>= fun _ => pure () := by
    rw [← hdry]
    rfl
  rw [hbase] at h
  obtain ⟨path, m₂, hensure, hpure⟩ := perform_bind_eq_ok.1 h
  obtain rfl : m₂ = m₁ := by simpa using hpure
  exact ⟨hfs.of_extends hextends hfs', Repository.stat_of_ensureBase hfs.toWellFormed hensure⟩

/-! ### Tools and repositories -/

/-- **A tool or a repository** is set up by commands of which the first is launched in the directory of
the repositories and makes a place for the others; only the address of a fork is set wherever it is
found. -/
theorem housed_of_work (ht : t ∈ p.tools ++ ([.source] ++ p.forks)) (hfs : p.Based m.files)
    (hl : ∀ l ∈ (p.step t).launched m, l.Constructive ∧ p.Delivers l) :
    HousedBut m.files ((p.step t).launched m) ((p.step t).perform m).2.files := by
  obtain ⟨wanted, hblock, new, hnew⟩ := follows_step hdry t m
  obtain ⟨new', fs, hlaunches, hchain, -⟩ := work_cases hdry ht m
  obtain rfl : new = new' := List.append_cancel_left (hnew.continues.launches.symm.trans hlaunches)
  rw [launched_eq hlaunches] at hl ⊢
  have hnone : wanted = [] → HousedBut m.files new ((p.step t).perform m).2.files := by
    rintro rfl
    obtain rfl := List.map_eq_nil_iff.1 (List.prefix_nil.1 hnew.commands)
    exact fun l hmem => absurd hmem (by simp)
  have hsome : ∀ (c : Command) (cs : List Command) (place : Path), wanted = c :: cs →
      c.directory = p.layout.baseRepoPath → (∀ k ∈ cs, k.directory = place) →
      (∀ l ∈ new, l.command = c → l.ending = .exited 0 →
        l.after.stat place.toString = .ok .directory) →
      HousedBut m.files new ((p.step t).perform m).2.files := by
    rintro c cs place rfl hc hplace hmade l hmem -
    exact hchain.housed (fun k hk => (hl k hk).1) hnew.commands hnew.exited_of_later
      (by rw [hc]; exact hfs.base) hplace hmade l hmem
  cases t with
  | toolchain version => simp [tools, forks] at ht
  | link => simp [tools, forks] at ht
  | base => simp [tools, forks] at ht
  | tool tool skip =>
      have hcommands : wanted = if skip || m.findExecutable tool.name then [] else
        tool.commands p.layout := hblock
      split at hcommands
      · exact hnone hcommands
      · refine hsome _ _ (p.layout.packageDir tool.importPath) hcommands rfl
          (by simp [Layout.packageDir]) ?_
        intro l hmem hc hexited
        exact (hl l hmem).2.package tool.importPath (by rw [hc]) hexited
  | source =>
      have hcommands : wanted = if m.sees (p.layout.repoDir p.config.sourceRepo) then [] else
        p.sourceCommands := hblock
      split at hcommands
      · exact hnone hcommands
      · refine hsome _ _ (p.layout.repoDir p.config.sourceRepo) hcommands rfl ?_ ?_
        · intro k hk
          split at hk
          · rw [List.mem_singleton.1 hk]
          · simp at hk
        · intro l hmem hc hexited
          exact (hl l hmem).2.source (by rw [hc]; rfl) hexited
  | fork name =>
      have hname : name ∈ Rules.destinations p.rules := by simpa [tools, forks] using ht
      have hcommands : wanted = if m.sees (p.layout.repoDir name) then p.refreshCommands name else
        p.forkCommands name := hblock
      split at hcommands
      · intro l hmem hother
        have hc := hnew.commands.subset (List.mem_map_of_mem hmem)
        rw [hcommands, refreshCommands, List.mem_singleton] at hc
        rw [hc] at hother
        exact absurd hother (by simp [isRefresh, List.isPrefixOf])
      · refine hsome _ _ (p.layout.repoDir name) hcommands rfl (by simp) ?_
        intro l hmem hc hexited
        exact (hl l hmem).2.fork name hname (by rw [hc]; rfl) hexited

include hroot in
/-- **The directory of the repositories stays**: a lock that is removed is no link. -/
theorem based_of_work (ht : t ∈ p.tools ++ ([.source] ++ p.forks)) (hfs : p.Based m.files)
    (hl : ∀ l ∈ (p.step t).launched m, l.Constructive ∧ p.Delivers l) :
    p.Based ((p.step t).perform m).2.files := by
  obtain ⟨new, fs, hlaunches, hchain, hcases⟩ := work_cases hdry ht m
  rw [launched_eq hlaunches] at hl
  have hconstructive : ∀ l ∈ new, l.Constructive := fun l hmem => (hl l hmem).1
  have hbefore : p.Based fs :=
    ⟨hchain.goLinked (fun l hmem => (hconstructive l hmem).toSparing) hfs.goLinked,
      (hchain.keepsDirectories hconstructive).stat hfs.base⟩
  rcases hcases with hsame | ⟨name, -, hcleared⟩
  · rwa [hsame]
  · rw [hcleared]
    refine ⟨hbefore.goLinked.cleared _, FileSystem.persists_cleared _ ?_ _ hbefore.base⟩
    exact hbefore.goLinked.lstat_ne_link ((Layout.clean_repoDir hroot name).child_text _)
      ⟨by decide, by decide, by decide⟩ (by decide) (by decide)

/-! ### All tasks -/

include hroot

/-- The link and the directory of the repositories are put in place, and nothing is launched. -/
theorem housed_of_places (hfs : m.files.GoLinked) :
    HousedBut m.files ((forM [.link, .base] p.step).launched m) (p.after [.link, .base] m).files ∧
      ∀ m₁, (forM [.link, .base] p.step).perform m = (.ok (), m₁) → p.Based m₁.files := by
  constructor
  · intro l hmem
    obtain ⟨wanted, hword, new, hnew⟩ := follows_tasks hdry [.link, .base] m
    obtain ⟨_, _, rfl, rfl, _, _, rfl, rfl, rfl⟩ := hword
    rw [launched_eq hnew.continues.launches] at hmem
    obtain rfl := List.map_eq_nil_iff.1 (List.prefix_nil.1 hnew.commands)
    simp at hmem
  · intro m₁ h
    rw [List.forM_cons] at h
    obtain ⟨_, m₂, hlink, h⟩ := perform_bind_eq_ok.1 h
    have hfs₂ := goLinked_of_link hdry hroot hfs
    rw [hlink] at hfs₂
    exact based_of_base hdry hfs₂ (by simpa using h)

/-- **The tasks of a plan launch their commands in directories**, but for those that set the address of
a fork. -/
theorem housed_of_tasks (hfs : m.files.GoLinked)
    (hl : ∀ l ∈ (forM p.tasks p.step).launched m, l.Constructive ∧ p.Delivers l) :
    HousedBut m.files ((forM p.tasks p.step).launched m) (p.after p.tasks m).files := by
  have hnil : ∀ fs, HousedBut fs [] fs := fun _ l hmem => absurd hmem (by simp)
  have happend : ∀ fs ls mid ls' fs', HousedBut fs ls mid → HousedBut mid ls' fs' →
      HousedBut fs (ls ++ ls') fs' := fun _ _ _ _ _ h h' l hmem =>
    (List.mem_append.1 hmem).elim (h l) (h' l)
  have hparts : p.tasks = p.toolchains ++ ([.link, .base] ++ (p.tools ++ ([.source] ++ p.forks))) := rfl
  rw [hparts] at hl ⊢
  have htoolchains : HousedBut m.files ((forM p.toolchains p.step).launched m)
      (p.after p.toolchains m).files ∧ (p.after p.toolchains m).files.GoLinked :=
    segments_induction hdry hnil happend (fun t ht m hfs hl => by
      obtain ⟨version, -, rfl⟩ := List.mem_map.1 ht
      exact housed_of_toolchain hdry hroot hfs hl) hfs
    fun l hmem => hl l (mem_launched_append hdry (Or.inl hmem))
  refine segments_append hdry (fun _ _ _ h => h) happend htoolchains.1 fun m₁ hm₁ => ?_
  have hfs₁ := htoolchains.2
  rw [after, hm₁] at hfs₁
  have hlater := fun l hmem => hl l (mem_launched_append hdry (Or.inr ⟨m₁, hm₁, hmem⟩))
  refine segments_append hdry (fun _ _ _ h => h) happend
    (housed_of_places hdry hroot hfs₁).1 fun m₂ hm₂ => ?_
  have hfs₂ := (housed_of_places hdry hroot hfs₁).2 m₂ hm₂
  exact (segments_induction hdry (S := HousedBut) (I := p.Based) hnil happend
    (fun t ht m hfs hl => ⟨housed_of_work hdry ht hfs hl, based_of_work hdry hroot ht hfs hl⟩) hfs₂
    fun l hmem => hlater l (mem_launched_append hdry (Or.inr ⟨m₂, hm₂, hmem⟩))).1

end

end Plan

/-! ### A run -/

/-- **All commands of a run are launched in directories**, but for those that set the address of a fork
that is found: in a world without links but the one to the default distribution, with commands that
take neither a directory nor this link away and make no link, where a package that was got and a
repository that was cloned are there. -/
theorem launched_in_directories {words : List String} {a : Arguments}
    (hread : Arguments.read words = .run a) (hdry : a.dryRun = false) {m : Machine}
    (hfs : m.files.WellFormed)
    (hworld : ∀ p m₁, (prepare a).perform { m with log := [] } = (.ok p, m₁) →
      (∀ q text, m.files.tree.get? q = some (.link text) →
        ∃ here, m.files.reach p.layout.root = .ok here ∧ q = here ++ ["go"]) ∧
      ∀ l ∈ launchesOf words m, l.Constructive ∧ p.Delivers l) :
    ∀ l ∈ launchesOf words m, isRefresh l.command = false →
      l.before.stat l.command.directory.toString = .ok .directory := by
  rcases hprepare : (prepare a).perform { m with log := [] } with ⟨e | p, m₁⟩
  -- without a plan nothing is launched
  · obtain ⟨hnone, -⟩ := run_of_error hread hprepare
    intro l hmem
    rw [launchesOf, hnone, List.drop_length] at hmem
    simp at hmem
  · obtain ⟨hlinks, hl⟩ := hworld p m₁ hprepare
    have hdry' : p.arguments.dryRun = false := by rw [(plan_of_prepare hprepare).1, hdry]
    have hstart : m₁.files = m.files := by
      obtain ⟨_, rfl⟩ := machine_of_prepare hprepare
      rfl
    rw [launchesOf_of_plan hread hprepare] at hl ⊢
    refine Plan.housed_of_tasks hdry' (clean_root_of_prepare hprepare) ?_ hl
    rw [hstart]
    refine ⟨hfs, fun here name text hlink => ?_⟩
    obtain ⟨there, -, hplace⟩ := hlinks _ text hlink
    simpa using (List.append_inj' hplace rfl).2

namespace Sample

/-- The directory that a command makes: that of the package that is got, or of the repository that is
cloned. -/
def made (c : Command) : Option Path :=
  match c.argv with
  | ["go", "get", importPath] => some (workingPlan.layout.packageDir importPath)
  | ["git", "clone", url] =>
      let name := String.ofList ((Text.pieces '/' url.toList).getLastD [])
      some (workingPlan.layout.repoDir name)
  | _ => none

/-- The small machine, with a link from before that leads nowhere, and commands that make the
directories that they are for. -/
def building : Machine := { machine with
  files := ⟨⟨[(["home"], .directory), (["rules"], .file rulesText.toUTF8 false),
    (["home", "go"], .directory), (["home", "go", "go"], .link "/nowhere")]⟩, []⟩
  behaviour := fun _ c fs => (.exited 0, ((made c).map fs.grownTo).getD fs) }

/-- Whether a launch has left every directory, and made no link. -/
def isSparing (l : Launch) : Bool :=
  l.after.tree.Closed && l.after.workingDirectory = l.before.workingDirectory &&
    l.before.tree.entries.all (fun x =>
      !x.2 matches .directory || l.after.tree.get? x.1 = some .directory) &&
    l.after.tree.entries.all fun x => !x.2 matches .link _ || l.before.tree.get? x.1 = some x.2

/-- Whether a launch has left every directory and every link, and made no link. -/
def isConstructive (l : Launch) : Bool :=
  isSparing l &&
    l.before.tree.entries.all fun x => !x.2 matches .link _ || l.after.tree.get? x.1 = some x.2

/-- Whether a launch has put in place what its command is for, if that has exited with zero. -/
def hasDelivered (p : Plan) (l : Launch) : Bool :=
  l.ending ≠ .exited 0 ||
    (match l.command.argv with
      | ["go", "get", importPath] =>
          (l.after.stat (p.layout.packageDir importPath).toString).toOption = some .directory
      | _ => true) &&
      p.repositories.all fun name =>
        !(l.command.argv = p.cloning p.config.sourceOrg name ||
            l.command.argv = p.cloning p.config.targetOrg name) ||
          (l.after.stat (p.layout.repoDir name).toString).toOption = some .directory

theorem sparing_of_isSparing {l : Launch} (h : isSparing l = true) : l.Sparing := by
  simp only [isSparing, Bool.and_eq_true, decide_eq_true_eq, List.all_eq_true, Bool.or_eq_true,
    Bool.not_eq_true'] at h
  obtain ⟨⟨⟨hclosed, hdirectory⟩, hdirectories⟩, hlinks⟩ := h
  refine ⟨⟨fun _ => hclosed, fun q text hlink => ?_⟩, hdirectory, fun q hq => ?_⟩
  · exact (hlinks _ (Tree.mem_of_link hlink)).resolve_left (by simp)
  · by_cases hroot : q = []
    · simp [hroot]
    · exact (hdirectories _ (Tree.mem_of_get? hroot hq)).resolve_left (by simp)

theorem constructive_of_isConstructive {l : Launch} (h : isConstructive l = true) :
    l.Constructive := by
  obtain ⟨hsparing, hlinks⟩ := Bool.and_eq_true_iff.1 h
  simp only [List.all_eq_true, Bool.or_eq_true, Bool.not_eq_true', decide_eq_true_eq] at hlinks
  refine ⟨sparing_of_isSparing hsparing, fun q text hlink => ?_⟩
  exact (hlinks _ (Tree.mem_of_link hlink)).resolve_left (by simp)

theorem delivers_of_hasDelivered {p : Plan} {l : Launch} (h : hasDelivered p l = true) :
    p.Delivers l := by
  have hdone : l.ending = .exited 0 →
      (∀ importPath, l.command.argv = ["go", "get", importPath] →
        l.after.stat (p.layout.packageDir importPath).toString = .ok .directory) ∧
      ∀ name ∈ p.repositories, (l.command.argv = p.cloning p.config.sourceOrg name ∨
        l.command.argv = p.cloning p.config.targetOrg name) →
          l.after.stat (p.layout.repoDir name).toString = .ok .directory := by
    intro hexited
    simp only [hasDelivered, hexited, ne_eq, not_true_eq_false, decide_false, Bool.false_or,
      Bool.and_eq_true, List.all_eq_true, Bool.or_eq_true, Bool.not_eq_true',
      Bool.or_eq_false_iff, decide_eq_true_eq, decide_eq_false_iff_not] at h
    obtain ⟨hpackage, hclones⟩ := h
    refine ⟨fun importPath hargv => ?_, fun name hname hargv => ?_⟩
    · rw [hargv] at hpackage
      exact FileSystem.ok_of_toOption (by simpa using hpackage)
    · refine FileSystem.ok_of_toOption ((hclones name hname).resolve_left fun hother => ?_)
      exact hargv.elim hother.1 hother.2
  exact ⟨fun importPath hargv hexited => (hdone hexited).1 importPath hargv,
    fun hargv hexited => (hdone hexited).2 _ (List.mem_cons_self ..) (Or.inl hargv),
    fun name hname hargv hexited =>
      (hdone hexited).2 name (List.mem_cons_of_mem _ hname) (Or.inr hargv)⟩

/-- A run on this machine. -/
theorem run_building :
    ((prepare arguments).perform { building with log := [] }).1.toOption = some workingPlan ∧
      (launchesOf words building).all (fun l => isConstructive l && hasDelivered workingPlan l) ∧
      (launchesOf words building).length = 12 ∧
      (building.files.reach workingPlan.layout.root).toOption = some ["home", "go"] := by
  decide +kernel

/-- There is one link on the machine. -/
theorem links_building {q : Location} {text : String}
    (h : building.files.tree.get? q = some (.link text)) : q = ["home", "go"] ++ ["go"] := by
  have hentries : ∀ x ∈ building.files.tree.entries, (∃ text, x.2 = .link text) →
      x.1 = ["home", "go"] ++ ["go"] := by
    simp [building]
  exact hentries _ (Tree.mem_of_link h) ⟨text, rfl⟩

end Sample

/-- The distributions, the tools and the repositories of a run are set up in directories that are made
on the way. -/
theorem launched_in_directories_sample :
    (launchesOf Sample.words Sample.building).length = 12 ∧
      ∀ l ∈ launchesOf Sample.words Sample.building, isRefresh l.command = false →
        l.before.stat l.command.directory.toString = .ok .directory := by
  obtain ⟨hprepared, hlaunches, hlength, hreach⟩ := Sample.run_building
  refine ⟨hlength, launched_in_directories Sample.read_words rfl
    ⟨by decide +kernel, by decide +kernel⟩ fun p m₁ hprepare => ?_⟩
  obtain rfl : Sample.workingPlan = p :=
    Except.ok.inj (Prod.mk.inj ((perform_of_toOption hprepared).symm.trans hprepare)).1
  refine ⟨fun q text hlink => ?_, fun l hmem => ?_⟩
  · exact ⟨_, FileSystem.ok_of_toOption hreach, Sample.links_building hlink⟩
  obtain ⟨hconstructive, hdelivered⟩ := Bool.and_eq_true_iff.1 (List.all_eq_true.1 hlaunches l hmem)
  exact ⟨Sample.constructive_of_isConstructive hconstructive, Sample.delivers_of_hasDelivered hdelivered⟩

namespace Sample

/-- The command line, with a base package that lies behind the link to the default distribution. -/
def linkedWords : List String := words ++ ["--base-package", "../go/pkg"]

/-- What it says. -/
def linkedArguments : Arguments := { arguments with basePackage := .given "../go/pkg" }

/-- The plan for it. -/
def linkedPlan : Plan := { workingPlan with
  arguments := linkedArguments
  config := { workingPlan.config with basePackage := "../go/pkg" }
  layout := ⟨Path.ofString "/home/go", "../go/pkg"⟩ }

/-- The small machine, with a command that makes the directory of the first tool and removes the link.
The next command in the directory of the repositories does not start. -/
def unlinking : Machine := { machine with
  behaviour := fun _ c fs =>
    match c.argv with
    | ["go", "get", "github.com/tools/godep"] =>
        (.exited 0, (fs.grownTo (linkedPlan.layout.packageDir "github.com/tools/godep")).cleared
          linkedPlan.layout.goLink.toString)
    | ["go", "get", "github.com/golang/dep"] => (.notStarted (.directory .noEntry c.directory), fs)
    | _ => (.exited 0, fs) }

/-- A run on this machine. -/
theorem run_unlinking :
    ((prepare linkedArguments).perform { unlinking with log := [] }).1.toOption = some linkedPlan ∧
      (launchesOf linkedWords unlinking).all (fun l => isSparing l && hasDelivered linkedPlan l) ∧
      ((launchesOf linkedWords unlinking).getLast?.map fun l =>
        (l.command.argv, isRefresh l.command,
          (l.before.stat l.command.directory.toString).toOption)) =
            some (["go", "get", "github.com/golang/dep"], false, none) := by
  decide +kernel

end Sample

/-- **The link to the default distribution has to stay as well.**  The paths that commands are launched
in may lead over it.  If a command removes it, and no directory, the next one may find none. -/
theorem launched_in_no_directory :
    Arguments.read Sample.linkedWords = .run Sample.linkedArguments ∧
      Sample.linkedArguments.dryRun = false ∧ Sample.unlinking.files.WellFormed ∧
      (∀ q text, Sample.unlinking.files.tree.get? q ≠ some (.link text)) ∧
      ((prepare Sample.linkedArguments).perform { Sample.unlinking with log := [] }).1 =
        .ok Sample.linkedPlan ∧
      (∀ l ∈ launchesOf Sample.linkedWords Sample.unlinking,
        l.Sparing ∧ Sample.linkedPlan.Delivers l) ∧
      ∃ l ∈ launchesOf Sample.linkedWords Sample.unlinking, isRefresh l.command = false ∧
        l.before.stat l.command.directory.toString ≠ .ok .directory := by
  obtain ⟨hprepared, hlaunches, hlast⟩ := Sample.run_unlinking
  refine ⟨by decide +kernel, rfl, ⟨by decide +kernel, by decide +kernel⟩, Sample.links_working,
    FileSystem.ok_of_toOption hprepared, fun l hmem => ?_, ?_⟩
  · obtain ⟨hsparing, hdelivered⟩ := Bool.and_eq_true_iff.1 (List.all_eq_true.1 hlaunches l hmem)
    exact ⟨Sample.sparing_of_isSparing hsparing, Sample.delivers_of_hasDelivered hdelivered⟩
  · obtain ⟨l, hl, hsame⟩ := Option.map_eq_some_iff.1 hlast
    obtain ⟨-, hrefresh, hstat⟩ :
        l.command.argv = ["go", "get", "github.com/golang/dep"] ∧ isRefresh l.command = false ∧
          (l.before.stat l.command.directory.toString).toOption = none := by
      simpa using hsame
    refine ⟨l, List.mem_of_getLast? hl, hrefresh, fun hthere => ?_⟩
    simp [hthere, Except.toOption] at hstat

end Bootstrap

end Provision
