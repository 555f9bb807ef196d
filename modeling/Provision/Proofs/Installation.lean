/-
**Installing is all or nothing.**

Whatever the download does, short of harming the root directory or putting something else in the
place of its staging directory, installing a distribution ends in one of four ways.  The
distribution was there already, and nothing happens.  It is now in its place as the download has
left it, and nothing was in the place before.  Installing it has failed, and what the download has
left in the staging directory is gone.  Or it has failed before the download, and there are at most
some directories more on the way to the root.

Main definitions:

* `Provision.Launch.Spares` — what a download must leave alone;
* `Provision.Failure.isOfInstall` — the failures that installing can end with;
* `Provision.Toolchain.Outcome` — **the ways in which installing ends**.

Main results:

* `Provision.Toolchain.extends_makeStaging` — failing to make a staging directory;
* `Provision.Toolchain.fill_cases` — what filling one comes to;
* `Provision.Toolchain.install_is_all_or_nothing` — **installing ends in one of these ways**.
-/

import Provision.Proofs.Distribution
import Provision.Proofs.Growth
import Provision.Proofs.Moves

set_option relaxedAutoImplicit false
set_option autoImplicit false

namespace Provision

open Step

/-- **What a download must leave alone**: the root is a directory behind it, and the directory that
it was launched in is one or is gone. -/
structure Launch.Spares (l : Launch) (root : Path) : Prop where
  /-- What it leaves is a file tree. -/
  closed : l.after.tree.Closed
  /-- The root is in place. -/
  root : l.after.stat root.toString = .ok .directory
  /-- Nothing else has come into the place of the directory it was launched in. -/
  directory : l.after.lstat l.command.directory.toString = .error (.failed .noEntry) ∨
    l.after.lstat l.command.directory.toString = .ok .directory

/-- Whether installing a distribution can end with a failure. -/
def Failure.isOfInstall : Failure → Bool
  | .toolchain _ | .command _ | .interrupted | .embeddedNull => true
  | _ => false

theorem Launch.isOfInstall_of_failure {l : Launch} {f : Failure} (h : l.failure? = some f) :
    f.isOfInstall = true := by
  obtain ⟨code, -, rfl⟩ | ⟨-, rfl⟩ | ⟨cause, e, -, -, rfl⟩ | ⟨cause, -, -, rfl⟩ :=
    failure?_cases h
  · rfl
  · rfl
  · rfl
  · rfl

namespace Toolchain

/-! ### Names -/

/-- The name of the staging directory with a number. -/
def stagingName (n : Nat) : String := "go-tmp-" ++ toString n

theorem isPart_stagingName (n : Nat) : Path.IsPart (stagingName n) := by
  refine ⟨by simp [stagingName], ?_, ?_⟩
  · intro h
    have := congrArg (fun s => s.toList.head?) h
    simp [stagingName] at this
  · intro h
    rw [stagingName, String.toList_append] at h
    rcases List.mem_append.1 h with hprefix | hnumber
    · exact absurd hprefix (by decide)
    · have hdigit := Nat.isDigit_of_mem_toDigits (b := 10) (n := n) (c := '/') (by decide)
        (by decide) (by simpa using hnumber)
      exact absurd hdigit (by decide)

theorem isPart_goName {version : String} (h : '/' ∉ version.toList) :
    Path.IsPart ("go-" ++ version) := by
  refine ⟨by simp, ?_, ?_⟩
  · intro hdot
    have := congrArg (fun s => s.toList.head?) hdot
    simp at this
  · intro hmem
    rw [String.toList_append] at hmem
    rcases List.mem_append.1 hmem with hprefix | hversion
    · exact absurd hprefix (by decide)
    · exact h hversion

theorem staging_eq_child {root : Path} (hroot : root.Clean) (n : Nat) :
    staging root n = root.child (stagingName n) :=
  Path.ofString_textBelow hroot (isPart_stagingName n)

/-! ### The ways in which installing ends -/

/-- **The ways in which installing ends**: from the files before it, what it launches, the files
behind it, and its answer or failure. -/
inductive Outcome (version : String) (layout : Layout) (before : FileSystem) :
    List Launch → FileSystem → Except Failure Status → Prop where
  /-- The distribution is there: nothing is launched, and nothing changes. -/
  | existing : Outcome version layout before [] before (.ok .existing)
  /-- The staging directory has moved to where there was room for it. -/
  | installed {l : Launch} {n : Nat} {here : Location} {after : FileSystem}
      (command : l.command = download version layout.root n)
      (ending : l.ending = .exited 0)
      (root : l.after.resolve layout.root.toString true = .ok here)
      (staged : l.after.tree.get? (here ++ [stagingName n]) = some .directory)
      (room : l.after.tree.HasRoom (here ++ ["go-" ++ version]))
      (moves : l.after.Moves (here ++ [stagingName n]) (here ++ ["go-" ++ version]) after) :
      Outcome version layout before [l] after (.ok .installed)
  /-- Nothing is left of the staging directory. -/
  | undone {l : Launch} {n : Nat} {here : Location} {after : FileSystem} {e : Failure}
      (command : l.command = download version layout.root n)
      (root : l.after.resolve layout.root.toString true = .ok here)
      (loses : l.after.Loses (here ++ [stagingName n]) after)
      (failure : e.isOfInstall = true) :
      Outcome version layout before [l] after (.error e)
  /-- Nothing was launched, and there may be more directories on the way to the root. -/
  | prevented {after : FileSystem} {e : Failure}
      (grows : before.Extends layout.root after)
      (failure : e.isOfInstall = true) :
      Outcome version layout before [] after (.error e)

variable {version : String} {layout : Layout} {root target : Path} {n : Nat} {m m' : Machine}

/-! ### The staging directory is made -/

theorem refused_of_install {α : Type} (r : Refusal) (error : Errno → ToolchainError) (m : Machine) :
    ∃ e, (refused r fun errno => .toolchain (error errno) : Step α).perform m = (.error e, m) ∧
      e.isOfInstall = true := by
  cases r with
  | embeddedNull => exact ⟨.embeddedNull, rfl, rfl⟩
  | failed errno => exact ⟨.toolchain (error errno), rfl, rfl⟩

theorem error_of_makeStagingWithin {tries : Nat} {e : Failure}
    (h : (makeStagingWithin root tries).perform m = (.error e, m')) :
    e.isOfInstall = true ∧ m'.files = m.files := by
  induction tries generalizing m with
  | zero =>
      obtain ⟨rfl, rfl⟩ : Failure.toolchain (.noStagingName root) = e ∧ m = m' := by
        simpa [makeStagingWithin] using h
      exact ⟨rfl, rfl⟩
  | succ tries ih =>
      rw [makeStagingWithin, perform_bind_ok (perform_modify _ m),
        perform_bind_ok (perform_get _)] at h
      dsimp only at h
      split at h
      · rw [perform_bind_ok (perform_setFiles _ _), perform_pure] at h
        simp at h
      · split at h
        -- the name is taken, and the next one is tried on the same files
        · obtain ⟨hfailure, hfiles⟩ := ih h
          exact ⟨hfailure, hfiles⟩
        · obtain ⟨rfl, rfl⟩ : _ = e ∧ _ = m' := by simpa using h
          exact ⟨rfl, rfl⟩
      · obtain ⟨rfl, rfl⟩ : _ = e ∧ _ = m' := by simpa using h
        exact ⟨rfl, rfl⟩

/-- **Failing to make a staging directory** adds directories on the way to the root at most. -/
theorem extends_makeStaging {e : Failure} (hfs : m.files.WellFormed)
    (h : (makeStaging root).perform m = (.error e, m')) :
    e.isOfInstall = true ∧ m.files.Extends root m'.files := by
  obtain ⟨hextends, -⟩ := FileSystem.extends_ensureDirectories hfs root
  rw [makeStaging, perform_bind_ok (perform_files m)] at h
  dsimp only at h
  rw [perform_bind_ok (perform_setFiles _ _)] at h
  split at h
  · next r path hrefusal =>
    obtain ⟨e', hperform, hfailure⟩ := refused_of_install (α := Path) r
      (fun errno => .noStaging root (.onPath errno path.toString))
      { m with files := (m.files.ensureDirectories root).1 }
    rw [hperform] at h
    obtain ⟨rfl, rfl⟩ : e' = e ∧ _ = m' := by simpa using h
    exact ⟨hfailure, hextends⟩
  · obtain ⟨hfailure, hfiles⟩ := error_of_makeStagingWithin h
    rw [hfiles]
    exact ⟨hfailure, hextends⟩

/-- The name of a staging directory that was made may be looked up. -/
theorem isName_of_makeDirectory {fs fs' : FileSystem} (hroot : root.Clean)
    (h : fs.makeDirectory (Path.textBelow root.toString (stagingName n)) = .ok fs') :
    FileSystem.IsName (stagingName n) := by
  obtain ⟨here, name, hleads, -, -⟩ := FileSystem.makeDirectory_eq_ok h
  -- the text leads to a name that may be looked up, and this name is the one behind the path
  obtain ⟨-, rfl⟩ :=
    FileSystem.reach_of_leadsTo_textBelow hroot (isPart_stagingName n) hleads
  exact hleads.name

/-! ### The staging directory is filled -/

/-- What stands at the staging directory once the download is over. -/
theorem exists_leadsTo_staging {l : Launch} (hroot : root.Clean)
    (hname : FileSystem.IsName (stagingName n)) (hl : l.Spares root)
    (hcommand : l.command = download version root n) :
    ∃ here, l.after.resolve root.toString true = .ok here ∧
      l.after.LeadsTo (staging root n).toString here (stagingName n) ∧
      (l.after.tree.get? (here ++ [stagingName n]) = none ∨
        l.after.tree.get? (here ++ [stagingName n]) = some .directory) := by
  obtain ⟨here, hhere⟩ := FileSystem.resolve_of_stat hl.root
  have hdirectory : l.command.directory = staging root n := by rw [hcommand]; rfl
  have hlook := hl.directory
  rw [hdirectory] at hlook
  have hleads : l.after.LeadsTo (staging root n).toString here (stagingName n) := by
    rw [staging_eq_child hroot] at hlook ⊢
    exact FileSystem.leadsTo_of_lstat hroot (isPart_stagingName n) hname hhere hlook
  refine ⟨here, hhere, hleads, ?_⟩
  rcases hlook with hmissing | hfound
  · exact Or.inl (hleads.get?_of_lstat_missing hmissing)
  · exact Or.inr (hleads.get?_of_lstat hfound)

/-- **What filling a staging directory comes to**: the download exits with zero and the directory is
renamed, or the files are as the download has left them. -/
theorem fill_cases {runner : Runner} (hdry : runner.dryRun = false) (version : String)
    (root target : Path) (n : Nat) (m : Machine) :
    ∃ r m', (fill version (staging root n) target runner).perform m = (r, m') ∧
      m'.launches = m.launches ++ [m.launched (download version root n)] ∧
      ((r = .ok () ∧ (m.launched (download version root n)).ending = .exited 0 ∧
          (m.launched (download version root n)).after.rename (staging root n).toString
            target.toString = .ok m'.files) ∨
        (∃ e, r = .error e ∧ e.isOfInstall = true ∧
          m'.files = (m.launched (download version root n)).after)) := by
  obtain ⟨records, hrun⟩ : ∃ records,
      (runner.run ["/bin/bash", "-c", downloadScript version (staging root n)]
        (some (staging root n))).perform m =
      ((m.launched (download version root n)).result,
        m.afterLaunch (download version root n) records) :=
    Runner.perform_run hdry _ _ m
  generalize hl : m.launched (download version root n) = l at hrun ⊢
  have hafter : (m.afterLaunch (download version root n) records).files = l.after := by
    rw [← hl]; rfl
  have hlaunches : (m.afterLaunch (download version root n) records).launches =
      m.launches ++ [l] := by rw [← hl]; rfl
  cases hf : l.failure? with
  | some f =>
      -- the download has failed, and nothing else is done
      rw [Launch.result_of_failure hf] at hrun
      refine ⟨.error f, _, perform_bind_error hrun, hlaunches, Or.inr ⟨f, rfl, ?_, hafter⟩⟩
      exact Launch.isOfInstall_of_failure hf
  | none =>
      have hok : l.result = .ok () := by rw [Launch.result, hf]
      rw [hok] at hrun
      rw [fill, perform_bind_ok hrun, perform_bind_ok (perform_files _), hafter]
      cases hrename : l.after.rename (staging root n).toString target.toString with
      | ok fs =>
          exact ⟨.ok (), _, perform_setFiles _ _, hlaunches,
            Or.inl ⟨rfl, Launch.failure?_eq_none_iff.1 hf, rfl⟩⟩
      | error r =>
          obtain ⟨e, hperform, hfailure⟩ := refused_of_install (α := Unit) r
            (fun errno => .unmovable (staging root n) target
              (.onPaths errno (staging root n).toString target.toString))
            (m.afterLaunch (download version root n) records)
          exact ⟨.error e, _, hperform, hlaunches, Or.inr ⟨e, rfl, hfailure, hafter⟩⟩

/-! ### Installing is all or nothing -/

section

variable {runner : Runner} (hdry : runner.dryRun = false) (hroot : layout.root.Clean)
  (hversion : '/' ∉ version.toList)
include hdry hroot hversion

/-- Filling a staging directory that was made, and removing it, installs the distribution or leaves
nothing of it. -/
theorem outcome_of_fill (before : FileSystem) (hname : FileSystem.IsName (stagingName n))
    (hspares : (m.launched (download version layout.root n)).Spares layout.root)
    (hother : staging layout.root n ≠ layout.goDir version) :
    ∃ r m', (cleaningUp (fill version (staging layout.root n) (layout.goDir version) runner)
        (·.removeTree (staging layout.root n).toString)).perform m = (r, m') ∧
      m'.launches = m.launches ++ [m.launched (download version layout.root n)] ∧
      Outcome version layout before [m.launched (download version layout.root n)] m'.files
        (r.map fun _ => .installed) := by
  obtain ⟨r, m₁, hperform, hlaunches, hcases⟩ :=
    fill_cases hdry version layout.root (layout.goDir version) n m
  have hcommand : (m.launched (download version layout.root n)).command =
      download version layout.root n := rfl
  generalize m.launched (download version layout.root n) = l at hspares hlaunches hcases hcommand ⊢
  obtain ⟨here, hhere, hleads, hget⟩ := exists_leadsTo_staging hroot hname hspares hcommand
  refine ⟨r, { m₁ with files := m₁.files.removeTree (staging layout.root n).toString }, ?_,
    hlaunches, ?_⟩
  · rw [perform_cleaningUp, hperform]
  rcases hcases with ⟨rfl, hending, hrename⟩ | ⟨e, rfl, hfailure, hfiles⟩
  -- the directory was renamed, so that the removal finds nothing
  · have hne : stagingName n ≠ "go-" ++ version := by
      intro h
      refine hother ?_
      rw [staging_eq_child hroot, h, Layout.goDir]
    rw [staging_eq_child hroot] at hleads hrename
    obtain ⟨hstaged, hroom, hmoves⟩ := FileSystem.moves_rename hspares.closed hroot
      (isPart_stagingName n) (isPart_goName hversion) hne hleads hget hrename
    have hremoved := FileSystem.removeTree_of_moves hleads
      (FileSystem.not_prefix_of_ne here hne.symm) hstaged hroom hmoves
    rw [← staging_eq_child hroot] at hremoved
    dsimp only
    rw [hremoved]
    exact .installed hcommand hending hhere hstaged hroom hmoves
  -- the files are as the download has left them, and the removal clears them
  · dsimp only
    rw [hfiles]
    exact .undone hcommand hhere (FileSystem.loses_removeTree hspares.closed hleads hget) hfailure

/-- Fetching a distribution installs it or leaves nothing of it. -/
theorem outcome_of_fetch (hfs : m.files.WellFormed)
    (hspares : ∀ l, ((fetch version layout runner).perform m).2.launches = m.launches ++ [l] →
      l.Spares layout.root ∧ l.command.directory ≠ layout.goDir version) :
    ∃ r m' new, (fetch version layout runner).perform m = (r, m') ∧
      m'.launches = m.launches ++ new ∧
      Outcome version layout m.files new m'.files (r.map fun _ => .installed) := by
  have hsilent := (silent_makeStaging layout.root m).launches
  rcases hmake : (makeStaging layout.root).perform m with ⟨e | path, m₁⟩
  -- there is no staging directory, and nothing has been launched
  · rw [hmake] at hsilent
    obtain ⟨hfailure, hgrows⟩ := extends_makeStaging hfs hmake
    exact ⟨.error e, m₁, [], perform_bind_error hmake, hsilent, .prevented hgrows hfailure⟩
  · rw [hmake, List.append_nil] at hsilent
    obtain ⟨n, fs, rfl, hfs₁⟩ := staging_of_makeStaging hmake
    have hfetch : (fetch version layout runner).perform m =
        (cleaningUp (fill version (staging layout.root n) (layout.goDir version) runner)
          (·.removeTree (staging layout.root n).toString)).perform m₁ := perform_bind_ok hmake
    have hcontinues : ((fetch version layout runner).perform m).2.launches =
        m.launches ++ [m₁.launched (download version layout.root n)] := by
      obtain ⟨r, m₂, hperform, hlaunches, -⟩ :=
        fill_cases hdry version layout.root (layout.goDir version) n m₁
      rw [hfetch, perform_cleaningUp, hperform]
      exact hlaunches.trans (by rw [hsilent])
    -- the download is the one launch, and is known to spare the root
    obtain ⟨hl, hother⟩ := hspares _ hcontinues
    obtain ⟨r, m', hperform, hlaunches, houtcome⟩ := outcome_of_fill hdry hroot hversion m.files
      (isName_of_makeDirectory hroot hfs₁) hl hother
    exact ⟨r, m', _, hfetch.trans hperform, by rw [hlaunches, hsilent], houtcome⟩

/-- **Installing is all or nothing.**  It ends in one of the ways above, if the files that it finds
and those that the download leaves are file trees, the download spares the root, and the
distribution does not go into the place of the staging directory. -/
theorem install_is_all_or_nothing (hfs : m.files.WellFormed)
    (hspares : ∀ l, ((install version layout runner).perform m).2.launches = m.launches ++ [l] →
      l.Spares layout.root ∧ l.command.directory ≠ layout.goDir version) :
    ∃ new, ((install version layout runner).perform m).2.launches = m.launches ++ new ∧
      Outcome version layout m.files new ((install version layout runner).perform m).2.files
        ((install version layout runner).perform m).1 := by
  have hperform := perform_install hdry version layout m
  cases hstat : m.files.stat (layout.goDir version).toString with
  | ok e =>
      rw [hstat] at hperform
      cases e with
      | directory =>
          rw [hperform]
          exact ⟨[], (List.append_nil _).symm, .existing⟩
      | file content executable =>
          rw [hperform]
          exact ⟨[], (List.append_nil _).symm, .prevented (.refl _ _) rfl⟩
      | link text =>
          rw [hperform]
          exact ⟨[], (List.append_nil _).symm, .prevented (.refl _ _) rfl⟩
  | error r =>
      rw [hstat] at hperform
      cases r with
      | embeddedNull =>
          rw [hperform]
          exact ⟨[], (List.append_nil _).symm, .prevented (.refl _ _) rfl⟩
      | failed errno =>
          by_cases hmissing : errno = .noEntry
          · simp only [hmissing, if_true] at hperform
            rw [perform_bind_ok (perform_info _ m), perform_bind_pure] at hperform
            -- what is fetched is fetched on the same files, with one record more in the log
            generalize hm₁ : ({ m with log := m.log ++ [⟨.info, "Installing go " ++ version ++
              " to " ++ (layout.goDir version).toString⟩] } : Machine) = m₁ at hperform
            have hfiles : m₁.files = m.files := by rw [← hm₁]
            have hlaunches₁ : m₁.launches = m.launches := by rw [← hm₁]
            rw [hperform] at hspares ⊢
            rw [← hfiles] at hfs ⊢
            rw [← hlaunches₁] at hspares ⊢
            obtain ⟨r, m', new, hfetch, hlaunches, houtcome⟩ :=
              outcome_of_fetch hdry hroot hversion hfs hspares
            rw [hfetch]
            exact ⟨new, hlaunches, houtcome⟩
          · simp only [hmissing, if_false] at hperform
            rw [hperform]
            exact ⟨[], (List.append_nil _).symm, .prevented (.refl _ _) rfl⟩

end

namespace Sample

/-- The root of a workspace that is not there yet. -/
def workspace : Layout := ⟨Path.ofString "/home/go", "example.org"⟩

/-- A machine on which a download leaves one file in its staging directory. -/
def unpacking : Machine where
  files := ⟨⟨[(["home"], .directory)]⟩, []⟩
  behaviour := fun _ _ fs =>
    let file : Location := ["home", "go", "go-tmp-1", "VERSION"]
    (.exited 0, { fs with tree := fs.tree.put file (.file "go1.9".toUTF8 false) })

/-- Version 1.9 is installed on the machine. -/
def installing : Except Failure Status × Machine :=
  (install "1.9" workspace ⟨workspace.root, false⟩).perform unpacking

end Sample

/-- The file that the download has left is in the place of the distribution. -/
theorem install_is_all_or_nothing_sample :
    Sample.unpacking.files.WellFormed ∧
      (∀ l, Sample.installing.2.launches = Sample.unpacking.launches ++ [l] →
        l.Spares Sample.workspace.root ∧ l.command.directory ≠ Sample.workspace.goDir "1.9") ∧
      Sample.installing.1 = .ok .installed ∧
      (∃ new, Sample.installing.2.launches = Sample.unpacking.launches ++ new ∧
        Outcome "1.9" Sample.workspace Sample.unpacking.files new Sample.installing.2.files
          Sample.installing.1) ∧
      Sample.installing.2.files.tree.get? ["home", "go", "go-1.9", "VERSION"] =
        some (.file "go1.9".toUTF8 false) := by
  have hfs : Sample.unpacking.files.WellFormed := ⟨by decide, by decide⟩
  have hlaunches : ∀ l ∈ Sample.installing.2.launches,
      l.after.tree.Closed ∧
        (l.after.stat Sample.workspace.root.toString).toOption = some .directory ∧
        (l.after.lstat l.command.directory.toString).toOption = some .directory ∧
        l.command.directory ≠ Sample.workspace.goDir "1.9" := by
    decide +kernel
  have hspares : ∀ l, Sample.installing.2.launches = Sample.unpacking.launches ++ [l] →
      l.Spares Sample.workspace.root ∧ l.command.directory ≠ Sample.workspace.goDir "1.9" := by
    intro l hl
    obtain ⟨hclosed, hroot, hdirectory, hother⟩ := hlaunches l (by rw [hl]; simp)
    exact ⟨⟨hclosed, FileSystem.ok_of_toOption hroot, Or.inr (FileSystem.ok_of_toOption hdirectory)⟩, hother⟩
  have hinstalled : Sample.installing.1 = .ok .installed :=
    FileSystem.ok_of_toOption (by decide +kernel)
  refine ⟨hfs, hspares, hinstalled, ?_, by decide +kernel⟩
  unfold Sample.installing at hspares ⊢
  exact install_is_all_or_nothing rfl (Path.clean_ofString _) (by decide) hfs hspares

end Toolchain

end Provision
