/-
**The course of an installation.**

Installing a distribution looks for it, makes the directories on the way to the root and a staging
directory in the root, launches the download there, renames the staging directory, and removes what
is left of it.  What a download does is left open here: the files before it and those after the
installation are said in terms of the files that it starts on and those that it leaves.

Main definitions:

* `Provision.Toolchain.Staged` — what making a staging directory has changed;
* `Provision.Toolchain.Course` — **the ways in which an installation goes**.

Main results:

* `Provision.Toolchain.staged_of_makeStaging` — a staging directory has been made;
* `Provision.Toolchain.course_of_install` — **an installation goes in one of these ways**.
-/

import Provision.Proofs.Installation

set_option relaxedAutoImplicit false
set_option autoImplicit false

namespace Provision

open Step

namespace FileSystem

variable {fs fs' : FileSystem} {text : String} {here : Location} {name : String}

/-! ### A name below a path -/

/-- A name that is added to the text of a path leads where the path of the name leads. -/
theorem leadsTo_child_of_textBelow {p : Path} {w : String} (hp : p.Clean) (hw : Path.IsPart w)
    (h : fs.LeadsTo (Path.textBelow p.toString w) here name) :
    fs.LeadsTo (p.child w).toString here w := by
  obtain ⟨hreach, rfl⟩ := reach_of_leadsTo_textBelow hp hw h
  obtain ⟨start, names, henter, -⟩ := h.enter
  have htext : ∃ before after,
      Path.textBelow p.toString name = before ++ (p.child name).toString ++ after := by
    rw [Path.textBelow_toString hp, Path.toString_child p hw]
    unfold Path.written
    split
    · next hdot =>
      refine ⟨"./", "", ?_⟩
      simp [hdot, Path.Anchor.text]
    · exact ⟨"", "", by simp⟩
  obtain ⟨⟨start', names'⟩, hchild⟩ :=
    exists_enter_of_part (Path.toString_ne_empty (hp.child hw)) htext henter
  have hentered := hchild
  rw [Path.toString_child p hw] at hentered
  obtain ⟨rfl, rfl⟩ := enter_text (by simp) (hp.parts.concat hw) hentered
  exact ⟨⟨_, p.parts, hchild, hreach⟩, h.name⟩

end FileSystem

namespace Toolchain

variable {version : String} {layout : Layout} {root : Path} {n : Nat} {m m' : Machine}

/-- **A staging directory has been made**: the directories on the way to the root, and then, in the
directory `here`, the staging directory with the number `n`; `ext` are the files in between. -/
structure Staged (layout : Layout) (fs ext : FileSystem) (here : Location) (n : Nat)
    (fs' : FileSystem) : Prop where
  /-- There may be more directories on the way to the root. -/
  grows : fs.Extends layout.root ext
  wellFormed : ext.WellFormed
  /-- The root leads to the directory. -/
  root : ext.reach layout.root = .ok here
  /-- The staging directory is new. -/
  fresh : ext.tree.get? (here ++ [stagingName n]) = none
  tree : ∀ q, fs'.tree.get? q =
    if q = here ++ [stagingName n] then some .directory else ext.tree.get? q
  workingDirectory : fs'.workingDirectory = ext.workingDirectory
  /-- The path of the staging directory leads to it. -/
  leadsTo : fs'.LeadsTo (staging layout.root n).toString here (stagingName n)

/-- **The ways in which an installation goes**: from the files before it, what it launches, the files
behind it, and its answer or failure. -/
inductive Course (version : String) (layout : Layout) (fs : FileSystem) :
    List Launch → FileSystem → Except Failure Status → Prop where
  /-- The distribution is there. -/
  | existing (found : fs.stat (layout.goDir version).toString = .ok .directory) :
      Course version layout fs [] fs (.ok .existing)
  /-- Nothing was launched, and there may be more directories on the way to the root. -/
  | prevented {ext : FileSystem} {e : Failure} (grows : fs.Extends layout.root ext)
      (wellFormed : ext.WellFormed) (files : ext = fs ∨ ext = fs.grownTo layout.root) :
      Course version layout fs [] ext (.error e)
  /-- The staging directory was renamed. -/
  | installed {moved : FileSystem} {here : Location} {n : Nat} {l : Launch}
      (missing : fs.stat (layout.goDir version).toString = .error (.failed .noEntry))
      (command : l.command = download version layout.root n)
      (staged : Staged layout fs (fs.grownTo layout.root) here n l.before)
      (ending : l.ending = .exited 0)
      (rename : l.after.rename (staging layout.root n).toString (layout.goDir version).toString =
        .ok moved) :
      Course version layout fs [l] (moved.removeTree (staging layout.root n).toString)
        (.ok .installed)
  /-- The download has failed, or the staging directory cannot be renamed. -/
  | undone {here : Location} {n : Nat} {l : Launch} {e : Failure}
      (command : l.command = download version layout.root n)
      (staged : Staged layout fs (fs.grownTo layout.root) here n l.before) :
      Course version layout fs [l] (l.after.removeTree (staging layout.root n).toString) (.error e)

/-! ### The staging directory -/

/-- A staging directory is made on the files as they are. -/
theorem files_of_makeStagingWithin {tries : Nat} {path : Path}
    (h : (makeStagingWithin root tries).perform m = (.ok path, m')) :
    ∃ n, path = staging root n ∧
      m.files.makeDirectory (Path.textBelow root.toString (stagingName n)) = .ok m'.files := by
  induction tries generalizing m with
  | zero => simp [makeStagingWithin] at h
  | succ tries ih =>
      rw [makeStagingWithin, perform_bind_ok (perform_modify _ m),
        perform_bind_ok (perform_get _)] at h
      dsimp only at h
      split at h
      · next fs hfs =>
        rw [perform_bind_ok (perform_setFiles _ _), perform_pure] at h
        obtain ⟨rfl, rfl⟩ : Path.ofString _ = path ∧ _ = m' := by simpa using h
        exact ⟨_, rfl, hfs⟩
      · split at h
        · obtain ⟨n, hpath, hfiles⟩ := ih h
          exact ⟨n, hpath, hfiles⟩
        · simp at h
      · simp at h

/-- Failing to make a staging directory leaves at most the directories on the way to the root. -/
theorem files_of_failed_makeStaging {e : Failure}
    (h : (makeStaging root).perform m = (.error e, m')) : m'.files = m.files.grownTo root := by
  rw [makeStaging, perform_bind_ok (perform_files m)] at h
  dsimp only at h
  rw [perform_bind_ok (perform_setFiles _ _)] at h
  split at h
  · rw [perform_refused] at h
    rw [← congrArg (fun x => x.2.files) h]
    rfl
  · exact (error_of_makeStagingWithin h).2

/-- Making a staging directory makes one. -/
theorem staged_of_makeStaging (hroot : layout.root.Clean) (hfs : m.files.WellFormed) {path : Path}
    (h : (makeStaging layout.root).perform m = (.ok path, m')) :
    ∃ n here, path = staging layout.root n ∧
      Staged layout m.files (m.files.grownTo layout.root) here n m'.files := by
  obtain ⟨hgrows, hext⟩ := FileSystem.extends_ensureDirectories hfs layout.root
  rw [makeStaging, perform_bind_ok (perform_files m)] at h
  dsimp only at h
  rw [perform_bind_ok (perform_setFiles _ _)] at h
  split at h
  · simp at h
  · obtain ⟨n, rfl, hmake⟩ := files_of_makeStagingWithin h
    obtain ⟨here, name, hleads₀, hleads, hnone, hget, hdirectory, -⟩ := hext.makeDirectory hmake
    obtain ⟨hreach, rfl⟩ :=
      FileSystem.reach_of_leadsTo_textBelow hroot (isPart_stagingName n) hleads₀
    have hleads' := FileSystem.leadsTo_child_of_textBelow hroot (isPart_stagingName n) hleads
    rw [← staging_eq_child hroot] at hleads'
    exact ⟨n, here, rfl, hgrows, hext, hreach, hnone, hget, hdirectory, hleads'⟩

/-! ### The course of an installation -/

section

variable {runner : Runner} (hdry : runner.dryRun = false) (hroot : layout.root.Clean)
include hdry hroot

theorem course_of_fetch (version : String) (hfs : m.files.WellFormed)
    (hmissing : m.files.stat (layout.goDir version).toString = .error (.failed .noEntry)) :
    ∃ new, ((fetch version layout runner).perform m).2.launches = m.launches ++ new ∧
      Course version layout m.files new ((fetch version layout runner).perform m).2.files
        (((fetch version layout runner).perform m).1.map fun _ => .installed) := by
  have hsilent := (silent_makeStaging layout.root m).launches
  rcases hmake : (makeStaging layout.root).perform m with ⟨e | path, m₁⟩
  -- there is no staging directory, and nothing has been launched
  · rw [hmake] at hsilent
    rw [fetch, perform_bind_error hmake]
    obtain ⟨hgrows, hext⟩ := FileSystem.extends_ensureDirectories hfs layout.root
    rw [files_of_failed_makeStaging hmake]
    exact ⟨[], hsilent, .prevented hgrows hext (Or.inr rfl)⟩
  · rw [hmake, List.append_nil] at hsilent
    obtain ⟨n, here, rfl, hstaged⟩ := staged_of_makeStaging hroot hfs hmake
    obtain ⟨r, m₂, hfill, hlaunches, hcases⟩ :=
      fill_cases hdry version layout.root (layout.goDir version) n m₁
    have hfetch : (fetch version layout runner).perform m =
        (r, { m₂ with files := m₂.files.removeTree (staging layout.root n).toString }) := by
      rw [fetch, perform_bind_ok hmake, perform_cleaningUp, hfill]
    rw [hfetch]
    refine ⟨[m₁.launched (download version layout.root n)], by rw [← hsilent]; exact hlaunches, ?_⟩
    rcases hcases with ⟨rfl, hending, hrename⟩ | ⟨e, rfl, -, hfiles⟩
    · exact .installed hmissing rfl hstaged hending hrename
    · dsimp only
      rw [hfiles]
      exact .undone rfl hstaged

/-- **An installation goes in one of these ways.** -/
theorem course_of_install (version : String) (hfs : m.files.WellFormed) :
    ∃ new, ((install version layout runner).perform m).2.launches = m.launches ++ new ∧
      Course version layout m.files new ((install version layout runner).perform m).2.files
        ((install version layout runner).perform m).1 := by
  have hperform := perform_install hdry version layout m
  have hprevented : ∀ e : Failure, ∃ new, m.launches = m.launches ++ new ∧
      Course version layout m.files new m.files (.error e) :=
    fun e => ⟨[], (List.append_nil _).symm, .prevented (.refl _ _) hfs (Or.inl rfl)⟩
  cases hstat : m.files.stat (layout.goDir version).toString with
  | ok e =>
      rw [hstat] at hperform
      rw [hperform]
      cases e with
      | directory => exact ⟨[], (List.append_nil _).symm, .existing hstat⟩
      | file content executable => exact hprevented _
      | link text => exact hprevented _
  | error r =>
      rw [hstat] at hperform
      rw [hperform]
      cases r with
      | embeddedNull => exact hprevented _
      | failed errno =>
          by_cases hmissing : errno = .noEntry
          · subst hmissing
            simp only [if_true]
            rw [perform_bind_ok (perform_info _ m), perform_bind_pure]
            -- what is fetched is fetched on the same files, with one record more in the log
            exact course_of_fetch hdry hroot version (m := { m with log := _ }) hfs hstat
          · simp only [hmissing, if_false]
            exact hprevented _

end

end Toolchain

end Provision
