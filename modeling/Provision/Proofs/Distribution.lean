/-
**Installing a distribution, step by step.**

What is in the place of a distribution decides what installing it comes to: nothing is done, or it
fails at once, or the distribution is fetched.  To fetch it a staging directory is made, with the
root above it if need be, the download is launched in it, and what it has unpacked is moved.

Main definitions:

* `Provision.Toolchain.staging`, `Provision.Toolchain.download` — the staging directories, and the
  command that is launched in one;
* `Provision.Machine.misses` — there is nothing at a path.

Main results:

* `Provision.Toolchain.perform_install_of_stat`, `Provision.Toolchain.perform_install` — what installing
  comes to;
* `Provision.Toolchain.staging_of_makeStaging` — a staging directory has just been made;
* `Provision.Toolchain.follows_install` — **installing follows the download of what is missing**.
-/

import Provision.Proofs.Launches
import Provision.Toolchain

set_option relaxedAutoImplicit false
set_option autoImplicit false

namespace Provision

open Step

/-- Whether looking at a path says that there is nothing. -/
def Machine.misses (m : Machine) (path : Path) : Bool :=
  match m.files.stat path.toString with
  | .error (.failed e) => e = .noEntry
  | _ => false

namespace Toolchain

/-! ### The staging directory -/

/-- The staging directory with a number. -/
def staging (root : Path) (n : Nat) : Path :=
  Path.ofString (Path.textBelow root.toString ("go-tmp-" ++ toString n))

/-- The command that downloads a version into the staging directory with a number. -/
def download (version : String) (root : Path) (n : Nat) : Command :=
  ⟨["/bin/bash", "-c", downloadScript version (staging root n)], staging root n⟩

theorem isDownload_download (version : String) (root : Path) (n : Nat) :
    (download version root n).isDownload = true := rfl

theorem silent_makeStagingWithin (root : Path) (tries : Nat) :
    (makeStagingWithin root tries).Silent := by
  induction tries with
  | zero => exact (quiet_throw _).silent
  | succ tries ih =>
      have hcount : (modify fun m => { m with stagingTried := m.stagingTried + 1 } :
          Step Unit).Silent := fun _ => ⟨by simp, rfl, rfl, rfl, by simp⟩
      refine hcount.bind fun _ => quiet_get.silent.bind fun m => ?_
      dsimp only
      split
      · exact (silent_setFiles _).bind fun _ => (quiet_pure _).silent
      · split
        · exact ih
        · exact (quiet_throw _).silent
      · exact (quiet_throw _).silent

theorem silent_makeStaging (root : Path) : (makeStaging root).Silent := by
  refine quiet_files.silent.bind fun fs => ?_
  dsimp only
  refine (silent_setFiles _).bind fun _ => ?_
  split
  · exact (quiet_refused _ _).silent
  · exact silent_makeStagingWithin _ _

/-- A staging directory has just been made, and bears a number. -/
theorem staging_of_makeStagingWithin {root : Path} {tries : Nat} {m m' : Machine} {path : Path}
    (h : (makeStagingWithin root tries).perform m = (.ok path, m')) :
    ∃ (n : Nat) (fs : FileSystem), path = staging root n ∧
      fs.makeDirectory (Path.textBelow root.toString ("go-tmp-" ++ toString n)) = .ok m'.files := by
  induction tries generalizing m with
  | zero => simp [makeStagingWithin] at h
  | succ tries ih =>
      rw [makeStagingWithin, perform_bind_ok (perform_modify _ m),
        perform_bind_ok (perform_get _)] at h
      dsimp only at h
      split at h
      · next fs hfs =>
        rw [perform_bind_ok (perform_setFiles _ _), perform_pure] at h
        obtain ⟨rfl, rfl⟩ : Path.ofString _ = path ∧ _ = m' := by simpa using h
        exact ⟨_, _, rfl, hfs⟩
      · split at h
        · exact ih h
        · simp at h
      · simp at h

theorem staging_of_makeStaging {root : Path} {m m' : Machine} {path : Path}
    (h : (makeStaging root).perform m = (.ok path, m')) :
    ∃ (n : Nat) (fs : FileSystem), path = staging root n ∧
      fs.makeDirectory (Path.textBelow root.toString ("go-tmp-" ++ toString n)) = .ok m'.files := by
  rw [makeStaging, perform_bind_ok (perform_files m)] at h
  dsimp only at h
  rw [perform_bind_ok (perform_setFiles _ _)] at h
  split at h
  · simp at h
  · exact staging_of_makeStagingWithin h

/-! ### One distribution -/

section

variable {runner : Runner} (hdry : runner.dryRun = false)
include hdry

omit hdry in
theorem silent_cleanUp (staging : Path) (m : Machine) :
    m.Continues [] { m with files := m.files.removeTree staging.toString } :=
  silent_setFiles _ m

/-- Filling a staging directory that was just made, and removing it, follows the download. -/
theorem follows_fill {version : String} {root target : Path} {n : Nat} {fs : FileSystem}
    {m : Machine}
    (hfs : fs.makeDirectory (Path.textBelow root.toString ("go-tmp-" ++ toString n)) =
      .ok m.files) :
    (cleaningUp (fill version (staging root n) target runner)
      (·.removeTree (staging root n).toString)).Follows m [download version root n] := by
  obtain ⟨records, hrun⟩ : ∃ records,
      (runner.run ["/bin/bash", "-c", downloadScript version (staging root n)]
        (some (staging root n))).perform m =
      ((m.launched (download version root n)).result,
        m.afterLaunch (download version root n) records) :=
    Runner.perform_run hdry _ _ m
  have hcontinues : m.Continues [m.launched (download version root n)]
      ((fill version (staging root n) target runner).perform m).2 := by
    refine Silent.continues_bind (fun _ => quiet_files.silent.bind fun fs' => ?_) ?_
    · split
      · exact silent_setFiles _
      · exact (quiet_refused _ _).silent
    · rw [hrun]
      exact m.continues_afterLaunch _ _
  have hstaged : ∀ l ∈ [m.launched (download version root n)],
      l.command.isDownload = true → l.Staged := by
    intro l hl _
    rw [List.mem_singleton.1 hl]
    exact ⟨fs, _, rfl, hfs⟩
  refine ⟨[m.launched (download version root n)], ?_⟩
  rw [perform_cleaningUp]
  refine ⟨hcontinues.trans (silent_cleanUp _ _), by simp, by simp, ?_, hstaged⟩
  intro earlier l later f hnew hf
  obtain ⟨rfl, rfl, rfl⟩ :
      earlier = [] ∧ l = m.launched (download version root n) ∧ later = [] := by
    simpa using List.singleton_eq_append_iff.1 hnew
  -- the download has failed, and all that is left to do is to remove the staging directory
  have hfill : (fill version (staging root n) target runner).perform m =
      (.error f, m.afterLaunch (download version root n) records) := by
    rw [Launch.result_of_failure hf] at hrun
    exact perform_bind_error hrun
  rw [hfill]
  exact ⟨rfl, rfl, rfl⟩

/-- Fetching a version follows its download. -/
theorem follows_fetch (version : String) (layout : Layout) (m : Machine) :
    ∃ n, (fetch version layout runner).Follows m [download version layout.root n] := by
  rcases h : (makeStaging layout.root).perform m with ⟨e | path, m₁⟩
  -- there is no staging directory, so which one is named does not matter
  · refine ⟨0, (silent_makeStaging layout.root).follows_bind fun path m₂ h₂ => ?_⟩
    rw [h] at h₂
    simp at h₂
  · obtain ⟨n, fs, rfl, hfs⟩ := staging_of_makeStaging h
    refine ⟨n, (silent_makeStaging layout.root).follows_bind fun path m₂ h₂ => ?_⟩
    obtain ⟨rfl, rfl⟩ : staging layout.root n = path ∧ m₁ = m₂ := by simpa [h] using h₂
    exact follows_fill hdry hfs

omit hdry in
/-- **What is in its place decides what installing a version comes to**, in a dry run and outside
of one. -/
theorem perform_install_of_stat (version : String) (layout : Layout) (m : Machine) :
    (install version layout runner).perform m =
      (match m.files.stat (layout.goDir version).toString with
      | .ok .directory => do
          info ("Found existing go " ++ version ++ " at " ++ (layout.goDir version).toString)
          return .existing
      | .ok _ => throw (.toolchain (.notDirectory (layout.goDir version)))
      | .error .embeddedNull => throw .embeddedNull
      | .error (.failed e) =>
          if e = .noEntry then do
            info ("Installing go " ++ version ++ " to " ++ (layout.goDir version).toString)
            if runner.dryRun then do
              info ("Dry run: would download " ++ archiveUrl version)
              return .installed
            else do
              fetch version layout runner
              return .installed
          else throw (.toolchain (.uninspectable (layout.goDir version)
            (.onPath e (layout.goDir version).toString))) : Step Status).perform m := by
  rw [install]
  dsimp only
  rw [perform_bind_ok (perform_files m)]
  cases hstat : m.files.stat (layout.goDir version).toString with
  | ok e => cases e <;> rfl
  | error r =>
      cases r with
      | embeddedNull => rfl
      | failed e =>
          by_cases he : e = .noEntry
          · cases hdry : runner.dryRun with
            | true =>
                simp only [he]
                rfl
            | false =>
                simp only [he]
                rfl
          · dsimp only
            rw [if_pos (show e ≠ .noEntry from he), if_neg he]
            rfl

/-- What installing a version comes to outside of a dry run. -/
theorem perform_install (version : String) (layout : Layout) (m : Machine) :
    (install version layout runner).perform m =
      (match m.files.stat (layout.goDir version).toString with
      | .ok .directory => do
          info ("Found existing go " ++ version ++ " at " ++ (layout.goDir version).toString)
          return .existing
      | .ok _ => throw (.toolchain (.notDirectory (layout.goDir version)))
      | .error .embeddedNull => throw .embeddedNull
      | .error (.failed e) =>
          if e = .noEntry then do
            info ("Installing go " ++ version ++ " to " ++ (layout.goDir version).toString)
            fetch version layout runner
            return .installed
          else throw (.toolchain (.uninspectable (layout.goDir version)
            (.onPath e (layout.goDir version).toString))) : Step Status).perform m := by
  rw [perform_install_of_stat, hdry]
  rfl

/-- **Installing a version follows its download if it is missing, and no command otherwise.** -/
theorem follows_install (version : String) (layout : Layout) (m : Machine) :
    ∃ wanted,
      (if m.misses (layout.goDir version) then ∃ n, wanted = [download version layout.root n]
        else wanted = []) ∧
      (install version layout runner).Follows m wanted := by
  have hperform := perform_install hdry version layout m
  unfold Machine.misses
  cases hstat : m.files.stat (layout.goDir version).toString with
  | ok e =>
      rw [hstat] at hperform
      refine ⟨[], rfl, Follows.of_perform_eq ?_ hperform⟩
      cases e with
      | directory => exact ((quiet_info _).silent.bind fun _ => (quiet_pure _).silent).follows m
      | file content executable => exact (quiet_throw _).silent.follows m
      | link text => exact (quiet_throw _).silent.follows m
  | error r =>
      rw [hstat] at hperform
      cases r with
      | embeddedNull =>
          exact ⟨[], rfl, Follows.of_perform_eq ((quiet_throw _).silent.follows m) hperform⟩
      | failed e =>
          by_cases he : e = .noEntry
          · subst he
            obtain ⟨n, hn⟩ := follows_fetch hdry version layout
              { m with log := m.log ++ [⟨.info, "Installing go " ++ version ++ " to " ++
                (layout.goDir version).toString⟩] }
            refine ⟨[download version layout.root n], ⟨n, rfl⟩, Follows.of_perform_eq ?_ hperform⟩
            refine (quiet_info _).silent.follows_bind fun _ m₁ h₁ => ?_
            obtain rfl : _ = m₁ := by simpa using h₁
            exact hn.bind_silent fun _ => (quiet_pure _).silent
          · simp only [he, if_false] at hperform
            refine ⟨[], by simp [he], Follows.of_perform_eq ?_ hperform⟩
            exact (quiet_throw _).silent.follows m

end

end Toolchain

end Provision
