/-
**Refreshing a fork.**

A fork that is there is pointed at its address again, and behind that a lock that a broken run may have
left is removed.  A command that fails therefore leaves the lock.  The path of the lock leads through
the directory `.git` of the repository, which may be missing, a link or a file, and what stands at its
end may be anything: a file or a link is removed, a link without what it leads to, and all else stays.

Main definitions:

* `Provision.Machine.Idle` — no command changes a file;
* `Provision.Git.Unlocked` — **a lock is removed, and nothing else**;
* `Provision.Git.lockRecords` — what the log says about it;
* `Provision.Repository.Refreshed` — what refreshing a fork comes to.

Main results:

* `Provision.FileSystem.cleared_cleared` — clearing a place twice is clearing it once;
* `Provision.Git.unlocked_iff` — a lock is removed by clearing its place;
* `Provision.Repository.perform_refresh` — refreshing a fork, in one equation;
* `Provision.Repository.refresh_removes_only_the_lock` — **what refreshing a fork changes**;
* `Provision.Repository.refresh_lets_null_out` — a command that does not start, and does not fail as a
  command.
-/

import Provision.Proofs.Clearing
import Provision.Proofs.Layouts
import Provision.Proofs.Refusals
import Provision.Proofs.Roots

set_option relaxedAutoImplicit false
set_option autoImplicit false

namespace Provision

/-! ### Clearing a place twice -/

namespace FileSystem

variable {fs : FileSystem} {text : String} {here here' : Location} {name name' : String}

/-- A text leads to one place. -/
theorem LeadsTo.unique (h : fs.LeadsTo text here name) (h' : fs.LeadsTo text here' name') :
    here' ++ [name'] = here ++ [name] := by
  have hplace := h'.place .isDirectory
  rw [h.place] at hplace
  exact (Except.ok.inj hplace).symm

/-- **Clearing a place twice is clearing it once.** -/
theorem cleared_cleared (fs : FileSystem) (text : String) :
    (fs.cleared text).cleared text = fs.cleared text := by
  rcases cleared_cases fs text with hsame | ⟨here, name, e, hleads, -, -, hcleared⟩
  · rw [hsame, hsame]
  rw [hcleared]
  rcases cleared_cases { fs with tree := fs.tree.erase (here ++ [name]) } text with
    hsame | ⟨here', name', e', hleads', hget', -, -⟩
  · exact hsame
  -- what is found without the entry was found with it, but it is gone
  · have hgains : (fs.tree.erase (here ++ [name])).Gains fs.tree := Tree.gains_of_erase _ (by simp)
    have hbefore : fs.LeadsTo text here' name' := hleads'.of_kept hgains.kept rfl id
    rw [hleads.unique hbefore, Tree.get?_erase _ (by simp), if_pos rfl] at hget'
    cases hget'

/-- What is found is something. -/
theorem exists_stat_of_found (h : fs.found text = .ok true) : ∃ e, fs.stat text = .ok e := by
  unfold found at h
  cases hstat : fs.stat text with
  | ok e => exact ⟨e, rfl⟩
  | error r => by_cases hr : r.saysNo <;> simp [hstat, hr] at h

end FileSystem

/-! ### The lock -/

namespace Git

/-- **A lock is removed, and nothing else**: what stands in its place is taken away if it is a file or a
link, and stays if it is a directory. -/
inductive Unlocked (repo : Path) (fs fs' : FileSystem) : Prop where
  | removed {place : Location} {e : Entry}
      (stands : fs.lstat (indexLock repo).toString = .ok e) (noDirectory : e ≠ .directory)
      (there : fs.resolve (indexLock repo).toString false = .ok place)
      (erased : fs' = { fs with tree := fs.tree.erase place })
  | kept (nothing : ∀ e, fs.lstat (indexLock repo).toString = .ok e → e = .directory)
      (same : fs' = fs)

variable {repo : Path} {fs fs' : FileSystem}

/-- **A lock is removed by clearing its place.** -/
theorem unlocked_iff (hrepo : repo.Clean) :
    Unlocked repo fs fs' ↔ fs' = fs.cleared (indexLock repo).toString := by
  have hpart : Path.IsPart "index.lock" := ⟨by decide, by decide, by decide⟩
  constructor
  · rintro (⟨hstands, he, hplace, rfl⟩ | ⟨hnothing, rfl⟩)
    · obtain ⟨here, -, hleads, hget⟩ :=
        FileSystem.leadsTo_of_lstat_ok (hrepo.child_text _) hpart (by decide) hstands
      obtain rfl : here ++ ["index.lock"] = _ :=
        Except.ok.inj ((hleads.resolve_of_some hget).symm.trans hplace)
      rw [FileSystem.cleared, indexLock, hleads.unlink hget he]
    · rcases FileSystem.cleared_cases fs' (indexLock repo).toString with
        hsame | ⟨here, name, e, hleads, hget, he, -⟩
      · exact hsame.symm
      · exact absurd (hnothing e (hleads.lstat_eq hget)) he
  · rintro rfl
    rcases FileSystem.cleared_cases fs (indexLock repo).toString with
      hsame | ⟨here, name, e, hleads, hget, he, hcleared⟩
    · refine .kept (fun e hstands => Classical.byContradiction fun he => ?_) hsame
      obtain ⟨here, -, hleads, hget⟩ :=
        FileSystem.leadsTo_of_lstat_ok (hrepo.child_text _) hpart (by decide) hstands
      -- the entry would have been removed
      have herased := congrArg (fun fs => fs.tree.get? (here ++ ["index.lock"])) hsame
      rw [FileSystem.cleared, indexLock, hleads.unlink hget he] at herased
      simp [Tree.get?_erase, hget] at herased
    · exact .removed (hleads.lstat_eq hget) he (hleads.resolve_of_some hget) hcleared

/-- **What the log says about a lock.** -/
def lockRecords (repo : Path) (fs : FileSystem) : List Log.Record :=
  match fs.unlink (indexLock repo).toString with
  | .ok _ => [⟨.info, "Removed stale lock " ++ (indexLock repo).toString⟩]
  | .error .embeddedNull => []
  | .error (.failed e) =>
      if e = .noEntry then []
      else [⟨.warning, "Failed to remove stale lock " ++ (indexLock repo).toString ++ ": " ++
        (SystemError.onPath e (indexLock repo).toString).message⟩]

/-- **It warns of a lock that cannot be removed**, but not of one that is not there. -/
theorem warns_iff : (∃ r ∈ lockRecords repo fs, r.level = .warning) ↔
    ∃ e, e ≠ .noEntry ∧ fs.unlink (indexLock repo).toString = .error (.failed e) := by
  unfold lockRecords
  cases hunlink : fs.unlink (indexLock repo).toString with
  | ok fs' => simp
  | error refusal =>
      cases refusal with
      | embeddedNull => simp
      | failed e => by_cases he : e = .noEntry <;> simp [he]

/-- Removing a lock, in one equation. -/
theorem perform_removeIndexLock_eq (hnull : '\x00' ∉ (indexLock repo).toString.toList) (m : Machine) :
    (removeIndexLock repo).perform m = (.ok (), { m with
      log := m.log ++ lockRecords repo m.files
      files := m.files.cleared (indexLock repo).toString }) := by
  rw [removeIndexLock, Step.perform_bind_ok (Step.perform_files m), FileSystem.cleared, lockRecords]
  cases hunlink : m.files.unlink (indexLock repo).toString with
  | ok fs => rfl
  | error refusal =>
      cases refusal with
      | embeddedNull => exact absurd (FileSystem.null_of_unlink hunlink) hnull
      | failed e =>
          by_cases he : e = .noEntry
          · simp [he]
          · simp only [he, if_false]
            rfl

/-- Without a NUL character in the path of a repository there is none in that of its lock. -/
theorem null_not_mem_indexLock (hnull : '\x00' ∉ repo.toString.toList) :
    '\x00' ∉ (indexLock repo).toString.toList := by
  rw [Path.null_mem_toString] at hnull ⊢
  intro h
  have hdot : (repo.child ".git").HoldsNull :=
    Path.holdsNull_of_child ⟨by decide, by decide, by decide⟩ (by decide) h
  exact hnull (Path.holdsNull_of_child ⟨by decide, by decide, by decide⟩ (by decide) hdot)

end Git

/-! ### Commands that change no file -/

/-- **No command changes a file.** -/
def Machine.Idle (m : Machine) : Prop := ∀ launches c fs, (m.behaviour launches c fs).2 = fs

namespace Step

variable {α β : Type}

/-- **A step leaves the files to its commands**: where these change none, neither does the step. -/
def LeavesFiles (s : Step α) : Prop :=
  ∀ m : Machine, m.Idle → (s.perform m).2.files = m.files ∧ (s.perform m).2.Idle

theorem Quiet.leavesFiles {s : Step α} (h : s.Quiet) : s.LeavesFiles := by
  intro m hidle
  obtain ⟨records, h⟩ := h m
  rw [h]
  exact ⟨rfl, hidle⟩

theorem LeavesFiles.bind {s : Step α} {f : α → Step β} (hs : s.LeavesFiles)
    (hf : ∀ a, (f a).LeavesFiles) : (s >>= f).LeavesFiles := by
  intro m hidle
  obtain ⟨hfiles, hidle'⟩ := hs m hidle
  rcases h : s.perform m with ⟨e | a, m'⟩
  · rw [h] at hfiles hidle'
    rw [perform_bind_error h]
    exact ⟨hfiles, hidle'⟩
  · rw [h] at hfiles hidle'
    obtain ⟨hfiles', hidle''⟩ := hf a m' hidle'
    rw [perform_bind_ok h]
    exact ⟨hfiles'.trans hfiles, hidle''⟩

theorem leavesFiles_run {runner : Runner} (hdry : runner.dryRun = false) (argv : List String)
    (directory : Option Path) : (runner.run argv directory).LeavesFiles := by
  intro m hidle
  rw [Runner.perform_run_eq hdry]
  exact ⟨hidle _ _ _, hidle⟩

end Step

/-! ### Refreshing -/

namespace Repository

open Step

/-- The command that points a fork at its address. -/
def repoint (config : Config) (layout : Layout) (name : String) : Command :=
  ⟨["git", "remote", "set-url", "origin", config.address config.targetOrg name],
    layout.repoDir name⟩

/-- What the log says before the lock is looked at. -/
def refreshRecords (config : Config) (layout : Layout) (name : String) : List Log.Record :=
  [⟨.info, "Fork repository " ++ Text.quoted name ++ " already cloned to " ++
      (layout.repoDir name).toString ++ ", resetting remote URL ..."⟩,
    ⟨.debug, "Running " ++ Text.quoted (Shell.join (repoint config layout name).argv) ++ " in " ++
      (layout.repoDir name).toString⟩]

variable {config : Config} {layout : Layout} {runner : Runner} {name : String} {m : Machine}

section

variable (hdry : runner.dryRun = false)
include hdry

/-- **Refreshing a fork, in one equation**: the command is launched, and if it goes well the lock is
removed. -/
theorem perform_refresh (hfound : m.files.found (layout.repoDir name).toString = .ok true)
    (env : Environment) :
    (cloneFork config layout runner name env).perform m =
      match (m.launched (repoint config layout name)).failure? with
      | some f =>
          (.error f, m.afterLaunch (repoint config layout name) (refreshRecords config layout name))
      | none => (.ok .refreshed, { m.afterLaunch (repoint config layout name) [] with
          log := m.log ++ refreshRecords config layout name ++
            Git.lockRecords (layout.repoDir name) (m.launched (repoint config layout name)).after
          files := (m.launched (repoint config layout name)).after.cleared
            (Git.indexLock (layout.repoDir name)).toString }) := by
  have hthere : (found (layout.repoDir name)).perform m = (.ok true, m) := by
    rw [perform_found, hfound]
  obtain ⟨e, hstat⟩ := FileSystem.exists_stat_of_found hfound
  have hnull := FileSystem.not_null_of_stat hstat
  let noted : Machine := { m with log := m.log ++ [⟨.info, "Fork repository " ++
    Text.quoted name ++ " already cloned to " ++ (layout.repoDir name).toString ++
    ", resetting remote URL ..."⟩] }
  have hrun : (Git.setRemoteUrl runner (layout.repoDir name)
      (Git.url config.githubHost config.targetOrg name)).perform noted =
        ((m.launched (repoint config layout name)).result,
          m.afterLaunch (repoint config layout name) (refreshRecords config layout name)) := by
    refine (Runner.perform_run_eq hdry (repoint config layout name).argv
      (some (layout.repoDir name)) noted).trans (Prod.ext rfl ?_)
    simp only [Machine.afterLaunch, noted, List.append_assoc]
    rfl
  rw [cloneFork, perform_bind_ok hthere, if_pos rfl, perform_bind_ok (perform_info _ m)]
  cases hfailure : (m.launched (repoint config layout name)).failure? with
  | some f =>
      rw [Launch.result_of_failure hfailure] at hrun
      rw [perform_bind_error hrun]
  | none =>
      rw [Launch.result, hfailure] at hrun
      rw [perform_bind_ok hrun, hdry]
      simp only [Bool.false_eq_true, if_false]
      rw [perform_bind_ok (Git.perform_removeIndexLock_eq (Git.null_not_mem_indexLock hnull) _)]
      rfl

/-- A fork that is not there is left to commands. -/
theorem files_of_not_found (hfound : m.files.found (layout.repoDir name).toString ≠ .ok true)
    (hidle : m.Idle) (env : Environment) :
    ((cloneFork config layout runner name env).perform m).2.files = m.files := by
  rw [cloneFork, perform_bind, perform_found]
  cases hthere : m.files.found (layout.repoDir name).toString with
  | error r =>
      dsimp only
      rw [perform_refused]
  | ok there =>
      cases there with
      | true => exact absurd hthere hfound
      | false =>
          dsimp only
          rw [if_neg (by decide)]
          generalize hs : (info _ >>= fun _ => Git.clone runner _ none >>= _) = s
          have hleaves : s.LeavesFiles := by
            rw [← hs]
            have hrun := fun argv directory => @leavesFiles_run runner hdry argv directory
            exact (quiet_info _).leavesFiles.bind fun _ => (hrun _ _).bind fun _ => (hrun _ _).bind
              fun _ => (hrun _ _).bind fun _ => (quiet_pure _).leavesFiles
          exact (hleaves m hidle).1

end

/-- **What refreshing a fork comes to**, by how its command ends: it fails with the command, or the fork
is refreshed, its lock is gone, and the log warns of a lock that cannot be removed. -/
inductive Refreshed (config : Config) (layout : Layout) (name : String) (m : Machine) :
    Except Failure Status → Machine → Prop where
  | exited {m' : Machine} {code : Int} (failed : code ≠ 0)
      (ending : (m.launched (repoint config layout name)).ending = .exited code)
      (files : m'.files = m.files) : Refreshed config layout name m
        (.error (.command ⟨(repoint config layout name).argv, .exitCode code⟩)) m'
  | notStarted {m' : Machine} {cause : StartFailure} {e : SystemError}
      (ending : (m.launched (repoint config layout name)).ending = .notStarted cause)
      (system : cause.systemError? = some e)
      (files : m'.files = m.files) : Refreshed config layout name m
        (.error (.command ⟨(repoint config layout name).argv, .notStarted e⟩)) m'
  | unlaunchable {m' : Machine} {cause : StartFailure}
      (ending : (m.launched (repoint config layout name)).ending = .notStarted cause)
      (system : cause.systemError? = none)
      (files : m'.files = m.files) : Refreshed config layout name m (.error .embeddedNull) m'
  | interrupted {m' : Machine}
      (ending : (m.launched (repoint config layout name)).ending = .interrupted)
      (files : m'.files = m.files) : Refreshed config layout name m (.error .interrupted) m'
  | refreshed {m' : Machine} {records : List Log.Record}
      (ending : (m.launched (repoint config layout name)).ending = .exited 0)
      (lock : Git.Unlocked (layout.repoDir name) m.files m'.files)
      (log : m'.log = m.log ++ records)
      (warns : (∃ r ∈ records, r.level = .warning) ↔ ∃ e, e ≠ .noEntry ∧
        m.files.unlink (Git.indexLock (layout.repoDir name)).toString = .error (.failed e)) :
      Refreshed config layout name m (.ok .refreshed) m'

/-- A fork that was not refreshed has kept its files. -/
theorem Refreshed.files_of_ne {r : Except Failure Status} {m' : Machine}
    (h : Refreshed config layout name m r m') (hr : r ≠ .ok .refreshed) : m'.files = m.files := by
  cases h with
  | exited _ _ files => exact files
  | notStarted _ _ files => exact files
  | unlaunchable _ _ files => exact files
  | interrupted _ files => exact files
  | refreshed => exact absurd rfl hr

/-- A fork that was refreshed has lost its lock. -/
theorem Refreshed.files_of_ok {m' : Machine} (hroot : layout.root.Clean)
    (h : Refreshed config layout name m (.ok .refreshed) m') :
    m'.files = m.files.cleared (Git.indexLock (layout.repoDir name)).toString := by
  cases h with
  | refreshed _ lock => exact (Git.unlocked_iff (Layout.clean_repoDir hroot name)).1 lock

theorem refreshed_of_found (hroot : layout.root.Clean) (hdry : runner.dryRun = false)
    (hidle : m.Idle) (hfound : m.files.found (layout.repoDir name).toString = .ok true)
    (env : Environment) : Refreshed config layout name m
      ((cloneFork config layout runner name env).perform m).1
      ((cloneFork config layout runner name env).perform m).2 := by
  have hafter : (m.launched (repoint config layout name)).after = m.files := hidle _ _ _
  rw [perform_refresh hdry hfound]
  cases hfailure : (m.launched (repoint config layout name)).failure? with
  | some f =>
      obtain ⟨code, hending, rfl⟩ | ⟨hending, rfl⟩ | ⟨cause, e, hending, hcause, rfl⟩ |
        ⟨cause, hending, hcause, rfl⟩ := Launch.failure?_cases hfailure
      · refine .exited ?_ hending hafter
        rintro rfl
        simp [Launch.failure?_eq_none_iff.2 hending] at hfailure
      · exact .interrupted hending hafter
      · exact .notStarted hending hcause hafter
      · exact .unlaunchable hending hcause hafter
  | none =>
      dsimp only
      rw [hafter]
      refine .refreshed (Launch.failure?_eq_none_iff.1 hfailure)
        ((Git.unlocked_iff (Layout.clean_repoDir hroot name)).2 rfl) (List.append_assoc _ _ _) ?_
      rw [← Git.warns_iff]
      simp [refreshRecords, or_and_right, exists_or]

/-- Refreshing a fork again changes nothing more. -/
theorem files_of_refreshed_again (hroot : layout.root.Clean) (hdry : runner.dryRun = false)
    {r : Except Failure Status} {m' m₂ : Machine} (h : Refreshed config layout name m r m')
    (hidle : m₂.Idle) (hfiles : m₂.files = m'.files) (env : Environment)
    (hr : r = .ok .refreshed ∨
      ((cloneFork config layout runner name env).perform m₂).1 ≠ .ok .refreshed) :
    ((cloneFork config layout runner name env).perform m₂).2.files = m'.files := by
  by_cases hfound : m₂.files.found (layout.repoDir name).toString = .ok true
  · have hagain : Refreshed config layout name m₂ _ _ :=
      refreshed_of_found hroot hdry hidle hfound env
    by_cases hrefreshed : ((cloneFork config layout runner name env).perform m₂).1 = .ok .refreshed
    -- both times the lock was removed
    · obtain rfl := hr.resolve_right fun hne => hne hrefreshed
      rw [hrefreshed] at hagain
      rw [hagain.files_of_ok hroot, hfiles, h.files_of_ok hroot, FileSystem.cleared_cleared]
    · rw [hagain.files_of_ne hrefreshed, hfiles]
  -- the fork was found by way of its lock
  · rw [files_of_not_found hdry hfound hidle, hfiles]

/-- **What refreshing a fork changes.**  It launches one command, which the environment has no part in.
If the command fails then no file changes; if it goes well then the lock is removed and nothing else.
Once it went well, doing it again changes nothing more, however the command ends this time; and as long
as the command fails nothing changes at all. -/
theorem refresh_removes_only_the_lock {config : Config} {layout : Layout} {runner : Runner}
    {name : String} {m : Machine} (hroot : layout.root.Clean) (hdry : runner.dryRun = false)
    (hidle : m.Idle) (hfound : m.files.found (layout.repoDir name).toString = .ok true) :
    ∃ r m', m'.launches = m.launches ++ [m.launched (repoint config layout name)] ∧
      Refreshed config layout name m r m' ∧
      (∀ values env, (cloneFork config layout runner name env).perform
        { m with environment := values } = (r, { m' with environment := values })) ∧
      ∀ m₂ env, m₂.Idle → m₂.files = m'.files →
        (r = .ok .refreshed ∨
          ((cloneFork config layout runner name env).perform m₂).1 ≠ .ok .refreshed) →
        ((cloneFork config layout runner name env).perform m₂).2.files = m'.files := by
  have hrefreshed : Refreshed config layout name m _ _ :=
    refreshed_of_found hroot hdry hidle hfound []
  refine ⟨_, _, ?_, hrefreshed, fun values env => ?_, fun m₂ env hidle₂ hfiles h => ?_⟩
  · rw [perform_refresh hdry hfound]
    cases (m.launched (repoint config layout name)).failure? <;> rfl
  · rw [perform_refresh (m := { m with environment := values }) hdry hfound,
      perform_refresh hdry hfound]
    have hsame : Machine.launched { m with environment := values } (repoint config layout name) =
      m.launched (repoint config layout name) := rfl
    rw [hsame]
    cases (m.launched (repoint config layout name)).failure? <;> rfl
  · exact files_of_refreshed_again hroot hdry hrefreshed hidle₂ hfiles env h

namespace Sample

/-- A machine with a fork whose lock is a link that leads nowhere. -/
def locked : Machine where
  files := ⟨⟨[(["go", "src", "example.org", "api", ".git", "index.lock"], .link "/nowhere"),
    (["go", "src", "example.org", "api", ".git"], .directory),
    (["go", "src", "example.org", "api"], .directory), (["go", "src", "example.org"], .directory),
    (["go", "src"], .directory), (["go"], .directory)]⟩, []⟩

/-- The organisation that it is published into. -/
def organisation : Config := { targetOrg := "publishing", githubHost := "github.com" }

/-- The root of its workspace. -/
def workspace : Layout := ⟨Path.ofString "/go", "example.org"⟩

/-- The fork is refreshed. -/
def refreshing (env : Environment) : Step Status :=
  cloneFork organisation workspace ⟨workspace.root, false⟩ "api" env

/-- The place of its lock. -/
def lock : Location := ["go", "src", "example.org", "api", ".git", "index.lock"]

end Sample

/-- The lock of the fork is removed, though it leads nowhere. -/
theorem refresh_removes_only_the_lock_sample :
    Sample.workspace.root.Clean ∧ Sample.locked.Idle ∧
      Sample.locked.files.found (Sample.workspace.repoDir "api").toString = .ok true ∧
      ∃ m', (∀ values env, (Sample.refreshing env).perform
          { Sample.locked with environment := values } =
            (.ok .refreshed, { m' with environment := values })) ∧
        m'.launches.map (·.command.argv) =
          [["git", "remote", "set-url", "origin", "https://github.com/publishing/api"]] ∧
        m'.files.tree.get? Sample.lock = none ∧
        ((Sample.refreshing []).perform m').2.files = m'.files := by
  have hclean : Sample.workspace.root.Clean := Path.clean_ofString _
  have hidle : Sample.locked.Idle := fun _ _ _ => rfl
  have hfound : Sample.locked.files.found (Sample.workspace.repoDir "api").toString = .ok true :=
    FileSystem.ok_of_toOption (by decide +kernel)
  obtain ⟨r, m', hlaunches, hrefreshed, hany, hagain⟩ :=
    @refresh_removes_only_the_lock Sample.organisation Sample.workspace
      ⟨Sample.workspace.root, false⟩ "api" Sample.locked hclean rfl hidle hfound
  have hperform : (Sample.refreshing []).perform Sample.locked =
      (r, { m' with environment := [] }) := hany [] []
  have hr : r = .ok .refreshed := by
    have hok : ((Sample.refreshing []).perform Sample.locked).1.toOption = some .refreshed := by
      decide +kernel
    rw [hperform] at hok
    exact FileSystem.ok_of_toOption hok
  have hidle' : m'.Idle := by
    have hkept : ((Sample.refreshing []).perform Sample.locked).2.Idle := fun _ _ _ => rfl
    rw [hperform] at hkept
    exact hkept
  have hgone : ((Sample.refreshing []).perform Sample.locked).2.files.tree.get? Sample.lock = none := by
    decide +kernel
  rw [hperform] at hgone
  subst hr
  refine ⟨hclean, hidle, hfound, m', hany, ?_, hgone, hagain m' [] hidle' rfl (.inl rfl)⟩
  rw [hlaunches]
  decide +kernel

namespace Sample

/-- The machine, but words that hold a NUL character cannot be handed to the system. -/
def refusing : Machine := { locked with
  behaviour := fun _ c fs =>
    if c.argv.any (fun w => '\x00' ∈ w.toList) then (.notStarted .embeddedNull, fs)
    else (.exited 0, fs) }

/-- An organisation whose name holds one. -/
def torn : Config := { organisation with targetOrg := "pub\x00lishing" }

end Sample

/-- **A command that does not start need not fail as a command**: the address of this fork holds a NUL
character, and what refreshing it ends with is another failure. -/
theorem refresh_lets_null_out :
    Sample.refusing.Idle ∧
      Sample.refusing.files.found (Sample.workspace.repoDir "api").toString = .ok true ∧
      (Sample.refusing.launched (repoint Sample.torn Sample.workspace "api")).ending =
        .notStarted .embeddedNull ∧
      ∀ env, ((cloneFork Sample.torn Sample.workspace ⟨Sample.workspace.root, false⟩ "api" env).perform
        Sample.refusing).1 = .error .embeddedNull := by
  have hfound : Sample.refusing.files.found (Sample.workspace.repoDir "api").toString = .ok true :=
    FileSystem.ok_of_toOption (by decide +kernel)
  have hending : (Sample.refusing.launched (repoint Sample.torn Sample.workspace "api")).ending =
      .notStarted .embeddedNull := by decide +kernel
  refine ⟨fun _ c fs => ?_, hfound, hending, fun env => ?_⟩
  · simp only [Sample.refusing]
    split <;> rfl
  · have hfailure : (Sample.refusing.launched (repoint Sample.torn Sample.workspace "api")).failure? =
        some .embeddedNull := by
      rw [Launch.failure?, hending]
      rfl
    rw [perform_refresh rfl hfound, hfailure]

end Repository

end Provision
