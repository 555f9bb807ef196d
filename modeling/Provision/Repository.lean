/-
**Repositories.**

The source repository and the repositories that are published into lie side by side in one
directory.  The source is cloned if it is missing and otherwise left alone.  A fork that is missing
is cloned and gets the identity of the committer; a fork that is there is pointed at its address
again, and a lock left by a broken run is removed.

Main definitions:

* `Provision.Repository.ensureBase` — the directory of the repositories;
* `Provision.Repository.cloneSource` — the source repository;
* `Provision.Repository.cloneFork` — a repository that is published into.
-/

import Provision.Runner

set_option relaxedAutoImplicit false
set_option autoImplicit false

namespace Provision.Repository

/-- What became of a repository. -/
inductive Status where
  /-- It was cloned, or would be outside of a dry run. -/
  | cloned
  /-- It was there and was pointed at its address again. -/
  | refreshed
  /-- It was there and was left alone. -/
  | existing
  deriving DecidableEq, Repr, Inhabited

/-- The word for a status. -/
def Status.word : Status → String
  | cloned => "cloned"
  | refreshed => "refreshed"
  | existing => "existing"

/-- **Makes the directory of the repositories**, unless it is there. -/
def ensureBase (layout : Layout) (dryRun : Bool := false) : Step Path := do
  let path := layout.baseRepoPath
  if ← Step.found path then
    match (← Step.files).isDirectory path.toString with
    | .ok true =>
        Step.debug ("Reusing existing source repo directory at " ++ path.toString)
        return path
    | .ok false => throw (.workspace (.notDirectory path))
    | .error r => Step.refused r fun e => .system (.onPath e path.toString)
  else if dryRun then
    Step.info ("Dry run: would create source repo directory " ++ path.toString)
    return path
  else
    let (fs, refusal) := (← Step.files).ensureDirectories path
    Step.setFiles fs
    match refusal with
    | some (r, refused) =>
        Step.refused r fun e => .workspace (.uncreatable path (.onPath e refused.toString))
    | none => return path

/-- The script that restores the vendored dependencies of the source repository. -/
def restoreScript : String := "hack/godep-restore.sh"

/-- **Clones the source repository**, unless it is there.  After a fresh clone its vendored
dependencies are restored if `restore` is set. -/
def cloneSource (config : Config) (layout : Layout) (runner : Runner) (restore : Bool) :
    Step Status := do
  let repo := layout.repoDir config.sourceRepo
  if ← Step.found repo then
    Step.info ("Source repository " ++ Text.quoted config.sourceRepo ++
      " already cloned, skipping")
    return .existing
  else
    let url := Git.url config.githubHost config.sourceOrg config.sourceRepo
    Step.info ("Cloning source repository " ++ url ++ " ...")
    Git.clone runner url
    if restore then
      Step.info ("Running " ++ restoreScript ++ " ...")
      runner.run ["bash", "-x", restoreScript] (some repo)
    return .cloned

/-- **Clones a fork, or refreshes it if it is there.**  Name and address of the committer come from
`environment` and are set on a fresh clone only. -/
def cloneFork (config : Config) (layout : Layout) (runner : Runner) (name : String)
    (environment : Environment) : Step Status := do
  let url := Git.url config.githubHost config.targetOrg name
  let repo := layout.repoDir name
  if ← Step.found repo then
    Step.info ("Fork repository " ++ Text.quoted name ++ " already cloned to " ++
      repo.toString ++ ", resetting remote URL ...")
    Git.setRemoteUrl runner repo url
    if runner.dryRun then
      Step.info ("Dry run: would remove stale lock in " ++ repo.toString)
    else Git.removeIndexLock repo
    return .refreshed
  else
    Step.info ("Cloning fork repository " ++ url ++ " ...")
    Git.clone runner url
    Git.setConfig runner repo "user.name" (environment.value "GIT_COMMITTER_NAME")
    Git.setConfig runner repo "user.email" (environment.value "GIT_COMMITTER_EMAIL")
    return .cloned

end Provision.Repository
