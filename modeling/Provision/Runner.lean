/-
**Running commands.**

All commands of the bootstrap go through one runner.  In a dry run it only says what it would do.
Otherwise it launches the command, in a directory of its own unless another one is given, and takes
a command that does not start, or exits with another code than zero, as a failure.

Main definitions:

* `Provision.Runner` — the usual directory, and whether the run is dry;
* `Provision.Runner.run` — runs a command;
* `Provision.Git.clone`, `Provision.Git.setRemoteUrl`, `Provision.Git.setConfig`,
  `Provision.Git.checkout`, `Provision.Git.removeIndexLock` — what is done with repositories.
-/

import Provision.Machine

set_option relaxedAutoImplicit false
set_option autoImplicit false

namespace Provision

/-- How commands are run. -/
structure Runner where
  /-- The directory for commands that come without one. -/
  directory : Path
  /-- Whether commands are only described. -/
  dryRun : Bool := false
  deriving DecidableEq, Repr, Inhabited

namespace Runner

/-- **Runs a command**, or describes it in a dry run. -/
def run (runner : Runner) (argv : List String) (directory : Option Path := none) : Step Unit := do
  let directory := directory.getD runner.directory
  let line := Text.quoted (Shell.join argv)
  if runner.dryRun then
    Step.info ("Dry run: would run " ++ line ++ " in " ++ directory.toString)
  else
    Step.debug ("Running " ++ line ++ " in " ++ directory.toString)
    match ← Step.launch ⟨argv, directory⟩ with
    | .exited code =>
        if code = 0 then return () else throw (.command ⟨argv, .exitCode code⟩)
    | .interrupted => throw .interrupted
    | .notStarted cause =>
        match cause.systemError? with
        | some e => throw (.command ⟨argv, .notStarted e⟩)
        | none => throw .embeddedNull

end Runner

namespace Git

/-- The address of a repository. -/
def url (host org name : String) : String := "https://" ++ host ++ "/" ++ org ++ "/" ++ name

/-- Clones a repository into a directory below the current one. -/
def clone (runner : Runner) (url : String) (directory : Option Path := none) : Step Unit :=
  runner.run ["git", "clone", url] directory

/-- Points a remote of a repository at an address. -/
def setRemoteUrl (runner : Runner) (repo : Path) (url : String) (remote : String := "origin") :
    Step Unit :=
  runner.run ["git", "remote", "set-url", remote, url] (some repo)

/-- Sets an entry of the configuration of a repository. -/
def setConfig (runner : Runner) (repo : Path) (key value : String) : Step Unit :=
  runner.run ["git", "config", key, value] (some repo)

/-- Checks out a revision in a repository. -/
def checkout (runner : Runner) (repo : Path) (revision : String) : Step Unit :=
  runner.run ["git", "checkout", revision] (some repo)

/-- The lock of the index of a repository. -/
def indexLock (repo : Path) : Path := (repo.child ".git").child "index.lock"

/-- Removes the lock that a broken run may have left; that it is not there is fine, and another
failure is only worth a warning. -/
def removeIndexLock (repo : Path) : Step Unit := do
  let lock := indexLock repo
  match (← Step.files).unlink lock.toString with
  | .ok fs =>
      Step.setFiles fs
      Step.info ("Removed stale lock " ++ lock.toString)
  | .error .embeddedNull => throw .embeddedNull
  | .error (.failed e) =>
      if e = .noEntry then return ()
      else Step.log .warning ("Failed to remove stale lock " ++ lock.toString ++ ": " ++
        (SystemError.onPath e lock.toString).message)

end Git

end Provision
