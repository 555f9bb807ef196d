/-
**Go distributions.**

A distribution that is missing is downloaded into a fresh staging directory below the root of the
workspace and then moved into its place, so that a distribution is in its place completely or not
at all.  The staging directory is removed whatever happens.  When all distributions are there, the
link `go` is made to lead to the default one.

Main definitions:

* `Provision.Toolchain.archiveUrl`, `Provision.Toolchain.downloadScript` — what is downloaded, and
  how;
* `Provision.Toolchain.fetch`, `Provision.Toolchain.install` — puts one distribution in place;
* `Provision.Toolchain.linkDefault` — makes the link;
* `Provision.Toolchain.installAll` — all distributions that the rules ask for, and the link.
-/

import Provision.Runner

set_option relaxedAutoImplicit false
set_option autoImplicit false

namespace Provision.Toolchain

/-- What became of a distribution. -/
inductive Status where
  | existing
  /-- It was put in place, or would be outside of a dry run. -/
  | installed
  deriving DecidableEq, Repr, Inhabited

/-- The word for a status. -/
def Status.word : Status → String
  | existing => "existing"
  | installed => "installed"

/-- The address of the archive of a version. -/
def archiveUrl (version : String) : String :=
  "https://storage.googleapis.com/golang/go" ++ version ++ ".linux-amd64.tar.gz"

/-- An archive lies at a fixed place, under a name that is made of its version. -/
theorem toList_archiveUrl (version : String) :
    (archiveUrl version).toList = "https://storage.googleapis.com/golang/go".toList ++
      version.toList ++ ".linux-amd64.tar.gz".toList := by
  unfold archiveUrl
  rw [String.toList_append, String.toList_append]

/-- The shell script that downloads a version and unpacks it into a directory. -/
def downloadScript (version : String) (staging : Path) : String :=
  "set -o pipefail; curl -SLf " ++ Shell.quote (archiveUrl version) ++
    " | tar -xz --strip 1 -C " ++ Shell.quote staging.toString

/-! ### The staging directory -/

/-- How many names are tried for one staging directory. -/
def maxTries : Nat := 10000

/-- Makes a staging directory with the first free name; each name is tried once only, also by later
calls.  `tries` is the number of names that may be tried. -/
def makeStagingWithin (root : Path) : Nat → Step Path
  | 0 => throw (.toolchain (.noStagingName root))
  | tries + 1 => do
      modify fun m => { m with stagingTried := m.stagingTried + 1 }
      let m ← get
      let path := Path.textBelow root.toString ("go-tmp-" ++ toString m.stagingTried)
      match m.files.makeDirectory path with
      | .ok fs =>
          Step.setFiles fs
          return Path.ofString path
      | .error (.failed e) =>
          if e = .alreadyExists then makeStagingWithin root tries
          else throw (.toolchain (.noStaging root (.onPath e path)))
      | .error .embeddedNull => throw .embeddedNull

/-- Makes the root directory, if need be, and a fresh staging directory in it. -/
def makeStaging (root : Path) : Step Path := do
  let (fs, refusal) := (← Step.files).ensureDirectories root
  Step.setFiles fs
  match refusal with
  | some (r, path) =>
      Step.refused r fun e => .toolchain (.noStaging root (.onPath e path.toString))
  | none => makeStagingWithin root maxTries

/-! ### One distribution -/

/-- Downloads a version into the staging directory and moves it into its place. -/
def fill (version : String) (staging target : Path) (runner : Runner) : Step Unit := do
  runner.run ["/bin/bash", "-c", downloadScript version staging] (some staging)
  match (← Step.files).rename staging.toString target.toString with
  | .ok fs => Step.setFiles fs
  | .error r =>
      Step.refused r fun e =>
        .toolchain (.unmovable staging target (.onPaths e staging.toString target.toString))

/-- Downloads a version into a fresh staging directory and moves it into its place.  The staging
directory is removed whatever happens. -/
def fetch (version : String) (layout : Layout) (runner : Runner) : Step Unit := do
  let staging ← makeStaging layout.root
  Step.cleaningUp (fill version staging (layout.goDir version) runner)
    (·.removeTree staging.toString)

/-- **Puts the distribution of a version in place**, unless it is there. -/
def install (version : String) (layout : Layout) (runner : Runner) : Step Status := do
  let target := layout.goDir version
  match (← Step.files).stat target.toString with
  | .ok .directory =>
      Step.info ("Found existing go " ++ version ++ " at " ++ target.toString)
      return .existing
  | .ok _ => throw (.toolchain (.notDirectory target))
  | .error .embeddedNull => throw .embeddedNull
  | .error (.failed e) =>
      if e ≠ .noEntry then
        throw (.toolchain (.uninspectable target (.onPath e target.toString)))
      Step.info ("Installing go " ++ version ++ " to " ++ target.toString)
      if runner.dryRun then
        Step.info ("Dry run: would download " ++ archiveUrl version)
        return .installed
      fetch version layout runner
      return .installed

/-! ### The link -/

/-- Removes what is in the place of the link.  What cannot be removed stays. -/
def clearLink (layout : Layout) : Step Unit := do
  let link := layout.goLink
  match (← Step.files).unlink link.toString with
  | .ok fs => Step.setFiles fs
  | .error .embeddedNull => throw .embeddedNull
  | .error (.failed e) =>
      if e ≠ .noEntry then
        Step.debug ("Could not remove " ++ link.toString ++ ": " ++
          (SystemError.onPath e link.toString).message)

/-- **Makes the link `go` lead to a version.**  What is in the place of the link is removed, unless
it is a directory, in which case the link cannot be made. -/
def linkDefault (layout : Layout) (version : String := Rules.defaultGoVersion)
    (dryRun : Bool := false) : Step Path := do
  let link := layout.goLink
  let target := layout.goDir version
  if dryRun then
    Step.info ("Dry run: would link " ++ link.toString ++ " to " ++ target.toString)
    return link
  clearLink layout
  match (← Step.files).symlink target.toString link.toString with
  | .ok fs => Step.setFiles fs
  | .error r =>
      Step.refused r fun e =>
        .toolchain (.unlinkable link target (.onPaths e target.toString link.toString))
  Step.info ("Linked " ++ link.toString ++ " to " ++ target.toString)
  return link

/-! ### All distributions -/

/-- **Puts all distributions that the rules ask for in place**, one after the other, and links the
default one.  The answer has the status of each version, in order. -/
def installAll (rules : List RepositoryRule) (layout : Layout) (runner : Runner) :
    Step (List Status) := do
  let statuses ← (Rules.goVersions rules).mapM fun version => install version layout runner
  let _ ← linkDefault layout Rules.defaultGoVersion runner.dryRun
  return statuses

end Provision.Toolchain
