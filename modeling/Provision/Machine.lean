/-
**The machine that is bootstrapped.**

Everything that the bootstrap reads and changes: the files, the environment, the programs that it
can launch, and the log.  A step of the bootstrap is a function from machines to machines that
either answers or fails; what a failed step has done stays done.

Main definitions:

* `Provision.Environment` — the environment variables;
* `Provision.Machine` — the machine;
* `Provision.Failure`, `Provision.Failure.message` — everything that can end a step;
* `Provision.Step`, `Provision.Step.perform` — the steps, and performing one;
* `Provision.Step.log`, `Provision.Step.launch` and companions — the elementary steps.
-/

import Provision.FileSystem.Call
import Provision.Launch.Basic
import Provision.Log
import Provision.Path.Home
import Provision.Rules

set_option relaxedAutoImplicit false
set_option autoImplicit false

namespace Provision

/-! ### The machine -/

/-- Environment variables and their values. -/
abbrev Environment := List (String × String)

/-- The value of a variable; empty if it is not set. -/
def Environment.value (env : Environment) (name : String) : String := (env.lookup name).getD ""

/-- The machine that is bootstrapped. -/
structure Machine where
  files : FileSystem := {}
  environment : Environment := []
  /-- The accounts and their home directories; the one that runs the program also stands under the
  empty name. -/
  accounts : List (String × String) := []
  /-- What launched commands do. -/
  behaviour : Behaviour := fun _ _ fs => (.exited 0, fs)
  /-- The commands launched so far, in order. -/
  launches : List Launch := []
  /-- How many names of staging directories were tried so far. -/
  stagingTried : Nat := 0
  log : List Log.Record := []
  deriving Inhabited

/-- The home directories that the machine knows. -/
def Machine.homes (m : Machine) : Homes := ⟨m.environment.lookup "HOME", m.accounts⟩

/-! ### Failures -/

/-- Why a Go distribution cannot be installed or linked. -/
inductive ToolchainError where
  /-- What is in its place cannot be looked at. -/
  | uninspectable (target : Path) (cause : SystemError)
  /-- What is in its place is no directory. -/
  | notDirectory (target : Path)
  /-- The directory to unpack into cannot be made. -/
  | noStaging (root : Path) (cause : SystemError)
  /-- All names for it that may be tried are taken. -/
  | noStagingName (root : Path)
  /-- It cannot be moved into its place. -/
  | unmovable (staging target : Path) (cause : SystemError)
  /-- The link to it cannot be made. -/
  | unlinkable (link target : Path) (cause : SystemError)
  deriving DecidableEq, Repr, Inhabited

/-- The text of a toolchain error. -/
def ToolchainError.message : ToolchainError → String
  | uninspectable target cause =>
      "Failed to inspect " ++ target.toString ++ ": " ++ cause.message
  | notDirectory target => "Expected " ++ target.toString ++ " to be a directory"
  | noStaging root cause =>
      "Failed to create staging directory in " ++ root.toString ++ ": " ++ cause.message
  | noStagingName root =>
      "Failed to create staging directory in " ++ root.toString ++
        ": [Errno 17] No usable temporary directory name found"
  | unmovable staging target cause =>
      "Failed to move " ++ staging.toString ++ " to " ++ target.toString ++ ": " ++ cause.message
  | unlinkable link target cause =>
      "Failed to link " ++ link.toString ++ " to " ++ target.toString ++ ": " ++ cause.message

/-- Why the directory of the repositories is not there. -/
inductive WorkspaceError where
  /-- Something else is in its place. -/
  | notDirectory (path : Path)
  /-- It cannot be made. -/
  | uncreatable (path : Path) (cause : SystemError)
  deriving DecidableEq, Repr, Inhabited

/-- The text of a workspace error. -/
def WorkspaceError.message : WorkspaceError → String
  | notDirectory path =>
      "Existing source repo directory is not a directory: " ++ path.toString
  | uncreatable path cause =>
      "Failed to create source repo directory " ++ path.toString ++ ": " ++ cause.message

/-- Everything that can end a step. -/
inductive Failure where
  /-- There is no configuration. -/
  | config (e : ConfigError)
  /-- There are no rules. -/
  | rules (e : RulesError)
  /-- A Go distribution is not in place. -/
  | toolchain (e : ToolchainError)
  /-- A command failed. -/
  | command (e : CommandError)
  /-- The directory of the repositories is not in place. -/
  | workspace (e : WorkspaceError)
  /-- The user interrupted the bootstrap. -/
  | interrupted
  /-- A system call failed that was not expected to. -/
  | system (e : SystemError)
  /-- A path holds a NUL character. -/
  | embeddedNull
  /-- A home directory is not known. -/
  | noHome
  /-- A document is not encoded as UTF-8. -/
  | undecodable
  /-- A document holds what lies beyond what can be read. -/
  | overrun (o : Yaml.Overrun)
  deriving DecidableEq, Repr, Inhabited

namespace Failure

/-- The text of a failure. -/
def message : Failure → String
  | config e => e.message
  | rules e => e.message
  | toolchain e => e.message
  | command e => e.message
  | workspace e => e.message
  | interrupted => ""
  | system e => e.message
  | embeddedNull => "embedded null byte"
  | noHome => "Could not determine home directory."
  | undecodable => ""
  | overrun o => o.message

/-- Whether the program knows the failure and reports it itself. -/
def isReported : Failure → Bool
  | config _ | rules _ | toolchain _ | command _ | workspace _ => true
  | _ => false

end Failure

/-! ### Steps -/

/-- **A step of the bootstrap.** -/
abbrev Step (α : Type) := ExceptT Failure (StateM Machine) α

namespace Step

/-- Performs a step: its answer or failure, and the machine afterwards. -/
def perform {α : Type} (s : Step α) (m : Machine) : Except Failure α × Machine := s.run.run m

/-- Writes to the log. -/
def log (level : Log.Level) (message : String) : Step Unit :=
  modify fun m => { m with log := m.log ++ [{ level, message }] }

/-- Writes a debugging record. -/
def debug (message : String) : Step Unit := log .debug message

/-- Writes an ordinary record. -/
def info (message : String) : Step Unit := log .info message

/-- Looks at the files. -/
def files : Step FileSystem := return (← get).files

/-- Replaces the files. -/
def setFiles (fs : FileSystem) : Step Unit := modify fun m => { m with files := fs }

/-- A refusal as a failure; `failed` says what a failed system call means. -/
def refused {α : Type} (r : Refusal) (failed : Errno → Failure) : Step α :=
  match r with
  | .embeddedNull => throw .embeddedNull
  | .failed e => throw (failed e)

/-- Runs `cleanup` on the files after a step, whether it answered or failed. -/
def cleaningUp {α : Type} (s : Step α) (cleanup : FileSystem → FileSystem) : Step α :=
  ExceptT.mk do
    let r ← s.run
    modify fun m => { m with files := cleanup m.files }
    return r

/-- Whether a path leads to something; failures that do not say no are not expected. -/
def found (path : Path) : Step Bool := do
  match (← files).found path.toString with
  | .ok b => return b
  | .error r => refused r fun e => .system (.onPath e path.toString)

/-- Launches a command and waits for it. -/
def launch (command : Command) : Step Ending := do
  let m ← get
  let (ending, files) := m.behaviour m.launches command m.files
  let launches := m.launches ++ [(⟨command, ending, m.files, files⟩ : Launch)]
  set ({ m with files, launches } : Machine)
  return ending

end Step

end Provision
