/-
**Launched commands.**

The bootstrap gets its work done by other programs: it launches a command in a directory and waits
for it.  What the command does is not up to the bootstrap, so it is a parameter here: given all
launches so far, a behaviour says for each command how it ends and what it has done to the files by
then.

Main definitions:

* `Provision.Command` — an argument list and the directory that it is launched in;
* `Provision.StartFailure`, `Provision.Ending` — why a command does not start, and how one ends;
* `Provision.Launch` — a command with its ending and the files around it;
* `Provision.Behaviour` — what launched commands do;
* `Provision.CommandError`, `Provision.CommandError.message` — a command that failed.
-/

import Provision.FileSystem.Walk
import Provision.Shell.Word

set_option relaxedAutoImplicit false
set_option autoImplicit false

namespace Provision

/-- A command: its words, and the directory that it is launched in. -/
structure Command where
  argv : List String
  /-- The directory to launch it in. -/
  directory : Path
  deriving DecidableEq, Repr, Inhabited

/-- Why a command does not start. -/
inductive StartFailure where
  /-- The directory cannot be entered. -/
  | directory (errno : Errno) (path : Path)
  /-- The program cannot be launched; `file` is what the failure is about. -/
  | program (errno : Errno) (file : String)
  /-- The directory or a word cannot be handed to the system. -/
  | embeddedNull
  deriving DecidableEq, Repr, Inhabited

/-- How a command ends. -/
inductive Ending where
  /-- It exits with a code; a negative one is the number of the signal that ended it. -/
  | exited (code : Int)
  /-- The user interrupts the bootstrap while the command runs. -/
  | interrupted
  /-- It does not start. -/
  | notStarted (cause : StartFailure)
  deriving DecidableEq, Repr, Inhabited

/-- A launched command: how it ended, and the files before and after it. -/
structure Launch where
  command : Command
  ending : Ending
  /-- The files that it started on. -/
  before : FileSystem
  /-- The files that it left. -/
  after : FileSystem
  deriving DecidableEq, Inhabited

/-- **What launched commands do**: from the launches so far, the command and the files, how the
command ends and what the files are then. -/
abbrev Behaviour := List Launch → Command → FileSystem → Ending × FileSystem

/-! ### Failed commands -/

/-- Why a command counts as failed. -/
inductive CommandError.Reason where
  /-- It did not start. -/
  | notStarted (cause : SystemError)
  /-- It exited with a code other than zero. -/
  | exitCode (code : Int)
  deriving DecidableEq, Repr, Inhabited

/-- A command that failed. -/
structure CommandError where
  argv : List String
  /-- Why it counts as failed. -/
  reason : CommandError.Reason
  deriving DecidableEq, Repr, Inhabited

namespace CommandError

/-- The exit code, if the command started. -/
def exitCode? (e : CommandError) : Option Int :=
  match e.reason with
  | .notStarted _ => none
  | .exitCode code => some code

/-- The text of a failed command. -/
def message (e : CommandError) : String :=
  "Command " ++ Text.quoted (Shell.join e.argv) ++
    match e.reason with
    | .notStarted cause => " failed to start: " ++ cause.message
    | .exitCode code => " failed with exit code " ++ toString code

end CommandError

/-- A start failure as a failed system call; none if the call could not even be made. -/
def StartFailure.systemError? : StartFailure → Option SystemError
  | directory e path => some ⟨e, "PosixPath(" ++ Text.quoted path.toString ++ ")", none⟩
  | program e file => some (.onPath e file)
  | embeddedNull => none

end Provision
