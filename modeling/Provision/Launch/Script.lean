/-
**Scripted behaviour.**

A script answers launched commands from a list of entries.  The first entry whose words are the
first words of the command is taken: it refuses the command, or edits the files and then ends it.
An entry that is for one use only is gone after it was taken.  A command without an entry does
nothing and succeeds.  A script may also check, before anything else, that the directory of the
command can be entered.

Main definitions:

* `Provision.Script.Entry`, `Provision.Script` — entries and scripts;
* `Provision.Script.take` — the entry that answers a command, and the script after it;
* `Provision.Script.behaviour` — the behaviour that a script describes.
-/

import Provision.FileSystem.Edit
import Provision.Launch.Basic

set_option relaxedAutoImplicit false
set_option autoImplicit false

namespace Provision

/-- What an entry of a script does. -/
inductive Script.Answer where
  /-- The command does not start; the failure is about `file`. -/
  | refuse (errno : Errno) (file : Option String)
  /-- The command edits the files and ends. -/
  | act (edits : List Edit) (ending : Ending)
  deriving Inhabited

/-- One entry of a script. -/
structure Script.Entry where
  /-- The first words of the commands that it is for. -/
  argv : List String := []
  /-- Whether it is for one use only. -/
  once : Bool := false
  answer : Script.Answer := .act [] (.exited 0)
  deriving Inhabited

/-- A script: its entries in order, and whether directories are checked. -/
structure Script where
  entries : List Script.Entry := []
  /-- Whether a command needs a directory that can be entered. -/
  checksDirectory : Bool := false
  deriving Inhabited

namespace Script

/-- The first entry for a command, and the entries that are left after it was taken. -/
def take (argv : List String) : List Entry → Option Entry × List Entry
  | [] => (none, [])
  | e :: es =>
      if e.argv.isPrefixOf argv then (some e, if e.once then es else e :: es)
      else
        let (found, left) := take argv es
        (found, e :: left)

/-- Whether a command that ended this way had got past the check of its directory. -/
def reached : Ending → Bool
  | .notStarted (.directory _ _) | .notStarted .embeddedNull => false
  | _ => true

/-- The entries that are left after some launches. -/
def left (entries : List Entry) (past : List Launch) : List Entry :=
  past.foldl (fun es l => if reached l.ending then (take l.command.argv es).2 else es) entries

/-- Why the directory of a command cannot be entered, if it cannot. -/
def directoryFailure? (fs : FileSystem) (path : Path) : Option StartFailure :=
  match fs.stat path.toString with
  | .ok e => if e.isDirectory then none else some (.directory .notDirectory path)
  | .error (.failed e) => some (.directory e path)
  | .error .embeddedNull => some .embeddedNull

/-- What an answer makes of a command. -/
def Answer.apply (answer : Answer) (command : Command) (fs : FileSystem) : Ending × FileSystem :=
  match answer with
  | .refuse errno file =>
      let word := command.argv.headD ""
      (.notStarted (.program errno (orElse file word)), fs)
  | .act edits ending => (ending, fs.edits command.directory edits)
where
  /-- The file that a failure is about: the one named, if it is, else the program. -/
  orElse (file : Option String) (word : String) : String :=
    match file with
    | some f => if f = "" then word else f
    | none => word

/-- **The behaviour that a script describes.** -/
def behaviour (s : Script) : Behaviour := fun past command fs =>
  match if s.checksDirectory then directoryFailure? fs command.directory else none with
  | some cause => (.notStarted cause, fs)
  | none =>
      match (take command.argv (left s.entries past)).1 with
      | some e => e.answer.apply command fs
      | none => (.exited 0, fs)

end Script

end Provision
