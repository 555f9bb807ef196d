/-
**The command line program.**

The program takes its environment, its working directory and the two documents from the machine
that it runs on, and keeps every change to itself.  No other program can be launched from it, so a
run comes to its end only if it is dry or has no command to launch; any other run stops at its
first command, and says so.

Main definitions:

* `Provision.Bootstrap.survey` — the machine as far as a run looks at it;
* `main` — the program.
-/

import Provision.Bootstrap
import Provision.FileSystem.Edit

set_option relaxedAutoImplicit false
set_option autoImplicit false

namespace Provision.Bootstrap

/-- The environment variables that a run looks at. -/
def environmentNames : List String :=
  ["HOME", "PATH", "COLUMNS", "GOPATH", "RULE_FILE_PATH", "GIT_COMMITTER_NAME",
   "GIT_COMMITTER_EMAIL"]

/-- A machine on which no program can be launched, with nothing but its working directory. -/
def bareMachine (environment : Environment) (directory : String) : Machine :=
  let files : FileSystem := FileSystem.edit {} (Path.ofString "/") (.directory directory)
  { files := { files with workingDirectory := (Path.ofString directory).parts }
    environment
    behaviour := fun _ c fs => (.notStarted (.program .noEntry (c.argv.headD "")), fs) }

/-- The machine with the file at a path copied from disk, if there is one. -/
def withFile (m : Machine) (path : Path) : IO Machine := do
  match path.expandHome m.homes with
  | none => return m
  | some path =>
      try
        let content ← IO.FS.readBinFile path.toString
        let edit := Edit.file path.toString content false
        return { m with files := m.files.edit (Path.ofString ".") edit }
      catch _ => return m

/-- **The machine as far as a run looks at it**: its environment, and the documents that the
arguments lead to. -/
def survey (words : List String) : IO Machine := do
  let environment ← environmentNames.filterMapM fun name =>
    return (← IO.getEnv name).map fun value => (name, value)
  let m := bareMachine environment (← IO.currentDir).toString
  match Arguments.read words with
  | .run a =>
      let m ←
        match a.config with
        | .given path => withFile m (Path.ofString path)
        | _ => pure m
      match ((configure a).perform m).1 with
      | .ok (config, _) => withFile m (Path.ofString config.rulesFile)
      | .error _ => return m
  | _ => return m

end Provision.Bootstrap

open Provision

/-- The program: the exit code is that of the run, or 1 for a failure that no run reports. -/
def main (words : List String) : IO UInt32 := do
  let (report, _) := Bootstrap.run words (← Bootstrap.survey words)
  for line in report.output do IO.println line
  for line in report.errors do IO.eprintln line
  match report.exit with
  | .returned code => return code.toUInt32
  | .dismissed code => return code.toUInt32
  | .failed f =>
      IO.eprintln f.message
      return 1
