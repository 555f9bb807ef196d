/-
**Pinned tools.**

A tool is an executable that is built from its sources at a fixed revision, unless an executable of
its name is found on the search path.

Main definitions:

* `Provision.Tool`, `Provision.Tool.godep`, `Provision.Tool.dep` — tools;
* `Provision.Environment.searchPath` — where executables are looked for;
* `Provision.Machine.findExecutable` — the search path;
* `Provision.Tool.ensure` — **builds a tool that is missing**.
-/

import Provision.Runner

set_option relaxedAutoImplicit false
set_option autoImplicit false

namespace Provision

/-- An executable and how it is built. -/
structure Tool where
  name : String
  importPath : String
  /-- The revision that is built. -/
  revision : String
  /-- What is built inside the sources. -/
  buildTarget : String
  deriving DecidableEq, Repr, Inhabited

/-! ### The search path -/

/-- The search path: where the environment has none, that of the system.  One that is set and empty
stays empty. -/
def Environment.searchPath (env : Environment) : String :=
  (env.lookup "PATH").getD "/bin:/usr/bin"

namespace Machine

/-- Where an executable may be: a name with a directory part only there, any other name below each
directory of the search path.  The empty directory is the working directory. -/
def candidates (m : Machine) (name : String) : List String :=
  if '/' ∈ name.toList then [name]
  else
    let path := m.environment.searchPath
    if path = "" then []
    else (Text.pieces ':' path.toList).map fun d => Path.textBelow (String.ofList d) name

/-- **Whether an executable is found.** -/
def findExecutable (m : Machine) (name : String) : Bool :=
  (m.candidates name).any m.files.isExecutable

end Machine

namespace Tool

/-- What became of a tool. -/
inductive Status where
  | existing
  /-- It was built, or would be outside of a dry run. -/
  | installed
  deriving DecidableEq, Repr, Inhabited

/-- The word for a status. -/
def Status.word : Status → String
  | existing => "existing"
  | installed => "installed"

/-- The older of the two dependency managers. -/
def godep : Tool where
  name := "godep"
  importPath := "github.com/tools/godep"
  revision := "tags/v80"
  buildTarget := "./..."

/-- The newer of the two dependency managers. -/
def dep : Tool where
  name := "dep"
  importPath := "github.com/golang/dep"
  revision := "7c44971bbb9f0ed87db40b601f2d9fe4dffb750d"
  buildTarget := "./cmd/dep"

/-- **Builds a tool**, unless it is found on the search path. -/
def ensure (tool : Tool) (layout : Layout) (runner : Runner) : Step Status := do
  if (← get).findExecutable tool.name then
    Step.info ("Already installed: " ++ tool.name)
    return .existing
  Step.info ("Installing " ++ tool.importPath ++ "#" ++ tool.revision ++ " ...")
  runner.run ["go", "get", tool.importPath]
  let sources := layout.packageDir tool.importPath
  Git.checkout runner sources tool.revision
  runner.run ["go", "install", tool.buildTarget] (some sources)
  return .installed

end Tool

end Provision
