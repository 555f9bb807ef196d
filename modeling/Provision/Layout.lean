/-
**The layout of a Go workspace.**

Everything that the bootstrap makes lies below one root directory.  Go distributions stand right
below the root, one directory for each version, next to the link `go` that leads to one of them.
Sources stand below `src`: the repositories of the base package together in one directory, other
packages by their import path.

Main definitions:

* `Provision.Layout` — a root directory and a base package;
* `Provision.Layout.baseRepoPath`, `Provision.Layout.repoDir`, `Provision.Layout.packageDir` —
  where sources are;
* `Provision.Layout.goLink`, `Provision.Layout.goDir` — where Go distributions are.
-/

import Provision.Path.Basic

set_option relaxedAutoImplicit false
set_option autoImplicit false

namespace Provision

/-- Where a workspace lies, and the package whose repositories it holds. -/
structure Layout where
  root : Path
  /-- The package that the repositories belong to. -/
  basePackage : String
  deriving DecidableEq, Repr, Inhabited

namespace Layout

/-- The directory of the sources with the given import path. -/
def packageDir (l : Layout) (importPath : String) : Path := (l.root.child "src").child importPath

/-- The directory that holds the repositories of the base package. -/
def baseRepoPath (l : Layout) : Path := l.packageDir l.basePackage

/-- The directory of one repository. -/
def repoDir (l : Layout) (name : String) : Path := l.baseRepoPath.child name

/-- The link to the default Go distribution. -/
def goLink (l : Layout) : Path := l.root.child "go"

/-- The directory of the Go distribution of a version. -/
def goDir (l : Layout) (version : String) : Path := l.root.child ("go-" ++ version)

end Layout

end Provision
