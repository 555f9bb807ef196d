/-
**The summary of a run.**

At the end of a run the log says how many Go distributions, tools and repositories were put in
place, were there already, or were skipped.

Main definitions:

* `Provision.Summary` — the eight counts;
* `Provision.Summary.ofStatuses` — counting what became of everything;
* `Provision.Summary.text` — the summary as a block of lines.
-/

import Provision.Repository
import Provision.Tool
import Provision.Toolchain

set_option relaxedAutoImplicit false
set_option autoImplicit false

namespace Provision

/-- What is counted. -/
structure Summary where
  goInstalled : Int := 0
  goExisting : Int := 0
  toolsInstalled : Int := 0
  toolsExisting : Int := 0
  toolsSkipped : Int := 0
  reposCloned : Int := 0
  reposRefreshed : Int := 0
  reposExisting : Int := 0
  deriving DecidableEq, Repr, Inhabited

namespace Summary

/-- **Counts what became of everything.**  A tool without a status was skipped. -/
def ofStatuses (go : List Toolchain.Status) (tools : List (Option Tool.Status))
    (repos : List Repository.Status) : Summary where
  goInstalled := go.count .installed
  goExisting := go.count .existing
  toolsInstalled := tools.count (some .installed)
  toolsExisting := tools.count (some .existing)
  toolsSkipped := tools.count none
  reposCloned := repos.count .cloned
  reposRefreshed := repos.count .refreshed
  reposExisting := repos.count .existing

/-- The lines of the summary: a label, the count, and what it counts. -/
def rows (s : Summary) : List (String × Int × String) :=
  [("Go installed", s.goInstalled, "toolchain versions downloaded"),
   ("Go existing", s.goExisting, "toolchain versions already present"),
   ("Tools installed", s.toolsInstalled, "dependency managers built"),
   ("Tools existing", s.toolsExisting, "dependency managers already on PATH"),
   ("Tools skipped", s.toolsSkipped, "disabled by flags"),
   ("Repos cloned", s.reposCloned, "fresh clones"),
   ("Repos refreshed", s.reposRefreshed, "fork remotes reset"),
   ("Repos existing", s.reposExisting, "source repository already cloned")]

/-- A text filled up with blanks to a width. -/
def padded (width : Nat) (s : String) : String :=
  s ++ String.ofList (List.replicate (width - s.length) ' ')

/-- The title of the summary. -/
def title (dryRun : Bool) : String := if dryRun then "Init Summary (dry-run)" else "Init Summary"

/-- **The summary as text**: an empty line, the underlined title, and one line for each count, the
counts standing below each other. -/
def text (s : Summary) (dryRun : Bool) : String :=
  let width := (s.rows.map fun row => row.1.length).foldl max 0
  let heading := title dryRun
  let lines := s.rows.map fun (label, count, what) =>
    padded width label ++ " : " ++ toString count ++ " (" ++ what ++ ")"
  "\n".intercalate
    ("" :: heading :: String.ofList (List.replicate heading.length '-') :: lines)

/-- Writes the summary to the log. -/
def report (s : Summary) (dryRun : Bool) : Step Unit := Step.info (s.text dryRun)

end Summary

end Provision
