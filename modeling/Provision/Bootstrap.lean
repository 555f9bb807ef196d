/-
**The bootstrap.**

The whole run of the program: it reads the command line, works out the configuration, loads the
rules, and then puts the Go distributions, the dependency managers, the source repository and the
forks in place, in this order.  The first failure ends the run.  The program reports the failures
that it knows in its log and turns them into its exit code; any other failure is left to whoever
runs it.

Main definitions:

* `Provision.Bootstrap.Plan`, `Provision.Bootstrap.prepare` — what a run works with, and reading it;
* `Provision.Bootstrap.carryOut`, `Provision.Bootstrap.setUp` — **the work of a run**;
* `Provision.Bootstrap.Exit`, `Provision.Bootstrap.Report` — how a run ends, and what it shows;
* `Provision.Bootstrap.run` — **a run, from the command line on**.
-/

import Provision.Arguments.Usage
import Provision.Loader
import Provision.Summary
import Provision.Text.Integer

set_option relaxedAutoImplicit false
set_option autoImplicit false

namespace Provision

/-- The value of an entry, if it has one. -/
def Setting.value? : Setting → Option String
  | .given s => some s
  | _ => none

/-- What the arguments override. -/
def Arguments.overrides (a : Arguments) : Overrides where
  sourceOrg := a.sourceOrg.value?
  sourceRepo := a.sourceRepo.value?
  targetOrg := a.targetOrg.value?
  githubHost := a.githubHost.value?
  basePackage := a.basePackage.value?
  rulesFile := a.rulesFile.value?

/-- The columns of the terminal: as many as the environment says, else the usual number. -/
def Environment.columns (env : Environment) : Nat :=
  match (env.lookup "COLUMNS").bind Text.integer? with
  | some n => if 0 < n then n.toNat else 80
  | none => 80

namespace Bootstrap

/-! ### The work -/

/-- Completes a configuration by the arguments and the environment. -/
def complete (a : Arguments) (config : Config) : Step (Config × Layout) := do
  let environment := (← get).environment
  let root ← workspaceRoot environment
  match config.resolve a.overrides root (environment.value "RULE_FILE_PATH") with
  | .ok result => return result
  | .error e => throw (.config e)

/-- The configuration in effect, and the layout that follows from it. -/
def configure (a : Arguments) : Step (Config × Layout) := do
  let config ←
    match a.config with
    | .given path => loadConfig (Path.ofString path)
    | _ => pure {}
  complete a config

/-- What a run works with once its documents are read. -/
structure Plan where
  arguments : Arguments
  /-- The environment that the run was started in. -/
  environment : Environment
  config : Config
  layout : Layout
  rules : List RepositoryRule
  deriving DecidableEq, Repr, Inhabited

/-- How the commands of the plan are run. -/
def Plan.runner (p : Plan) : Runner := ⟨p.layout.baseRepoPath, p.arguments.dryRun⟩

/-- **The plan of a run**: configuration and rules, read and checked. -/
def prepare (a : Arguments) : Step Plan := do
  Step.debug ("Arguments: " ++ a.describe)
  let environment := (← get).environment
  let (config, layout) ← configure a
  Step.info ("GOPATH: " ++ layout.root.toString)
  Step.info ("Base repository path: " ++ layout.baseRepoPath.toString)
  let rules ← loadRules (Path.ofString config.rulesFile)
  Step.info ("Loaded " ++ toString rules.length ++ " rule(s) from " ++ config.rulesFile)
  return ⟨a, environment, config, layout, rules⟩

/-- Puts a tool in place unless it is not wanted, in which case there is no status. -/
def ensureTool (layout : Layout) (runner : Runner) (tool : Tool) (skip : Bool) :
    Step (Option Tool.Status) := do
  if skip then
    Step.info ("Skipping " ++ tool.name ++ " installation")
    return none
  else
    return some (← tool.ensure layout runner)

/-- **Carries a plan out** and counts what became of everything. -/
def carryOut (p : Plan) : Step Summary := do
  let go ← Toolchain.installAll p.rules p.layout p.runner
  let _ ← Repository.ensureBase p.layout p.arguments.dryRun
  let godep ← ensureTool p.layout p.runner .godep p.arguments.skipGodep
  let dep ← ensureTool p.layout p.runner .dep p.arguments.skipDep
  let source ← Repository.cloneSource p.config p.layout p.runner p.arguments.skipGodep
  let forks ← (Rules.destinations p.rules).mapM fun name =>
    Repository.cloneFork p.config p.layout p.runner name p.environment
  return Summary.ofStatuses go [godep, dep] (source :: forks)

/-- **The work of a run.** -/
def setUp (a : Arguments) : Step Unit := do
  let plan ← prepare a
  let summary ← carryOut plan
  summary.report a.dryRun

/-! ### A run -/

/-- How a run ends. -/
inductive Exit where
  /-- The program is done, or has reported a failure; it ends with a code. -/
  | returned (code : Nat)
  /-- The command line has ended the program, with a code. -/
  | dismissed (code : Nat)
  /-- A failure that the program does not report has ended it. -/
  | failed (f : Failure)
  deriving DecidableEq, Repr, Inhabited

/-- What a run comes to. -/
structure Report where
  exit : Exit
  /-- The lines of its output. -/
  output : List String := []
  /-- The lines of its log and of its complaints. -/
  errors : List String := []
  deriving DecidableEq, Repr, Inhabited

/-- Turns a failure into the end of a run: one that the program knows is reported in the log. -/
def conclude (m : Machine) : Except Failure Unit → Exit × List Log.Record
  | .ok () => (.returned 0, m.log)
  | .error .interrupted => (.returned 130, m.log ++ [⟨.error, "Interrupted"⟩])
  | .error f =>
      if f.isReported then (.returned 2, m.log ++ [⟨.error, f.message⟩])
      else (.failed f, m.log)

/-- The report of a command line that does not ask for a run. -/
def dismissal (width : Nat) : Option UsageError → Report
  | none => ⟨.dismissed 0, Usage.helpLines width, []⟩
  | some e => ⟨.dismissed 2, [], Usage.errorLines width e⟩

/-- **A run**, from the command line on; the log of the machine starts anew. -/
def run (words : List String) (m : Machine) : Report × Machine :=
  let width := Usage.widthOn m.environment.columns
  let m := { m with log := [] }
  match Arguments.read words with
  | .help => (dismissal width none, m)
  | .wrong e => (dismissal width (some e), m)
  | .run a =>
      let (result, m) := (setUp a).perform m
      let (exit, log) := conclude m result
      let least := if a.verbose then Log.Level.debug else Log.Level.info
      (⟨exit, [], Log.shown least log⟩, { m with log })

end Bootstrap

end Provision
