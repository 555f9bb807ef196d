/-
**Reading the documents changes nothing.**

Before a run does anything it reads its configuration and its rules.  However this ends, with a plan,
with a reported failure or with one that nobody expects, nothing but the log has changed.

Main results:

* `Provision.Bootstrap.quiet_prepare` — **preparing a plan is quiet**;
* `Provision.Bootstrap.writes_prepare` — what it writes to the log;
* `Provision.Bootstrap.plan_of_prepare` — the plan is for the arguments and the environment that it
  was prepared from;
* `Provision.Bootstrap.run_machine`, `Provision.Bootstrap.run_exit` — a run in terms of its work.

The last section has a small machine and a command line for it, at which general statements about
runs are instantiated.
-/

import Provision.Bootstrap
import Provision.Proofs.Step

set_option relaxedAutoImplicit false
set_option autoImplicit false

namespace Provision

open Step

/-! ### Documents -/

namespace Loader

theorem still_expand (path : Path) : (expand path).Still := by
  refine still_get.bind fun m => ?_
  split
  · exact still_pure _
  · split <;> exact still_throw _

theorem still_text (path : Path) (unreadable : SystemError → Failure) :
    (text path unreadable).Still := by
  refine still_files.bind fun fs => ?_
  split
  · exact still_refused _ _
  · split
    · exact still_pure _
    · exact still_throw _

theorem still_value (path : Path) (unreadable : SystemError → Failure)
    (malformed : Yaml.Fault → Failure) : (value path unreadable malformed).Still := by
  refine (still_text path unreadable).bind fun s => ?_
  split
  · exact still_pure _
  · exact still_throw _
  · exact still_throw _

end Loader

theorem still_loadConfig (path : Path) : (loadConfig path).Still := by
  refine (Loader.still_expand path).bind fun path => ?_
  refine (Loader.still_value path _ _).bind fun v => ?_
  split
  · exact still_pure _
  · exact still_throw _

theorem still_loadRules (path : Path) : (loadRules path).Still := by
  refine (Loader.still_expand path).bind fun path => ?_
  refine (Loader.still_value path _ _).bind fun v => ?_
  split
  · exact still_pure _
  · exact still_throw _

theorem still_workspaceRoot (environment : Environment) : (workspaceRoot environment).Still := by
  unfold workspaceRoot
  dsimp only
  split
  · exact Loader.still_expand _
  · exact (Loader.still_expand _).bind fun _ => still_pure _

/-! ### The plan -/

namespace Bootstrap

theorem still_complete (a : Arguments) (config : Config) : (complete a config).Still := by
  refine still_get.bind fun m => (still_workspaceRoot _).bind fun root => ?_
  split
  · exact still_pure _
  · exact still_throw _

theorem still_configure (a : Arguments) : (configure a).Still := by
  unfold configure
  split
  · exact (still_loadConfig _).bind fun config => still_complete a config
  · exact (still_pure _).bind fun config => still_complete a config

/-- **Preparing a plan is quiet.** -/
theorem quiet_prepare (a : Arguments) : (prepare a).Quiet := by
  refine (quiet_debug _).bind fun _ => quiet_get.bind fun m => ?_
  refine (still_configure a).quiet.bind fun result => ?_
  refine (quiet_info _).bind fun _ => (quiet_info _).bind fun _ => ?_
  refine (still_loadRules _).quiet.bind fun rules => ?_
  exact (quiet_info _).bind fun _ => quiet_pure _

/-- How the records open that are written while a plan is prepared. -/
def preparations : List String := ["Arguments: ", "GOPATH: ", "Base repository path: ", "Loaded "]

/-- **The records that are written while a plan is prepared** are known by how they open. -/
theorem writes_prepare {P : Log.Record → Prop}
    (h : ∀ s ∈ preparations, ∀ level message, s.toList <+: message.toList → P ⟨level, message⟩)
    (a : Arguments) : (prepare a).Writes P := by
  refine (writes_log (h "Arguments: " (by decide) _ _ (by simp))).bind fun _ => ?_
  refine still_get.writes.bind fun m => (still_configure a).writes.bind fun result => ?_
  refine (writes_log (h "GOPATH: " (by decide) _ _ (by simp))).bind fun _ => ?_
  refine (writes_log (h "Base repository path: " (by decide) _ _ (by simp))).bind fun _ => ?_
  refine (still_loadRules _).writes.bind fun rules => ?_
  exact (writes_log (h "Loaded " (by decide) _ _ (by simp))).bind fun _ => (still_pure _).writes

/-- A plan is for the arguments and the environment that it was prepared from. -/
theorem plan_of_prepare {a : Arguments} {m m' : Machine} {p : Plan}
    (h : (prepare a).perform m = (.ok p, m')) :
    p.arguments = a ∧ p.environment = m.environment := by
  simp only [prepare, perform_bind_eq_ok, perform_debug, perform_get, perform_info, perform_pure,
    Prod.mk.injEq, Except.ok.injEq] at h
  obtain ⟨_, m₁, ⟨-, rfl⟩, _, _, ⟨rfl, rfl⟩, _, _, -, _, _, -, _, _, -, _, _, -, _, _, -, rfl, -⟩ := h
  exact ⟨rfl, rfl⟩

/-! ### The run around the work -/

/-- The machine after a run: as its work has left it, the log concluded. -/
theorem run_machine {words : List String} {a : Arguments} (h : Arguments.read words = .run a)
    (m : Machine) :
    (run words m).2 =
      { ((setUp a).perform { m with log := [] }).2 with
        log := (conclude ((setUp a).perform { m with log := [] }).2
          ((setUp a).perform { m with log := [] }).1).2 } := by
  simp only [run, h]

/-- The exit of a run follows from how its work has ended. -/
theorem run_exit {words : List String} {a : Arguments} (h : Arguments.read words = .run a)
    (m : Machine) :
    (run words m).1.exit =
      (conclude ((setUp a).perform { m with log := [] }).2
        ((setUp a).perform { m with log := [] }).1).1 := by
  simp only [run, h]

/-- A run that returns zero has ended without a failure. -/
theorem result_of_returned_zero {m : Machine} {r : Except Failure Unit}
    (h : (conclude m r).1 = .returned 0) : r = .ok () := by
  cases r with
  | ok u => rfl
  | error f => cases f <;> simp [conclude, Failure.isReported] at h

/-! ### A small machine -/

namespace Sample

/-- Rules that ask for one fork and, next to the default version, for one more. -/
def rulesText : String :=
  "rules:\n- destination: fork\n  branches:\n  - name: main\n    go: 1.9\n"

/-- A machine with a home directory and a rules file, on which every command succeeds at once. -/
def machine : Machine where
  files := ⟨⟨[(["home"], .directory), (["rules"], .file rulesText.toUTF8 false)]⟩, []⟩
  environment := [("HOME", "/home")]

/-- A command line that the machine can carry out. -/
def words : List String :=
  ["--source-repo", "widgets", "--source-org", "acme", "--target-org", "pub",
    "--rules-file", "/rules"]

/-- What the command line asks for. -/
def arguments : Arguments where
  sourceRepo := .given "widgets"
  sourceOrg := .given "acme"
  targetOrg := .given "pub"
  rulesFile := .given "/rules"

theorem read_words : Arguments.read words = .run arguments := by decide +kernel

end Sample

end Bootstrap

end Provision
