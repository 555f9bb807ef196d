/-
**The publishing rules.**

The rules name the repositories that are published into, and for each of its branches the version
of Go that the branch is built with.  They are read from a document with a list under the key
`rules`; only the keys that matter here are looked at, and the first thing that is wrong is
reported with its place.

Main definitions:

* `Provision.BranchRule`, `Provision.RepositoryRule` — the rules;
* `Provision.RulesError`, `Provision.RulesError.message` — why there are no rules;
* `Provision.Rules.ofDocument` — reading the rules from the value of a document;
* `Provision.Rules.goVersions` — the versions of Go that the rules ask for.
-/

import Provision.Config

set_option relaxedAutoImplicit false
set_option autoImplicit false

namespace Provision

/-- What the rules say about one branch. -/
structure BranchRule where
  name : String
  /-- The version of Go that it asks for; empty if it does not. -/
  goVersion : String := ""
  deriving DecidableEq, Repr, Inhabited

/-- What the rules say about one repository. -/
structure RepositoryRule where
  /-- The name of the repository that is published into. -/
  destination : String
  branches : List BranchRule := []
  deriving DecidableEq, Repr, Inhabited

/-- Why there are no rules. -/
inductive RulesError where
  /-- The file cannot be read. -/
  | unreadable (path : Path) (cause : SystemError)
  /-- The file holds no proper document. -/
  | malformed (path : Path) (fault : Yaml.Fault)
  /-- The document is of another kind than a mapping. -/
  | notMapping (path : Path) (kind : String)
  /-- The rules are of another kind than a list. -/
  | notList (path : Path) (kind : String)
  /-- A rule is of another kind than a mapping. -/
  | ruleNotMapping (path : Path) (index : Nat) (kind : String)
  /-- A rule has no destination. -/
  | noDestination (path : Path) (index : Nat)
  /-- The branches of a rule are no list. -/
  | branchesNotList (path : Path) (destination : String)
  /-- A branch is of another kind than a mapping. -/
  | branchNotMapping (path : Path) (destination : String) (index : Nat) (kind : String)
  deriving DecidableEq, Repr, Inhabited

/-- The text of a rules error. -/
def RulesError.message : RulesError → String
  | unreadable path cause =>
      "Failed to load rules from " ++ path.toString ++ ": " ++ cause.message
  | malformed path fault =>
      "Failed to parse rules at " ++ path.toString ++ ": " ++ fault.message
  | notMapping path kind =>
      "Invalid rules format in " ++ path.toString ++ ": expected a mapping, got " ++ kind
  | notList path kind =>
      "Invalid rules format in " ++ path.toString ++ ": 'rules' must be a list, got " ++ kind
  | ruleNotMapping path index kind =>
      "Invalid rule at index " ++ toString index ++ " in " ++ path.toString ++
        ": expected a mapping, got " ++ kind
  | noDestination path index =>
      "Invalid rule at index " ++ toString index ++ " in " ++ path.toString ++
        ": missing 'destination'"
  | branchesNotList path destination =>
      "Invalid rule '" ++ destination ++ "' in " ++ path.toString ++ ": 'branches' must be a list"
  | branchNotMapping path destination index kind =>
      "Invalid branch at index " ++ toString index ++ " of rule '" ++ destination ++ "' in " ++
        path.toString ++ ": expected a mapping, got " ++ kind

namespace Rules

/-! ### Reading the rules -/

/-- The items of a list that may be left out: none if there is no value, or a text that is empty
or means null. -/
def items? (v : Option Yaml.Value) : Option (List Yaml.Value) :=
  match v with
  | none => some []
  | some (.scalar s) => if scalarText (some (.scalar s)) = "" then some [] else none
  | some (.sequence vs) => some vs
  | some (.mapping _) => none

/-- Reads a list whose items are numbered from `index` on; the first item that cannot be read is
the error. -/
def readItems {ε α : Type} (read : Nat → Yaml.Value → Except ε α) :
    Nat → List Yaml.Value → Except ε (List α)
  | _, [] => .ok []
  | index, v :: vs => do
      let a ← read index v
      let as ← readItems read (index + 1) vs
      return a :: as

/-- Reads one branch of the rule for `destination`. -/
def readBranch (path : Path) (destination : String) (index : Nat) :
    Yaml.Value → Except RulesError BranchRule
  | .mapping pairs =>
      .ok ⟨scalarText (Yaml.Value.get? pairs "name"), scalarText (Yaml.Value.get? pairs "go")⟩
  | v => .error (.branchNotMapping path destination index (Yaml.Value.kind (some v)))

/-- Reads one rule. -/
def readRule (path : Path) (index : Nat) : Yaml.Value → Except RulesError RepositoryRule
  | .mapping pairs =>
      let destination := scalarText (Yaml.Value.get? pairs "destination")
      if destination = "" then .error (.noDestination path index)
      else match items? (Yaml.Value.get? pairs "branches") with
        | none => .error (.branchesNotList path destination)
        | some vs => do
            let branches ← readItems (readBranch path destination) 0 vs
            return ⟨destination, branches⟩
  | v => .error (.ruleNotMapping path index (Yaml.Value.kind (some v)))

/-- **Reads the rules from the value of a document.**  An empty document holds no rules; `path` is
where the document comes from. -/
def ofDocument (path : Path) : Option Yaml.Value → Except RulesError (List RepositoryRule)
  | none => .ok []
  | some (.mapping pairs) =>
      let v := Yaml.Value.get? pairs "rules"
      match items? v with
      | none => .error (.notList path (Yaml.Value.kind v))
      | some vs => readItems (readRule path) 0 vs
  | v => .error (.notMapping path (Yaml.Value.kind v))

/-! ### What the rules ask for -/

/-- The repositories that are published into, in order. -/
def destinations (rules : List RepositoryRule) : List String := rules.map (·.destination)

/-- The version of Go that is always there. -/
def defaultGoVersion : String := "1.10.2"

/-- Adds a version behind the others, unless it is empty or already there. -/
def addVersion (versions : List String) (v : String) : List String :=
  if v ≠ "" ∧ v ∉ versions then versions ++ [v] else versions

/-- **The versions of Go that the rules ask for**, each once: the default first, then the others
in the order in which they first appear. -/
def goVersions (rules : List RepositoryRule) (default : String := defaultGoVersion) :
    List String :=
  rules.foldl (fun versions rule =>
    rule.branches.foldl (fun versions branch => addVersion versions branch.goVersion) versions)
    [default]

end Rules

end Provision
