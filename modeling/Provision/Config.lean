/-
**The configuration.**

The configuration names the source repository, the organisation that is published into, the host
of both, the base package and the file with the rules.  It is read from a document of which only
six keys matter; a null in the document is as good as nothing.  Command line and environment
override it, and what is still missing afterwards is filled in where a default exists.

Main definitions:

* `Provision.scalarText` — the text of a document value, empty for nulls and for what is no text;
* `Provision.Config`, `Provision.Config.ofPairs` — the configuration, and reading it from a
  mapping;
* `Provision.ConfigError`, `Provision.ConfigError.message` — why there is no configuration;
* `Provision.Config.ofDocument` — reading it from the value of a document;
* `Provision.Overrides`, `Provision.Config.resolve` — the configuration that is in effect.
-/

import Provision.FileSystem.Errno
import Provision.Layout
import Provision.Yaml.Fault
import Provision.Yaml.Value

set_option relaxedAutoImplicit false
set_option autoImplicit false

namespace Provision

/-! ### Texts in documents -/

/-- The texts that mean that there is no value. -/
def nullTexts : List String := ["~", "null", "Null", "NULL"]

/-- **The text of a value**: empty if there is no value, if it means null, or if it is a list or a
mapping. -/
def scalarText : Option Yaml.Value → String
  | some (.scalar s) => if s ∈ nullTexts then "" else s
  | _ => ""

/-! ### The configuration -/

/-- The configuration; an empty text stands for what is not given. -/
structure Config where
  /-- The organisation of the source repository. -/
  sourceOrg : String := ""
  /-- The name of the source repository. -/
  sourceRepo : String := ""
  /-- The organisation to publish into. -/
  targetOrg : String := ""
  /-- The host of all repositories. -/
  githubHost : String := ""
  /-- The package that the repositories belong to. -/
  basePackage : String := ""
  /-- The file with the publishing rules. -/
  rulesFile : String := ""
  deriving DecidableEq, Repr, Inhabited

/-- Why there is no configuration. -/
inductive ConfigError where
  /-- The file cannot be read. -/
  | unreadable (path : Path) (cause : SystemError)
  /-- The file holds no proper document. -/
  | malformed (path : Path) (fault : Yaml.Fault)
  /-- The document is of another kind than a mapping. -/
  | notMapping (path : Path) (kind : String)
  /-- The source organisation or the source repository is missing. -/
  | missingSource
  /-- The target organisation is missing. -/
  | missingTarget
  /-- The rules file is missing. -/
  | missingRulesFile
  deriving DecidableEq, Repr, Inhabited

/-- The text of a configuration error. -/
def ConfigError.message : ConfigError → String
  | unreadable path cause =>
      "Failed to load config file from " ++ path.toString ++ ": " ++ cause.message
  | malformed path fault =>
      "Failed to parse config file at " ++ path.toString ++ ": " ++ fault.message
  | notMapping path kind =>
      "Invalid config file at " ++ path.toString ++ ": expected a mapping, got " ++ kind
  | missingSource => "source-org and source-repo cannot be empty"
  | missingTarget => "target organization cannot be empty"
  | missingRulesFile => "no rules file provided"

namespace Config

/-- Reads the configuration from the pairs of a mapping; other keys do not matter. -/
def ofPairs (pairs : List (String × Yaml.Value)) : Config where
  sourceOrg := scalarText (Yaml.Value.get? pairs "source-org")
  sourceRepo := scalarText (Yaml.Value.get? pairs "source-repo")
  targetOrg := scalarText (Yaml.Value.get? pairs "target-org")
  githubHost := scalarText (Yaml.Value.get? pairs "github-host")
  basePackage := scalarText (Yaml.Value.get? pairs "base-package")
  rulesFile := scalarText (Yaml.Value.get? pairs "rules-file")

/-- **Reads the configuration from the value of a document.**  An empty document gives the empty
configuration; `path` is where the document comes from. -/
def ofDocument (path : Path) : Option Yaml.Value → Except ConfigError Config
  | none => .ok {}
  | some (.mapping pairs) => .ok (ofPairs pairs)
  | v => .error (.notMapping path (Yaml.Value.kind v))

/-! ### Defaults -/

/-- The host that is used if none is given. -/
def defaultHost : String := "github.com"

/-- The source repository with a base package of its own. -/
def kubernetesRepo : String := "kubernetes"

/-- The base package of that repository. -/
def kubernetesPackage : String := "k8s.io"

/-- The base package that follows from the other entries: host and target organisation, unless the
source repository has one of its own. -/
def derivedPackage (c : Config) : String :=
  if c.sourceRepo = kubernetesRepo then kubernetesPackage else c.githubHost ++ "/" ++ c.targetOrg

end Config

/-! ### What is in effect -/

/-- Entries given on the command line. -/
structure Overrides where
  sourceOrg : Option String := none
  sourceRepo : Option String := none
  targetOrg : Option String := none
  githubHost : Option String := none
  basePackage : Option String := none
  rulesFile : Option String := none
  deriving DecidableEq, Repr, Inhabited

namespace Config

/-- An override wins if it is given and not empty. -/
def override (given : Option String) (value : String) : String :=
  match given with
  | some s => if s = "" then value else s
  | none => value

/-- The first text unless it is empty, then the second. -/
def orElse (value default : String) : String := if value = "" then default else value

/-- The configuration with overrides and defaults, the rules file apart. -/
def complete (c : Config) (overrides : Overrides) : Config :=
  let c := { c with
    targetOrg := override overrides.targetOrg c.targetOrg
    sourceRepo := override overrides.sourceRepo c.sourceRepo
    sourceOrg := override overrides.sourceOrg c.sourceOrg
    githubHost := override overrides.githubHost c.githubHost
    basePackage := override overrides.basePackage c.basePackage }
  let c := { c with githubHost := orElse c.githubHost defaultHost }
  { c with basePackage := orElse c.basePackage c.derivedPackage }

/-- **The configuration in effect**, with the layout below `root`.  `ruleFilePath` is a path inside
the source repository; if it is not empty, the rules file is there, whatever else names one.  The
source is checked before the target, and that before the rules file. -/
def resolve (c : Config) (overrides : Overrides) (root : Path) (ruleFilePath : String) :
    Except ConfigError (Config × Layout) := do
  let c := c.complete overrides
  let layout : Layout := ⟨root, c.basePackage⟩
  let c := { c with rulesFile := override overrides.rulesFile c.rulesFile }
  if c.sourceRepo = "" ∨ c.sourceOrg = "" then throw .missingSource
  if c.targetOrg = "" then throw .missingTarget
  let c :=
    if ruleFilePath = "" then c
    else { c with rulesFile := ((layout.repoDir c.sourceRepo).child ruleFilePath).toString }
  if c.rulesFile = "" then throw .missingRulesFile
  return (c, layout)

end Config

end Provision
