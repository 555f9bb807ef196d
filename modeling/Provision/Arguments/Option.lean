/-
**The options of the command line.**

Each option has one or two names, may take a value, and sets one entry of the arguments.  An entry
that takes a value may be given as a lone separator, `--name=--`; the separator is dropped, and the
entry then has no value at all.

Main definitions:

* `Provision.Setting` — an entry that takes a value;
* `Provision.Arguments` — what a command line asks for;
* `Provision.CommandOption`, `Provision.CommandOption.Action` — the options, and what they do;
* `Provision.CommandOption.all` — **the options of the program**, in the order of its help.
-/

import Provision.Path.Basic
import Provision.Text.Quoted

set_option relaxedAutoImplicit false
set_option autoImplicit false

namespace Provision

/-- An entry of the arguments that takes a value. -/
inductive Setting where
  /-- It was not given. -/
  | unset
  /-- It was given without a value. -/
  | cleared
  /-- It was given with a value. -/
  | given (value : String)
  deriving DecidableEq, Repr, Inhabited

namespace Setting

/-- The value, empty if there is none. -/
def text : Setting → String
  | given s => s
  | _ => ""

/-- The entry as the log shows it; `shown` writes a value and `missing` stands for none. -/
def describe (shown : String → String) (missing : String) : Setting → String
  | unset => missing
  | cleared => "[]"
  | given s => shown s

end Setting

/-- What a command line asks for. -/
structure Arguments where
  config : Setting := .unset
  githubHost : Setting := .unset
  basePackage : Setting := .unset
  sourceRepo : Setting := .unset
  sourceOrg : Setting := .unset
  rulesFile : Setting := .unset
  targetOrg : Setting := .unset
  /-- Whether the older dependency manager is not wanted. -/
  skipGodep : Bool := false
  /-- Whether the newer dependency manager is not wanted. -/
  skipDep : Bool := false
  /-- Whether to describe the actions only. -/
  dryRun : Bool := false
  /-- Whether to log debugging records. -/
  verbose : Bool := false
  deriving DecidableEq, Repr, Inhabited

namespace Arguments

/-- The arguments as the log shows them. -/
def describe (a : Arguments) : String :=
  let path (s : String) := "PosixPath(" ++ Text.quoted (Path.ofString s).toString ++ ")"
  let flag (b : Bool) := if b then "True" else "False"
  let word (s : Setting) := s.describe Text.quoted (Text.quoted "")
  let entries :=
    [("config", a.config.describe path "None"), ("github_host", word a.githubHost),
     ("base_package", word a.basePackage), ("source_repo", word a.sourceRepo),
     ("source_org", word a.sourceOrg), ("rules_file", word a.rulesFile),
     ("target_org", word a.targetOrg), ("skip_godep", flag a.skipGodep),
     ("skip_dep", flag a.skipDep), ("dry_run", flag a.dryRun), ("verbose", flag a.verbose)]
  "Namespace(" ++ ", ".intercalate (entries.map fun (name, s) => name ++ "=" ++ s) ++ ")"

end Arguments

/-! ### The options -/

/-- What an option does. -/
inductive CommandOption.Action where
  /-- It shows the help. -/
  | help
  /-- It sets a flag. -/
  | flag (set : Arguments → Arguments)
  /-- It takes a value, which the help calls `placeholder`. -/
  | value (placeholder : String) (set : Setting → Arguments → Arguments)

/-- An option of the command line. -/
structure CommandOption where
  names : List String
  action : CommandOption.Action
  help : String

namespace CommandOption

/-- All names of the option, as messages show them. -/
def title (o : CommandOption) : String := "/".intercalate o.names

/-- **The options of the program.** -/
def all : List CommandOption :=
  [⟨["-h", "--help"], .help, "show this help message and exit"⟩,
   ⟨["--config"], .value "CONFIG" fun s a => { a with config := s },
    "The config file in yaml format."⟩,
   ⟨["--github-host"], .value "GITHUB_HOST" fun s a => { a with githubHost := s },
    "The address of github (defaults to github.com)."⟩,
   ⟨["--base-package"], .value "BASE_PACKAGE" fun s a => { a with basePackage := s },
    "The name of the package base (defaults to k8s.io when source repo is kubernetes, " ++
      "otherwise github-host/target-org)."⟩,
   ⟨["--source-repo"], .value "SOURCE_REPO" fun s a => { a with sourceRepo := s },
    "The name of the source repository (eg. kubernetes)."⟩,
   ⟨["--source-org"], .value "SOURCE_ORG" fun s a => { a with sourceOrg := s },
    "The name of the source repository organization (eg. kubernetes)."⟩,
   ⟨["--rules-file"], .value "RULES_FILE" fun s a => { a with rulesFile := s },
    "The file with repository rules."⟩,
   ⟨["--target-org"], .value "TARGET_ORG" fun s a => { a with targetOrg := s },
    "The target organization to publish into (e.g. \"k8s-publishing-bot\")."⟩,
   ⟨["--skip-godep"], .flag fun a => { a with skipGodep := true },
    "Skip godep installation and run godep-restore on a fresh source clone."⟩,
   ⟨["--skip-dep"], .flag fun a => { a with skipDep := true },
    "Skip dep installation."⟩,
   ⟨["--dry-run"], .flag fun a => { a with dryRun := true },
    "Describe the actions without running commands or mutating the filesystem."⟩,
   ⟨["--verbose"], .flag fun a => { a with verbose := true },
    "Enable debug logging."⟩]

end CommandOption

end Provision
