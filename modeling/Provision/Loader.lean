/-
**Loading documents.**

Configuration and rules stand in files.  A file is read as text: its bytes are UTF-8, and every
line end becomes a line feed.  A file that cannot be opened and a document that cannot be read are
errors that name the file; a file that is no text, one that overruns what can be read, a path with a
NUL character and an unknown home directory are not expected.

Main definitions:

* `Provision.Loader.text` — the text in a file;
* `Provision.Loader.value` — the value of the document in a file;
* `Provision.loadConfig`, `Provision.loadRules` — **configuration and rules from files**.
-/

import Provision.Machine
import Provision.Text.Lines
import Provision.Yaml.Document

set_option relaxedAutoImplicit false
set_option autoImplicit false

namespace Provision

namespace Loader

/-- A path with its home directory filled in.  An account name with a NUL character cannot even be
looked up. -/
def expand (path : Path) : Step Path := do
  match path.expandHome (← get).homes with
  | some p => return p
  | none =>
      if '\x00' ∈ (path.parts.headD "").toList then throw .embeddedNull else throw .noHome

/-- The text that bytes encode, its line ends unified; none if they encode no text. -/
def decode? (bytes : ByteArray) : Option String :=
  (String.fromUTF8? bytes).map fun s => String.ofList (Text.unifyNewlines (Text.chars s))

/-- The text in a file; `unreadable` says what a failed system call means. -/
def text (path : Path) (unreadable : SystemError → Failure) : Step String := do
  match (← Step.files).read path.toString with
  | .error r => Step.refused r fun e => unreadable (.onPath e path.toString)
  | .ok bytes =>
      match decode? bytes with
      | some s => return s
      | none => throw .undecodable

/-- The value of the document in a file.  An overrun is not expected; `malformed` says what any
other fault means. -/
def value (path : Path) (unreadable : SystemError → Failure) (malformed : Yaml.Fault → Failure) :
    Step (Option Yaml.Value) := do
  match Yaml.parse (← text path unreadable) with
  | .ok v => return v
  | .error (.overrun o) => throw (.overrun o)
  | .error fault => throw (malformed fault)

end Loader

/-- **Loads the configuration from a file.** -/
def loadConfig (path : Path) : Step Config := do
  let path ← Loader.expand path
  let v ← Loader.value path (fun e => .config (.unreadable path e))
    (fun fault => .config (.malformed path fault))
  match Config.ofDocument path v with
  | .ok c => return c
  | .error e => throw (.config e)

/-- **Loads the rules from a file.** -/
def loadRules (path : Path) : Step (List RepositoryRule) := do
  let path ← Loader.expand path
  let v ← Loader.value path (fun e => .rules (.unreadable path e))
    (fun fault => .rules (.malformed path fault))
  match Rules.ofDocument path v with
  | .ok rules => return rules
  | .error e => throw (.rules e)

/-- The root of the workspace that an environment names: the first entry of `GOPATH`, else `go` in
the home directory. -/
def workspaceRoot (environment : Environment) : Step Path := do
  let first := String.ofList ((environment.value "GOPATH").toList.takeWhile (· ≠ ':'))
  if first ≠ "" then Loader.expand (Path.ofString first)
  else return (← Loader.expand (Path.ofString "~")).child "go"

end Provision
