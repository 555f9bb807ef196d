/-
**Home directories in paths.**

A relative path whose first component starts with a tilde stands for a path in a home directory:
`~` for the home of the environment, `~name` for the home of an account.  Where the environment has
none, `~` is the home of the account that runs the program.  The component is replaced by the
components of that directory.

Main definitions:

* `Provision.Homes` — what is known about home directories;
* `Provision.Homes.directory?` — the home directory that a component names;
* `Provision.Path.expandHome` — the path with its home directory filled in.
-/

import Provision.Path.Basic

set_option relaxedAutoImplicit false
set_option autoImplicit false

namespace Provision

/-- The home directories: that of the environment, and those of the accounts by name. -/
structure Homes where
  /-- The value of `HOME`. -/
  own : Option String := none
  /-- Account names and their home directories; the account that runs the program also stands under
  the empty name. -/
  accounts : List (String × String) := []
  deriving Repr, Inhabited

namespace Homes

/-- A directory text without the slashes at its end; of slashes alone one is left. -/
def trimmed (s : String) : String :=
  let t := (s.toList.reverse.dropWhile (· = '/')).reverse
  if t = [] then "/" else String.ofList t

/-- The home directory that a tilde with `name` behind it stands for; without a name that of the
environment comes first. -/
def directory? (homes : Homes) (name : List Char) : Option String :=
  let account := homes.accounts.lookup (String.ofList name)
  (if name = [] then homes.own <|> account else account).map trimmed

end Homes

namespace Path

/-- **Fills in the home directory.**  There is none if the account is unknown, or if the home
directory itself starts with a tilde. -/
def expandHome (homes : Homes) (p : Path) : Option Path :=
  match p.anchor, p.parts with
  | .relative, first :: rest =>
      match first.toList with
      | '~' :: name =>
          match homes.directory? name with
          | none => none
          | some dir =>
              if dir.toList.head? = some '~' then none
              else
                let home := ofString dir
                some ⟨home.anchor, home.parts ++ rest⟩
      | _ => some p
  | _, _ => some p

end Path

end Provision
