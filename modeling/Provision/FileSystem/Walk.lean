/-
**Walking a path.**

A path is followed name by name from the root directory or from the working directory.  A name may
be at most 255 bytes long and must be looked up in a directory; `.` stays, `..` goes up, a
symbolic link continues with its text.  At most forty links are followed on the way.  Whether a
link at the very end is followed is up to the caller.

Main definitions:

* `Provision.FileSystem` — a tree together with a working directory;
* `Provision.Refusal` — why a path could not be used;
* `Provision.FileSystem.steps` — the names in the text of a path;
* `Provision.FileSystem.walkWith`, `Provision.FileSystem.walk` — the location a walk ends at;
* `Provision.FileSystem.resolve` — the location that a path leads to;
* `Provision.FileSystem.locate` — the directory and the name at the end of a path, for the calls
  that make, replace or remove what stands there.

Main results:

* `Provision.FileSystem.walk_nil`, `Provision.FileSystem.walk_directory` — a walk through
  directories ends where its names say.
-/

import Provision.FileSystem.Errno
import Provision.FileSystem.Tree
import Provision.Path.Basic

set_option relaxedAutoImplicit false
set_option autoImplicit false

namespace Provision

/-- A file tree and the directory that relative paths start from. -/
structure FileSystem where
  /-- What there is. -/
  tree : Tree := {}
  /-- Where relative paths start. -/
  workingDirectory : Location := []
  deriving DecidableEq, Inhabited

/-- Why a path could not be used. -/
inductive Refusal where
  /-- The path holds a NUL character and cannot be handed to the system. -/
  | embeddedNull
  /-- The system call failed. -/
  | failed (errno : Errno)
  deriving DecidableEq, Repr, Inhabited

namespace FileSystem

/-! ### Limits -/

/-- The most bytes of a name. -/
def maxNameBytes : Nat := 255

/-- The most bytes of a path. -/
def maxPathBytes : Nat := 4095

/-- The most links that one walk follows. -/
def maxLinks : Nat := 40

/-! ### Walking -/

/-- The names in the text of a path.  A slash at the end asks for a directory, as a final `.`
does. -/
def steps (s : List Char) : List String :=
  let pieces := Text.pieces '/' s
  let names := pieces.filter (· ≠ [])
  (if pieces.getLast? = some [] then names ++ [['.']] else names).map String.ofList

/-- Whether a text starts at the root directory. -/
def startsAtRoot (s : List Char) : Bool := s.head? = some '/'

/-- Walks `names` from the directory `here`.  `jump` continues the walk behind a link; a link at
the end is followed only if `follow` is set. -/
def walkWith (t : Tree) (follow : Bool)
    (jump : Location → List String → Except Errno Location) :
    Location → List String → Except Errno Location
  | here, [] => .ok here
  | here, name :: rest =>
      if name = "." then walkWith t follow jump here rest
      else if name = ".." then walkWith t follow jump here.dropLast rest
      else if maxNameBytes < name.utf8ByteSize then .error .nameTooLong
      else match t.get? (here ++ [name]) with
        | none => .error .noEntry
        | some .directory => walkWith t follow jump (here ++ [name]) rest
        | some (.file _ _) =>
            if rest = [] then .ok (here ++ [name]) else .error .notDirectory
        | some (.link text) =>
            if rest = [] ∧ follow = false then .ok (here ++ [name])
            else jump (if startsAtRoot text.toList then [] else here) (steps text.toList ++ rest)

/-- Walks `names` from the directory `here`, following at most `links` links. -/
def walk (t : Tree) (follow : Bool) : Nat → Location → List String → Except Errno Location
  | 0 => walkWith t follow fun _ _ => .error .linkLoop
  | links + 1 => walkWith t follow (walk t follow links)

@[simp] theorem walk_nil (t : Tree) (follow : Bool) (links : Nat) (here : Location) :
    walk t follow links here [] = .ok here := by
  cases links <;> simp [walk, walkWith]

/-- A name that may be looked up: not too long, and neither `.` nor `..`. -/
def IsName (name : String) : Prop :=
  name ≠ "." ∧ name ≠ ".." ∧ name.utf8ByteSize ≤ maxNameBytes

/-- **A directory on the way is entered.** -/
theorem walk_directory {t : Tree} {follow : Bool} {links : Nat} {here : Location} {name : String}
    {rest : List String} (hn : IsName name) (hd : t.get? (here ++ [name]) = some .directory) :
    walk t follow links here (name :: rest) = walk t follow links (here ++ [name]) rest := by
  obtain ⟨h1, h2, h3⟩ := hn
  have h3' : ¬maxNameBytes < name.utf8ByteSize := by omega
  cases links <;> simp [walk, walkWith, h1, h2, h3', hd]

/-- Nothing on the way ends the walk. -/
theorem walk_missing {t : Tree} {follow : Bool} {links : Nat} {here : Location} {name : String}
    {rest : List String} (hn : IsName name) (hd : t.get? (here ++ [name]) = none) :
    walk t follow links here (name :: rest) = .error .noEntry := by
  obtain ⟨h1, h2, h3⟩ := hn
  have h3' : ¬maxNameBytes < name.utf8ByteSize := by omega
  cases links <;> simp [walk, walkWith, h1, h2, h3', hd]

/-! ### Paths as the system takes them -/

/-- Checks the text of a path and gives the place where it starts and its names. -/
def enter (fs : FileSystem) (path : String) : Except Refusal (Location × List String) :=
  if '\x00' ∈ Text.chars path then .error .embeddedNull
  else if path = "" then .error (.failed .noEntry)
  else if maxPathBytes < path.utf8ByteSize then .error (.failed .nameTooLong)
  else .ok (if startsAtRoot (Text.chars path) then [] else fs.workingDirectory, steps (Text.chars path))

theorem enter_eq (fs : FileSystem) (path : String) :
    fs.enter path =
      if '\x00' ∈ path.toList then .error .embeddedNull
      else if path = "" then .error (.failed .noEntry)
      else if maxPathBytes < path.utf8ByteSize then .error (.failed .nameTooLong)
      else .ok (if startsAtRoot path.toList then [] else fs.workingDirectory, steps path.toList) := by
  rw [enter, Text.chars_eq]

/-- **The location that a path leads to.** -/
def resolve (fs : FileSystem) (path : String) (follow : Bool) : Except Refusal Location := do
  let (start, names) ← fs.enter path
  (walk fs.tree follow maxLinks start names).mapError .failed

/-- The directory at which a path ends, and the name it ends with there; no name if the path ends
with `.` or `..`. -/
def locate (fs : FileSystem) (path : String) : Except Refusal (Location × Option String) := do
  let (start, names) ← fs.enter path
  -- a final dot makes the walk fail unless everything before it leads to a directory
  let directory ←
    (walk fs.tree true maxLinks start (names.dropLast ++ ["."])).mapError .failed
  match names.getLast? with
  | none => return (directory, none)
  | some name => return (directory, if name = "." ∨ name = ".." then none else some name)

end FileSystem

end Provision
