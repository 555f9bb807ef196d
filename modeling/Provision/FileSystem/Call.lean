/-
**Calls on the file system.**

What the program does to files it does through the calls of this module: look at a path, read a
file, make a directory, remove a name, make a symbolic link, rename, and remove a whole directory.
Each call either answers or is refused, and a refused call leaves the file system as it was.  The
calls that look follow a link at the end of a path; the calls that change act on the link itself.

Main definitions:

* `Provision.FileSystem.stat`, `Provision.FileSystem.lstat` — what stands at a path;
* `Provision.FileSystem.found`, `Provision.FileSystem.isDirectory` — the two tests that take most
  failures for a no;
* `Provision.FileSystem.read` — the content of a file;
* `Provision.FileSystem.makeDirectory`, `Provision.FileSystem.ensureDirectories` — one directory, or
  all that are missing on the way;
* `Provision.FileSystem.unlink`, `Provision.FileSystem.symlink`, `Provision.FileSystem.rename`,
  `Provision.FileSystem.removeTree` — the other changes.
-/

import Provision.FileSystem.Walk

set_option relaxedAutoImplicit false
set_option autoImplicit false

namespace Provision

/-- Whether a refusal only says that there is nothing usable at the path. -/
def Refusal.saysNo : Refusal → Bool
  | .embeddedNull => true
  | .failed e => e = .noEntry ∨ e = .notDirectory ∨ e = .linkLoop

namespace FileSystem

/-! ### Looking -/

/-- The entry that a path leads to, with or without following a link at its end. -/
def entryAt (fs : FileSystem) (path : String) (follow : Bool) : Except Refusal Entry := do
  let there ← fs.resolve path follow
  match fs.tree.get? there with
  | some e => return e
  | none => throw (.failed .noEntry)

/-- **What a path leads to**, links followed. -/
def stat (fs : FileSystem) (path : String) : Except Refusal Entry := fs.entryAt path true

/-- What stands at a path, a link at its end not followed. -/
def lstat (fs : FileSystem) (path : String) : Except Refusal Entry := fs.entryAt path false

/-- **Whether a path leads to something.**  Only refusals that do not say no are passed on. -/
def found (fs : FileSystem) (path : String) : Except Refusal Bool :=
  match fs.stat path with
  | .ok _ => .ok true
  | .error r => if r.saysNo then .ok false else .error r

/-- Whether a path leads to a directory. -/
def isDirectory (fs : FileSystem) (path : String) : Except Refusal Bool :=
  match fs.stat path with
  | .ok e => .ok e.isDirectory
  | .error r => if r.saysNo then .ok false else .error r

/-- Whether a path leads to something other than a directory that may be executed. -/
def isExecutable (fs : FileSystem) (path : String) : Bool :=
  match fs.stat path with
  | .ok (.file _ executable) => executable
  | _ => false

/-- The content of the file that a path leads to. -/
def read (fs : FileSystem) (path : String) : Except Refusal ByteArray := do
  match ← fs.stat path with
  | .file content _ => return content
  | .directory => throw (.failed .isDirectory)
  | .link _ => throw (.failed .linkLoop)

/-! ### Changing -/

/-- The place at the end of a path where something is to be made or removed.  A path that ends
with `.` or `..` has none and is refused with `special`. -/
def place (fs : FileSystem) (path : String) (special : Errno) : Except Refusal Location := do
  match ← fs.locate path with
  | (_, none) => throw (.failed special)
  | (directory, some name) =>
      if maxNameBytes < name.utf8ByteSize then throw (.failed .nameTooLong)
      else return directory ++ [name]

/-- A free place at the end of a path. -/
def freePlace (fs : FileSystem) (path : String) : Except Refusal Location := do
  let there ← fs.place path .alreadyExists
  if fs.tree.contains there then throw (.failed .alreadyExists) else return there

/-- **Makes a directory.** -/
def makeDirectory (fs : FileSystem) (path : String) : Except Refusal FileSystem := do
  let there ← fs.freePlace path
  return { fs with tree := fs.tree.makeDirectory there }

/-- **Removes a name**, which may be anything but a directory. -/
def unlink (fs : FileSystem) (path : String) : Except Refusal FileSystem := do
  let there ← fs.place path .isDirectory
  match fs.tree.get? there with
  | none => throw (.failed .noEntry)
  | some .directory => throw (.failed .isDirectory)
  | some _ => return { fs with tree := fs.tree.erase there }

/-- **Makes a symbolic link** with the given text at a path. -/
def symlink (fs : FileSystem) (text path : String) : Except Refusal FileSystem := do
  if '\x00' ∈ text.toList ∨ '\x00' ∈ path.toList then throw .embeddedNull
  if text = "" then throw (.failed .noEntry)
  if maxPathBytes < text.utf8ByteSize then throw (.failed .nameTooLong)
  let there ← fs.freePlace path
  return { fs with tree := fs.tree.put there (.link text) }

/-- Why something cannot take the place of what is at `new`; none if it can.  Only one of the two
may not be a directory, and a directory that is replaced must be empty. -/
def obstacle? (t : Tree) (e : Entry) (new : Location) : Option Errno :=
  match t.get? new with
  | none => none
  | some e' =>
      if e.isDirectory && !e'.isDirectory then some .notDirectory
      else if !e.isDirectory && e'.isDirectory then some .isDirectory
      else if e'.isDirectory && t.hasBelow new then some .notEmpty
      else none

/-- Moves the entry `e` from `old` to `new`, unless one of the two lies in the other or something is
in the way.  The two directories are those that the paths lead to. -/
def moveEntry (fs : FileSystem) (e : Entry) (old new sourceDirectory targetDirectory : Location) :
    Except Refusal FileSystem :=
  if old.isPrefixOf targetDirectory then .error (.failed .invalidArgument)
  else if new.isPrefixOf sourceDirectory then .error (.failed .notEmpty)
  else if old = new then .ok fs
  else match obstacle? fs.tree e new with
    | some errno => .error (.failed errno)
    | none => .ok { fs with tree := fs.tree.move old new }

/-- **Renames** what stands at `source`.  It takes the place of what is at `target`, unless one of
the two lies in the other, only one of the two is a directory, or the target is a directory that is
not empty. -/
def rename (fs : FileSystem) (source target : String) : Except Refusal FileSystem :=
  if '\x00' ∈ source.toList ∨ '\x00' ∈ target.toList then .error .embeddedNull
  else do
    let (sourceDirectory, sourceName) ← fs.locate source
    let (targetDirectory, targetName) ← fs.locate target
    if sourceName = none ∨ targetName = none then throw (.failed .busy)
    else
      let old ← fs.place source .busy
      let e ← (fs.tree.get? old).elim (throw (.failed .noEntry)) pure
      let new ← fs.place target .busy
      fs.moveEntry e old new sourceDirectory targetDirectory

/-- **Removes a directory and everything below it.**  Nothing happens if the path does not end at
a directory; a link to one is left alone. -/
def removeTree (fs : FileSystem) (path : String) : FileSystem :=
  match fs.resolve path false with
  | .error _ => fs
  | .ok there =>
      match fs.tree.get? there with
      | some .directory => { fs with tree := fs.tree.eraseBelow there }
      | _ => fs

/-! ### Directories on the way -/

/-- Makes a directory, or accepts the one that is there.  A refusal is kept together with the path
that was refused; the flag tells whether the refusal says that the parent is missing. -/
def ensureDirectory (fs : FileSystem) (path : Path) :
    Except (Refusal × Path) FileSystem :=
  match fs.makeDirectory path.toString with
  | .ok fs' => .ok fs'
  | .error .embeddedNull => .error (.embeddedNull, path)
  | .error (.failed e) =>
      if e = .noEntry then .error (.failed e, path)
      else match fs.isDirectory path.toString with
        | .ok true => .ok fs
        | .ok false => .error (.failed e, path)
        | .error r => .error (r, path)

/-- Makes the directory at `path` after the directories above it, the outermost missing one first.
`depth` bounds the number of directories that are looked at above it.  What was made stays, also
if a later one is refused. -/
def ensureDirectoriesWithin : Nat → FileSystem → Path → FileSystem × Option (Refusal × Path)
  | depth, fs, path =>
      match fs.ensureDirectory path with
      | .ok fs' => (fs', none)
      | .error (.failed e, p) =>
          if e ≠ .noEntry ∨ path.parent = path then (fs, some (.failed e, p))
          else match depth with
            | 0 => (fs, some (.failed e, p))
            | depth + 1 =>
                match ensureDirectoriesWithin depth fs path.parent with
                | (fs', some r) => (fs', some r)
                | (fs', none) =>
                    match fs'.ensureDirectory path with
                    | .ok fs'' => (fs'', none)
                    | .error r => (fs', some r)
      | .error r => (fs, some r)

/-- **Makes a directory and all that are missing above it.** -/
def ensureDirectories (fs : FileSystem) (path : Path) : FileSystem × Option (Refusal × Path) :=
  ensureDirectoriesWithin path.parts.length fs path

end FileSystem

end Provision
