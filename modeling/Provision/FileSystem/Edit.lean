/-
**Edits of a file tree.**

What other programs do to the files is described by a list of edits: a directory is there
afterwards, a file holds a given content, a link is there unless something else is, or a path is
removed with all that is below it.  An edit never fails; one that cannot be done changes nothing.

Main definitions:

* `Provision.Edit` — one edit, its path relative to a base directory;
* `Provision.FileSystem.edit`, `Provision.FileSystem.edits` — the file system after one edit, and
  after a list of them.
-/

import Provision.FileSystem.Call

set_option relaxedAutoImplicit false
set_option autoImplicit false

namespace Provision

/-- One edit of a file tree. -/
inductive Edit where
  /-- The directory and those above it are there, unless something else is. -/
  | directory (path : String)
  /-- The file is there with this content, and the directories above it. -/
  | file (path : String) (content : ByteArray) (executable : Bool)
  /-- The link is there, unless something else is, and the directories above it. -/
  | link (path text : String)
  /-- Nothing is there. -/
  | remove (path : String)
  deriving Inhabited

namespace Edit

/-- The path that the edit is about. -/
def path : Edit → String
  | directory p | file p _ _ | link p _ | remove p => p

end Edit

namespace FileSystem

/-- The text of an absolute path to a location. -/
def absoluteText (p : Location) : String := "/" ++ "/".intercalate p

/-- The place where writing a file at `path` puts it: a link at the end is followed, also one that
leads nowhere.  `links` bounds the number of links. -/
def writePlace (fs : FileSystem) : Nat → String → Option Location
  | links, path =>
      match fs.place path .isDirectory with
      | .error _ => none
      | .ok there =>
          match fs.tree.get? there with
          | some .directory => none
          | some (.link text) =>
              match links with
              | 0 => none
              | links + 1 =>
                  if startsAtRoot text.toList then writePlace fs links text
                  else writePlace fs links (absoluteText there.dropLast ++ "/" ++ text)
          | _ => some there

/-- **The file system after one edit**, paths being relative to `base`. -/
def edit (fs : FileSystem) (base : Path) (e : Edit) : FileSystem :=
  let path := base.child e.path
  let present := (fs.lstat path.toString).isOk
  match e with
  | .directory _ => if present then fs else (fs.ensureDirectories path).1
  | .file _ content executable =>
      let fs := (fs.ensureDirectories path.parent).1
      match fs.writePlace maxLinks path.toString with
      | none => fs
      | some there => { fs with tree := fs.tree.put there (.file content executable) }
  | .link _ text =>
      let fs := (fs.ensureDirectories path.parent).1
      if present then fs
      else match fs.symlink text path.toString with
        | .ok fs' => fs'
        | .error _ => fs
  | .remove _ =>
      match fs.lstat path.toString with
      | .error _ => fs
      | .ok .directory => fs.removeTree path.toString
      | .ok _ =>
          match fs.unlink path.toString with
          | .ok fs' => fs'
          | .error _ => fs

/-- The file system after a list of edits, in order. -/
def edits (fs : FileSystem) (base : Path) (es : List Edit) : FileSystem :=
  es.foldl (fun fs e => fs.edit base e) fs

@[simp] theorem edits_nil (fs : FileSystem) (base : Path) : fs.edits base [] = fs := rfl

@[simp] theorem edits_cons (fs : FileSystem) (base : Path) (e : Edit) (es : List Edit) :
    fs.edits base (e :: es) = (fs.edit base e).edits base es := rfl

end FileSystem

end Provision
