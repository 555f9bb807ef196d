/-
**Paths.**

A path is an anchor and a list of components.  Reading a path from text forgets what does not
matter: repeated slashes and components `.` vanish, so that two texts which differ only in these
give the same path.  A component `..` stays, because what it means depends on the links in the
file system.  A text that starts with exactly two slashes keeps them, any other number of leading
slashes counts as one.

Main definitions:

* `Provision.Path`, `Provision.Path.Anchor` — paths and where they start;
* `Provision.Path.ofString`, `Provision.Path.toString` — reading and printing;
* `Provision.Path.join`, `Provision.Path.child` — the path below another one;
* `Provision.Path.parent` — the path without its last component;
* `Provision.Path.textBelow` — the text of a path with one more name.
-/

import Provision.Text.Split
import Provision.Text.Utf8

set_option relaxedAutoImplicit false
set_option autoImplicit false

namespace Provision

/-- Where a path starts. -/
inductive Path.Anchor where
  /-- At the working directory. -/
  | relative
  /-- At the root directory, written with one slash. -/
  | root
  /-- At the root directory, written with two slashes. -/
  | doubleRoot
  deriving DecidableEq, Repr, Inhabited

/-- A path: an anchor and the components below it. -/
structure Path where
  anchor : Path.Anchor := .relative
  /-- The components, outermost first. -/
  parts : List String := []
  deriving DecidableEq, Repr, Inhabited

namespace Path

/-! ### Reading -/

/-- The pieces that count as components: neither empty nor a single dot. -/
def components (s : List Char) : List String :=
  ((Text.pieces '/' s).filter fun w => w ≠ [] ∧ w ≠ ['.']).map String.ofList

/-- The anchor that a text starts with. -/
def anchorOf : List Char → Anchor
  | '/' :: '/' :: '/' :: _ => .root
  | '/' :: '/' :: _ => .doubleRoot
  | '/' :: _ => .root
  | _ => .relative

/-- **Reads a path.** -/
def ofString (s : String) : Path := ⟨anchorOf (Text.chars s), components (Text.chars s)⟩

theorem ofString_eq (s : String) : ofString s = ⟨anchorOf s.toList, components s.toList⟩ := by
  rw [ofString, Text.chars_eq]

/-! ### Printing -/

/-- The text of an anchor. -/
def Anchor.text : Anchor → String
  | .relative => ""
  | .root => "/"
  | .doubleRoot => "//"

/-- **Prints a path.**  The relative path without components is the working directory, `.`. -/
def toString (p : Path) : String :=
  match p.anchor, p.parts with
  | .relative, [] => "."
  | a, ps => a.text ++ "/".intercalate ps

instance : ToString Path := ⟨Path.toString⟩

/-! ### Going down and up -/

/-- The path `q` seen from `p`: an absolute `q` replaces `p`. -/
def join (p q : Path) : Path :=
  match q.anchor with
  | .relative => ⟨p.anchor, p.parts ++ q.parts⟩
  | _ => q

/-- The path that the text `s` names below `p`. -/
def child (p : Path) (s : String) : Path := p.join (ofString s)

/-- The path without its last component; a path without components is its own parent. -/
def parent (p : Path) : Path := ⟨p.anchor, p.parts.dropLast⟩

/-- The text of a path with one more name, with one slash between them.  Unlike `child` this keeps
the text as it is. -/
def textBelow (directory name : String) : String :=
  if directory = "" ∨ directory.toList.getLast? = some '/' then directory ++ name
  else directory ++ "/" ++ name

theorem join_of_relative {p q : Path} (h : q.anchor = .relative) :
    p.join q = ⟨p.anchor, p.parts ++ q.parts⟩ := by
  simp [join, h]

theorem join_of_absolute {p q : Path} (h : q.anchor ≠ .relative) : p.join q = q := by
  unfold join
  split
  · contradiction
  · rfl

end Path

end Provision
