/-
**Replacing the link.**

The link to a distribution is made by two calls.  The first one removes what is in its place, and
whether it fails does not matter; the second one makes the link.  If only the second one failed, the old
link would be lost.  This cannot happen: the second call fails exactly if the root is no directory that
can be found, or if a directory stands in the place of the link, and in neither case can the first call
have removed anything.

In between there is nothing in the place of the link, so that the root must not be found by way of it.

Main definitions:

* `Provision.FileSystem.Meets` — a walk looks at a location;
* `Provision.FileSystem.ReachesApart` — a path leads to a directory, whatever is at a location;
* `Provision.Toolchain.Barred` — there is no room for the link;
* `Provision.Toolchain.Replaces` — **the link is in its place, and all else is as it was**.

Main results:

* `Provision.FileSystem.walk_congr` — a walk that does not look at a location does not depend on it;
* `Provision.FileSystem.walk_dot_of_directory` — a walk to a directory may have a dot behind it;
* `Provision.FileSystem.symlink_barred`, `Provision.FileSystem.symlink_cleared` — what the two calls
  come to;
* `Provision.Toolchain.link_is_replaced_or_kept` — **the link is replaced, or nothing is changed**.
-/

import Provision.Proofs.Clearing
import Provision.Proofs.Layouts
import Provision.Proofs.Refusals
import Provision.Proofs.Roots
import Provision.Proofs.Routes

set_option relaxedAutoImplicit false
set_option autoImplicit false

namespace Provision

/-! ### Putting an entry twice -/

namespace Tree

variable (t : Tree) (p : Location)

/-- What is put somewhere takes the place of what is there, so that this need not be removed. -/
theorem put_erase (e : Entry) : (t.erase p).put p e = t.put p e := by
  simp [put, erase]

theorem put_put (e e' : Entry) : (t.put p e).put p e' = t.put p e' := by
  simp [put]

end Tree

namespace FileSystem

variable {t t' : Tree} {q here there : Location} {names : List String} {follow : Bool}

/-! ### Walks that do not look at a location -/

/-- **A walk along the names looks at `q`.** -/
inductive Meets (t : Tree) (q : Location) : Location → List String → Prop where
  | found {here : Location} {name : String} {rest : List String} (isName : IsName name)
      (place : here ++ [name] = q) : Meets t q here (name :: rest)
  | stay {here : Location} {rest : List String} (next : Meets t q here rest) :
      Meets t q here ("." :: rest)
  | up {here : Location} {rest : List String} (next : Meets t q here.dropLast rest) :
      Meets t q here (".." :: rest)
  | enter {here : Location} {name : String} {rest : List String} (isName : IsName name)
      (directory : t.get? (here ++ [name]) = some .directory)
      (next : Meets t q (here ++ [name]) rest) : Meets t q here (name :: rest)
  | link {here : Location} {name text : String} {rest : List String} (isName : IsName name)
      (found : t.get? (here ++ [name]) = some (.link text))
      (next : Meets t q (linkOrigin here text) (steps text.toList ++ rest)) :
      Meets t q here (name :: rest)

/-- What a walk along a name looks at: the name in the directory, and what comes after it. -/
theorem Meets.of_name {name : String} {rest : List String} (hname : IsName name)
    (h : Meets t q here (name :: rest)) : here ++ [name] = q ∨
      (t.get? (here ++ [name]) = some .directory ∧ Meets t q (here ++ [name]) rest) ∨
      ∃ text, t.get? (here ++ [name]) = some (.link text) := by
  cases h with
  | found _ place => exact .inl place
  | stay next => exact absurd rfl hname.1
  | up next => exact absurd rfl hname.2.1
  | enter _ directory next => exact .inr (.inl ⟨directory, next⟩)
  | link _ found next => exact .inr (.inr ⟨_, found⟩)

/-- A dot at the end is not looked at. -/
theorem Meets.of_dot {dotted : List String} (h : Meets t q here dotted)
    (hdotted : dotted = names ++ ["."]) : Meets t q here names := by
  induction h generalizing names with
  | found isName place =>
      obtain ⟨-, hend⟩ | ⟨names, rfl, -⟩ := List.cons_eq_append_iff.1 hdotted
      · exact absurd (List.cons.inj hend).1.symm isName.1
      · exact .found isName place
  | stay next ih =>
      obtain ⟨-, hend⟩ | ⟨names, rfl, hrest⟩ := List.cons_eq_append_iff.1 hdotted
      · obtain rfl := (List.cons.inj hend).2
        nomatch next
      · exact .stay (ih hrest)
  | up next ih =>
      obtain ⟨-, hend⟩ | ⟨names, rfl, hrest⟩ := List.cons_eq_append_iff.1 hdotted
      · simp at hend
      · exact .up (ih hrest)
  | enter isName directory next ih =>
      obtain ⟨-, hend⟩ | ⟨names, rfl, hrest⟩ := List.cons_eq_append_iff.1 hdotted
      · exact absurd (List.cons.inj hend).1.symm isName.1
      · exact .enter isName directory (ih hrest)
  | link isName found next ih =>
      obtain ⟨-, hend⟩ | ⟨names, rfl, rfl⟩ := List.cons_eq_append_iff.1 hdotted
      · exact absurd (List.cons.inj hend).1.symm isName.1
      · exact .link isName found (ih (by rw [List.append_assoc]))

theorem walkWith_congr (ht : ∀ p, p ≠ q → t'.get? p = t.get? p) {jump jump' : Jump}
    (hj : ∀ here names, ¬Meets t q here names → jump' here names = jump here names)
    (here : Location) (names : List String) (h : ¬Meets t q here names) :
    walkWith t' follow jump' here names = walkWith t follow jump here names := by
  induction names generalizing here with
  | nil => rfl
  | cons n names ih =>
      simp only [walkWith]
      by_cases hdot : n = "."
      · subst hdot
        simp only [if_true]
        exact ih here fun hmeets => h (.stay hmeets)
      by_cases hdots : n = ".."
      · subst hdots
        simp only [hdot, if_true, if_false]
        exact ih here.dropLast fun hmeets => h (.up hmeets)
      by_cases hlong : maxNameBytes < n.utf8ByteSize
      · simp [hdot, hdots, hlong]
      have hname : IsName n := ⟨hdot, hdots, by omega⟩
      simp only [hdot, hdots, hlong, if_false]
      rw [ht _ fun hq => h (.found hname hq)]
      cases hget : t.get? (here ++ [n]) with
      | none => rfl
      | some e =>
          cases e with
          | directory => exact ih (here ++ [n]) fun hmeets => h (.enter hname hget hmeets)
          | file content executable => rfl
          | link text =>
              dsimp only
              split
              · rfl
              · exact hj _ _ fun hmeets => h (.link hname hget hmeets)

/-- **A walk that does not look at a location is the same in a tree that differs only there.** -/
theorem walk_congr (ht : ∀ p, p ≠ q → t'.get? p = t.get? p) (links : Nat) (here : Location)
    (names : List String) (h : ¬Meets t q here names) :
    walk t' follow links here names = walk t follow links here names := by
  induction links generalizing here names with
  | zero => exact walkWith_congr ht (fun _ _ _ => rfl) here names h
  | succ links ih => exact walkWith_congr ht ih here names h

/-! ### Walks to a directory -/

theorem walkWith_dot_of_directory {jump : Jump}
    (hj : ∀ here names there, jump here names = .ok there → t.get? there = some .directory →
      jump here (names ++ ["."]) = .ok there)
    (here : Location) (names : List String) (h : walkWith t true jump here names = .ok there)
    (hdirectory : t.get? there = some .directory) :
    walkWith t true jump here (names ++ ["."]) = .ok there := by
  induction names generalizing here with
  | nil => simpa [walkWith] using h
  | cons n names ih =>
      simp only [List.cons_append, walkWith] at h ⊢
      by_cases hdot : n = "."
      · simp only [hdot, if_true] at h ⊢
        exact ih here h
      by_cases hdots : n = ".."
      · simp only [hdots] at h ⊢
        exact ih here.dropLast h
      by_cases hlong : maxNameBytes < n.utf8ByteSize
      · simp [hdot, hdots, hlong] at h
      simp only [hdot, hdots, hlong, if_false] at h ⊢
      cases hget : t.get? (here ++ [n]) with
      | none => simp [hget] at h
      | some e =>
          rw [hget] at h
          cases e with
          | directory => exact ih (here ++ [n]) h
          | file content executable =>
              -- a file can only be the end, and the end is a directory
              by_cases hrest : names = []
              · simp only [hrest, if_true] at h
                obtain rfl : here ++ [n] = there := by simpa using h
                simp [hget] at hdirectory
              · simp [hrest] at h
          | link text =>
              simp only [Bool.true_eq_false, and_false, if_false] at h ⊢
              rw [← List.append_assoc]
              exact hj _ _ there h hdirectory

/-- **A walk that ends at a directory may have a dot behind it.** -/
theorem walk_dot_of_directory {links : Nat} (h : walk t true links here names = .ok there)
    (hdirectory : t.get? there = some .directory) :
    walk t true links here (names ++ ["."]) = .ok there := by
  induction links generalizing here names there with
  | zero => exact walkWith_dot_of_directory (fun _ _ _ h => by simp at h) here names h hdirectory
  | succ links ih =>
      exact walkWith_dot_of_directory (fun _ _ _ h hdirectory => ih h hdirectory) here names h
        hdirectory

variable {fs fs' : FileSystem} {p : Path} {text w : String}

/-- **A path that can be entered leads to a directory exactly if that directory is found there.** -/
theorem stat_directory_iff (hfs : fs.WellFormed) (hp : p.Clean)
    {entered : Location × List String} (henter : fs.enter p.toString = .ok entered) :
    fs.stat p.toString = .ok .directory ↔ ∃ here, fs.reach p = .ok here := by
  obtain ⟨start, names⟩ := entered
  obtain ⟨rfl, hnames⟩ := enter_toString hp henter
  constructor
  · intro h
    obtain ⟨there, hresolve, hget⟩ := get?_of_stat h
    obtain ⟨start, names', henter', hwalk⟩ := exists_enter_of_resolve hresolve
    obtain ⟨rfl, rfl⟩ : _ = start ∧ names = names' := by simpa [henter] using henter'
    rw [hnames] at hwalk
    exact ⟨there, walk_dot_of_directory hwalk hget⟩
  · rintro ⟨here, hreach⟩
    have hwalk : walk fs.tree true maxLinks (fs.origin p.anchor) names = .ok here := by
      rw [hnames]
      exact walk_of_walk_dot hreach
    exact stat_of_get? (resolve_of_walk henter hwalk) (hfs.get?_of_reach hreach)

/-! ### A name in a directory -/

/-- A text that is short enough and holds no NUL character is entered. -/
theorem exists_enter (hnull : '\x00' ∉ text.toList) (hne : text ≠ "")
    (hlong : text.utf8ByteSize ≤ maxPathBytes) : ∃ entered, fs.enter text = .ok entered :=
  ⟨_, by rw [enter_eq, if_neg hnull, if_neg hne, if_neg (Nat.not_lt.2 hlong)]⟩

section

variable (hp : p.Clean) (hw : Path.IsPart w) {entered : Location × List String}
  (henter : fs.enter (p.child w).toString = .ok entered)
include hp hw henter

/-- Where a name below a path can be entered, the path can be. -/
theorem exists_enter_of_child : ∃ entered, fs.enter p.toString = .ok entered := by
  by_cases hparts : p.parts = []
  -- such a path has a text of its own
  · obtain ⟨anchor, parts⟩ := p
    obtain rfl : parts = [] := hparts
    refine exists_enter ?_ (Path.toString_ne_empty hp) ?_ <;> cases anchor <;> decide
  · refine exists_enter_of_part (Path.toString_ne_empty hp) ⟨"", "/" ++ w, ?_⟩ henter
    rw [Path.toString_child p hw, Path.toString_eq, Path.written, if_neg (by simp [hparts]),
      String.intercalate_append_of_ne_nil hparts (by simp)]
    simp [String.append_assoc]

/-- Where the path leads to no directory, there is no place below it. -/
theorem place_of_reach_error {e : Errno} (hreach : fs.reach p = .error e) (special : Errno) :
    fs.place (p.child w).toString special = .error (.failed e) := by
  obtain ⟨start, names⟩ := entered
  have htext := henter
  rw [Path.toString_child p hw] at htext
  obtain ⟨rfl, rfl⟩ := enter_text (by simp) (hp.parts.concat hw) htext
  have hwalk : walk fs.tree true maxLinks (fs.origin p.anchor) (p.parts ++ ["."]) = .error e := hreach
  simp [place, locate, henter, hwalk, bind, Except.bind]

/-- **The two calls fail where the path leads to no directory, or to one that holds a directory of the
name**; and then the first one has removed nothing. -/
theorem symlink_barred (hname : IsName w) {target : String} (hnull : '\x00' ∉ target.toList)
    (hbarred : ∀ here, fs.reach p = .ok here → fs.tree.get? (here ++ [w]) = some .directory) :
    fs.cleared (p.child w).toString = fs ∧
      ∃ e, fs.symlink target (p.child w).toString = .error (.failed e) := by
  have hnulls : ¬('\x00' ∈ target.toList ∨ '\x00' ∈ (p.child w).toString.toList) :=
    not_or.2 ⟨hnull, (enter_eq_ok henter).1⟩
  -- whatever is wrong with the text of the link, the call fails
  have hfails : ∀ {e : Errno}, fs.freePlace (p.child w).toString = .error (.failed e) →
      ∃ e, fs.symlink target (p.child w).toString = .error (.failed e) := by
    intro e hfree
    unfold symlink
    dsimp only
    rw [if_neg hnulls]
    split
    · exact ⟨_, rfl⟩
    split
    · exact ⟨_, rfl⟩
    · exact ⟨e, by rw [hfree]; rfl⟩
  cases hreach : fs.reach p with
  | error e =>
      have hplace := place_of_reach_error hp hw henter hreach
      refine ⟨?_, hfails (e := e) ?_⟩
      · simp [cleared, unlink, hplace, bind, Except.bind]
      · simp [freePlace, hplace, bind, Except.bind]
  | ok here =>
      have hplace := (leadsTo_child hp hw hname henter hreach).place
      have hget := hbarred here hreach
      refine ⟨?_, hfails (e := .alreadyExists) ?_⟩
      · simp only [cleared, unlink, hplace, hget, bind, Except.bind]
        rfl
      · simp only [freePlace, hplace, Tree.contains, hget, bind, Except.bind]
        rfl

end

/-- The files with a link at a location. -/
def putLink (fs : FileSystem) (q : Location) (text : String) : FileSystem :=
  { fs with tree := fs.tree.put q (.link text) }

theorem get?_putLink (fs : FileSystem) (hq : q ≠ []) (text : String) :
    (fs.putLink q text).tree.get? q = some (.link text) := by
  rw [putLink, Tree.get?_put _ hq, if_pos rfl]

theorem get?_putLink_of_ne (fs : FileSystem) (hq : q ≠ []) (text : String) {r : Location}
    (hr : r ≠ q) : (fs.putLink q text).tree.get? r = fs.tree.get? r := by
  rw [putLink, Tree.get?_put _ hq, if_neg hr]

theorem putLink_putLink (fs : FileSystem) (text : String) :
    (fs.putLink q text).putLink q text = fs.putLink q text := by
  simp [putLink, Tree.put_put]

/-- A link can be made where nothing is. -/
theorem LeadsTo.symlink_of_missing {target : String} (h : fs.LeadsTo text here w)
    (hnone : fs.tree.get? (here ++ [w]) = none) (hnull : '\x00' ∉ target.toList)
    (hne : target ≠ "") (hlong : target.utf8ByteSize ≤ maxPathBytes) :
    fs.symlink target text = .ok (fs.putLink (here ++ [w]) target) := by
  obtain ⟨start, names, henter, -⟩ := h.enter
  have hnulls : ¬('\x00' ∈ target.toList ∨ '\x00' ∈ text.toList) :=
    not_or.2 ⟨hnull, (enter_eq_ok henter).1⟩
  unfold FileSystem.symlink
  rw [if_neg hnulls, if_neg hne, if_neg (Nat.not_lt.2 hlong), freePlace, h.place]
  simp [bind, Except.bind, pure, Except.pure, Tree.contains, hnone, putLink]

/-- **The path leads to the directory `here`, whatever is at `q`.** -/
def ReachesApart (fs : FileSystem) (p : Path) (q here : Location) : Prop :=
  ∀ t', (∀ r, r ≠ q → t'.get? r = fs.tree.get? r) → reach { fs with tree := t' } p = .ok here

/-- A path that does not meet a location leads where it leads whatever is there. -/
theorem reachesApart_of_not_meets (hreach : fs.reach p = .ok here)
    (h : ¬Meets fs.tree q (fs.origin p.anchor) p.parts) : fs.ReachesApart p q here := by
  intro t' ht
  rw [← hreach]
  exact walk_congr ht _ _ _ fun hmeets => h (hmeets.of_dot rfl)

theorem ReachesApart.reach (h : fs.ReachesApart p q here) : fs.reach p = .ok here :=
  h fs.tree fun _ _ => rfl

/-- A link that is put at the location does not matter either. -/
theorem ReachesApart.putLink (h : fs.ReachesApart p q here) (hq : q ≠ []) (text : String) :
    (fs.putLink q text).ReachesApart p q here := by
  intro t' ht
  refine h t' fun r hr => ?_
  rw [ht r hr, fs.get?_putLink_of_ne hq text hr]

/-- **The two calls put the link where there is no directory**, if the path does not depend on what is
there. -/
theorem symlink_cleared (hp : p.Clean) (hw : Path.IsPart w) (hname : IsName w)
    {entered : Location × List String} (henter : fs.enter (p.child w).toString = .ok entered)
    (hapart : fs.ReachesApart p (here ++ [w]) here)
    (hroom : fs.tree.get? (here ++ [w]) ≠ some .directory) {target : String}
    (hnull : '\x00' ∉ target.toList) (hne : target ≠ "")
    (hlong : target.utf8ByteSize ≤ maxPathBytes) :
    (fs.cleared (p.child w).toString).symlink target (p.child w).toString =
      .ok (fs.putLink (here ++ [w]) target) := by
  have hleads := leadsTo_child hp hw hname henter hapart.reach
  cases hget : fs.tree.get? (here ++ [w]) with
  | none =>
      have hsame : fs.cleared (p.child w).toString = fs := by
        simp only [cleared, unlink, hleads.place, hget, bind, Except.bind]
        rfl
      rw [hsame]
      exact hleads.symlink_of_missing hget hnull hne hlong
  | some e =>
      have he : e ≠ .directory := by
        rintro rfl
        exact hroom hget
      have hcleared : fs.cleared (p.child w).toString =
          { fs with tree := fs.tree.erase (here ++ [w]) } := by
        rw [cleared, hleads.unlink hget he]
      have hother : ∀ r, r ≠ here ++ [w] →
          (fs.tree.erase (here ++ [w])).get? r = fs.tree.get? r := by
        intro r hr
        rw [Tree.get?_erase _ (by simp), if_neg hr]
      -- the same directory is found without the entry, and now there is room in it
      have hleads' : LeadsTo { fs with tree := fs.tree.erase (here ++ [w]) }
          (p.child w).toString here w := leadsTo_child hp hw hname henter (hapart _ hother)
      have hnone : (fs.tree.erase (here ++ [w])).get? (here ++ [w]) = none := by
        rw [Tree.get?_erase _ (by simp), if_pos rfl]
      rw [hcleared, hleads'.symlink_of_missing hnone hnull hne hlong]
      rw [putLink, Tree.put_erase]
      rfl

end FileSystem

/-! ### The text of the link -/

namespace Layout

/-- The path of a distribution goes on with a name that begins as the names of distributions do. -/
theorem exists_parts_goDir (layout : Layout) (version : String) :
    ∃ w rest, layout.goDir version =
      ⟨layout.root.anchor, layout.root.parts ++ ("go-" ++ w) :: rest⟩ := by
  cases hpieces : Text.pieces '/' version.toList with
  | nil => exact absurd hpieces (Text.pieces_ne_nil _ _)
  | cons w rest =>
      have hread : (Path.ofString ("go-" ++ version)).parts =
          String.ofList ('g' :: 'o' :: '-' :: w) ::
            (rest.filter fun w => w ≠ [] ∧ w ≠ ['.']).map String.ofList := by
        simp [Path.ofString, Path.components, Text.pieces, hpieces]
      have hname : String.ofList ('g' :: 'o' :: '-' :: w) = "go-" ++ String.ofList w := by
        simp [← String.toList_inj]
      refine ⟨String.ofList w, (rest.filter fun w => w ≠ [] ∧ w ≠ ['.']).map String.ofList, ?_⟩
      rw [goDir, Path.child, Path.join_of_relative (relative_goName version), hread, hname]

/-- The text of the link is longer than its own path. -/
theorem size_goLink_le (layout : Layout) (version : String) :
    layout.goLink.toString.utf8ByteSize ≤ (layout.goDir version).toString.utf8ByteSize := by
  obtain ⟨w, rest, hgoDir⟩ := layout.exists_parts_goDir version
  have hlast : ("go").utf8ByteSize ≤ ("/".intercalate (("go-" ++ w) :: rest)).utf8ByteSize := by
    have hname : ("go").utf8ByteSize ≤ ("go-" ++ w).utf8ByteSize := by
      rw [String.utf8ByteSize_append]
      exact Nat.le_add_right_of_le (by decide)
    cases rest with
    | nil => rwa [String.intercalate_singleton]
    | cons v rest =>
        rw [String.intercalate_cons_cons, String.utf8ByteSize_append, String.utf8ByteSize_append]
        omega
  rw [hgoDir, goLink, Path.toString_child _ Toolchain.isPart_go, Path.toString_eq, Path.written,
    if_neg (by simp), String.utf8ByteSize_append, String.utf8ByteSize_append]
  refine Nat.add_le_add_left ?_ _
  dsimp only
  by_cases hparts : layout.root.parts = []
  · rw [hparts, List.nil_append, List.nil_append, String.intercalate_singleton]
    exact hlast
  · rw [String.intercalate_append_of_ne_nil hparts (by simp),
      String.intercalate_append_of_ne_nil hparts (by simp), String.intercalate_singleton]
    simp only [String.utf8ByteSize_append]
    exact Nat.add_le_add_left hlast _

/-- Without a NUL character in the root and in the version there is none in the path of the
distribution, -/
theorem null_not_mem_goDir {layout : Layout} {version : String}
    (hroot : '\x00' ∉ layout.root.toString.toList) (hversion : '\x00' ∉ version.toList) :
    '\x00' ∉ (layout.goDir version).toString.toList := by
  rw [Path.null_mem_toString] at hroot ⊢
  rw [goDir, Path.child, Path.join_of_relative (relative_goName version)]
  rintro ⟨w, hw, hnull⟩
  rcases List.mem_append.1 hw with hw | hw
  · exact hroot ⟨w, hw, hnull⟩
  · have hname := Path.holdsNull_ofString.1 ⟨w, hw, hnull⟩
    simp [hversion] at hname

/-- nor in that of the link. -/
theorem null_not_mem_goLink {layout : Layout} (hroot : '\x00' ∉ layout.root.toString.toList) :
    '\x00' ∉ layout.goLink.toString.toList := by
  rw [Path.null_mem_toString] at hroot ⊢
  exact fun h => hroot (Path.holdsNull_of_child Toolchain.isPart_go (by decide) h)

end Layout

/-! ### The link -/

namespace Toolchain

open Step

/-- **There is no room for the link**: the root is no directory that can be found, or a directory stands
in the place of the link. -/
def Barred (layout : Layout) (fs : FileSystem) : Prop :=
  fs.stat layout.root.toString ≠ .ok .directory ∨ fs.lstat layout.goLink.toString = .ok .directory

/-- The root is not found by way of the link. -/
def RootApart (layout : Layout) (fs : FileSystem) : Prop :=
  ∀ here, fs.reach layout.root = .ok here →
    ¬FileSystem.Meets fs.tree (here ++ ["go"]) (fs.origin layout.root.anchor) layout.root.parts

/-- **The link is in its place**, in the directory that the root leads to, **and all else is as it
was**. -/
structure Replaces (layout : Layout) (version : String) (here : Location) (fs fs' : FileSystem) :
    Prop where
  root : fs.resolve layout.root.toString true = .ok here
  link : fs'.lstat layout.goLink.toString = .ok (.link (layout.goDir version).toString)
  place : fs'.tree.get? (here ++ ["go"]) = some (.link (layout.goDir version).toString)
  others : ∀ q, q ≠ here ++ ["go"] → fs'.tree.get? q = fs.tree.get? q
  workingDirectory : fs'.workingDirectory = fs.workingDirectory

/-- The failure to make the link. -/
def unlinkable (layout : Layout) (version : String) (e : Errno) : Failure :=
  .toolchain (.unlinkable layout.goLink (layout.goDir version)
    (.onPaths e (layout.goDir version).toString layout.goLink.toString))

/-- **Making the link is the two calls**, and its outcome that of the second one. -/
theorem perform_linkDefault {layout : Layout} {version : String} (m : Machine)
    (hlink : '\x00' ∉ layout.goLink.toString.toList)
    (htarget : '\x00' ∉ (layout.goDir version).toString.toList) :
    ∃ records, (linkDefault layout version).perform m =
      match (m.files.cleared layout.goLink.toString).symlink (layout.goDir version).toString
          layout.goLink.toString with
      | .ok fs => (.ok layout.goLink, { m with log := m.log ++ records, files := fs })
      | .error (.failed e) => (.error (unlinkable layout version e), { m with
          log := m.log ++ records
          files := m.files.cleared layout.goLink.toString })
      | .error .embeddedNull => (.error .embeddedNull, m) := by
  obtain ⟨r, records, hclear, hr⟩ := perform_clearLink layout m
  have hok : r = .ok () := hr.resolve_right fun h => hlink (FileSystem.null_of_unlink h.2)
  subst hok
  rw [linkDefault]
  dsimp only
  rw [if_neg (by decide), perform_bind_ok hclear, perform_bind_ok (perform_files _)]
  dsimp only
  cases hsymlink : (m.files.cleared layout.goLink.toString).symlink
      (layout.goDir version).toString layout.goLink.toString with
  | ok fs => exact ⟨records ++ [_], by rw [← List.append_assoc]; rfl⟩
  | error r =>
      cases r with
      | failed e => exact ⟨records, rfl⟩
      | embeddedNull =>
          exact absurd (FileSystem.null_of_symlink hsymlink) (not_or.2 ⟨htarget, hlink⟩)

theorem isName_go : FileSystem.IsName "go" := ⟨by decide, by decide, by decide⟩

section

variable {layout : Layout} {version : String} {fs : FileSystem} (hroot : layout.root.Clean)
  (hnull : '\x00' ∉ layout.root.toString.toList)
  (hlong : (layout.goDir version).toString.utf8ByteSize ≤ FileSystem.maxPathBytes)
include hroot hnull hlong

theorem enter_goLink (fs : FileSystem) : ∃ entered, fs.enter layout.goLink.toString = .ok entered :=
  FileSystem.exists_enter (Layout.null_not_mem_goLink hnull)
    (Path.toString_ne_empty (hroot.child isPart_go)) (Nat.le_trans (layout.size_goLink_le version) hlong)

omit hnull hlong in
theorem goDir_ne_empty : (layout.goDir version).toString ≠ "" := by
  have hlink := Path.toString_ne_empty (hroot.child isPart_go)
  intro hempty
  have hsize := layout.size_goLink_le version
  rw [hempty] at hsize
  exact hlink (String.utf8ByteSize_eq_zero_iff.1 (Nat.le_zero.1 hsize))

/-- There is no room exactly if the root leads to no directory or to one that holds a directory in the
place of the link. -/
theorem barred_iff (hfs : fs.WellFormed) : Barred layout fs ↔
    ∀ here, fs.reach layout.root = .ok here →
      fs.tree.get? (here ++ ["go"]) = some .directory := by
  obtain ⟨entered, henter⟩ := enter_goLink hroot hnull hlong fs
  obtain ⟨entered', henter'⟩ := FileSystem.exists_enter_of_child hroot isPart_go henter
  have hreaches := FileSystem.stat_directory_iff hfs hroot henter'
  constructor
  · rintro (hstat | hlstat) here hreach
    · exact absurd (hreaches.2 ⟨here, hreach⟩) hstat
    · obtain ⟨here', hreach', -, hget⟩ :=
        FileSystem.leadsTo_of_lstat_ok hroot isPart_go (by decide) hlstat
      obtain rfl : here = here' := by simpa [hreach] using hreach'
      exact hget
  · intro h
    by_cases hstat : fs.stat layout.root.toString = .ok .directory
    · obtain ⟨here, hreach⟩ := hreaches.1 hstat
      have hleads := FileSystem.leadsTo_child hroot isPart_go isName_go henter hreach
      exact .inr (hleads.lstat_eq (h here hreach))
    · exact .inl hstat

/-- What is then in the place of the link, and elsewhere. -/
theorem replaces_of_put {here : Location}
    (hapart : fs.ReachesApart layout.root (here ++ ["go"]) here) :
    Replaces layout version here fs
      (fs.putLink (here ++ ["go"]) (layout.goDir version).toString) := by
  obtain ⟨entered, henter⟩ := enter_goLink hroot hnull hlong fs
  obtain ⟨⟨start, names⟩, hroot'⟩ := FileSystem.exists_enter_of_child hroot isPart_go henter
  obtain ⟨rfl, hnames⟩ := FileSystem.enter_toString hroot hroot'
  have hwalk : FileSystem.walk fs.tree true FileSystem.maxLinks (fs.origin layout.root.anchor) names =
      .ok here := by
    rw [hnames]
    exact FileSystem.walk_of_walk_dot hapart.reach
  have hplace := fs.get?_putLink (q := here ++ ["go"]) (by simp) (layout.goDir version).toString
  have henter' : (fs.putLink (here ++ ["go"]) (layout.goDir version).toString).enter
      layout.goLink.toString = .ok entered := henter
  have hleads := FileSystem.leadsTo_child hroot isPart_go isName_go henter'
    (hapart.putLink (by simp) _).reach
  exact {
    root := FileSystem.resolve_of_walk hroot' hwalk
    link := hleads.lstat_eq hplace
    place := hplace
    others := fun q hq => fs.get?_putLink_of_ne (by simp) _ hq
    workingDirectory := rfl }

variable {m : Machine} (hversion : '\x00' ∉ version.toList)
include hversion

/-- Without room the call fails and changes no files. -/
theorem perform_linkDefault_of_barred
    (h : ∀ here, m.files.reach layout.root = .ok here →
      m.files.tree.get? (here ++ ["go"]) = some .directory) :
    ∃ e m', (linkDefault layout version).perform m =
      (.error (unlinkable layout version e), m') ∧ m'.files = m.files := by
  have htarget := Layout.null_not_mem_goDir hnull hversion
  obtain ⟨entered, henter⟩ := enter_goLink hroot hnull hlong m.files
  obtain ⟨hkept, e, hsymlink⟩ := FileSystem.symlink_barred hroot isPart_go henter isName_go htarget h
  obtain ⟨records, hperform⟩ := perform_linkDefault m (Layout.null_not_mem_goLink hnull) htarget
  rw [Layout.goLink] at hperform
  rw [hkept, hsymlink] at hperform
  exact ⟨e, _, hperform, rfl⟩

/-- Where there is room the call puts the link in its place. -/
theorem perform_linkDefault_of_room {here : Location}
    (hapart : m.files.ReachesApart layout.root (here ++ ["go"]) here)
    (hroom : m.files.tree.get? (here ++ ["go"]) ≠ some .directory) :
    ∃ m', (linkDefault layout version).perform m = (.ok layout.goLink, m') ∧
      m'.files = m.files.putLink (here ++ ["go"]) (layout.goDir version).toString := by
  have htarget := Layout.null_not_mem_goDir hnull hversion
  obtain ⟨entered, henter⟩ := enter_goLink hroot hnull hlong m.files
  have hsymlink := FileSystem.symlink_cleared hroot isPart_go isName_go henter hapart hroom htarget
    (goDir_ne_empty hroot) hlong
  obtain ⟨records, hperform⟩ := perform_linkDefault m (Layout.null_not_mem_goLink hnull) htarget
  rw [Layout.goLink] at hperform
  rw [hsymlink] at hperform
  exact ⟨_, hperform, rfl⟩

end

/-- **The link is replaced, or nothing is changed.**  Where there is no room for the link, the call fails
and the files are as they were, so that no link is lost.  Everywhere else it succeeds, whatever file or
link is in the place; only that place changes, and a second call changes nothing more. -/
theorem link_is_replaced_or_kept {layout : Layout} {version : String} {m : Machine}
    (hfs : m.files.WellFormed) (hroot : layout.root.Clean)
    (hnull : '\x00' ∉ layout.root.toString.toList) (hversion : '\x00' ∉ version.toList)
    (hlong : (layout.goDir version).toString.utf8ByteSize ≤ FileSystem.maxPathBytes)
    (hapart : RootApart layout m.files) :
    (Barred layout m.files → ∃ e m', (linkDefault layout version).perform m =
        (.error (unlinkable layout version e), m') ∧ m'.files = m.files) ∧
    (¬Barred layout m.files → ∃ m' here, (linkDefault layout version).perform m =
        (.ok layout.goLink, m') ∧ Replaces layout version here m.files m'.files ∧
      ∃ m'', (linkDefault layout version).perform m' = (.ok layout.goLink, m'') ∧
        m''.files = m'.files) := by
  rw [barred_iff hroot hnull hlong hfs]
  refine ⟨perform_linkDefault_of_barred hroot hnull hlong hversion, fun h => ?_⟩
  simp only [Classical.not_forall] at h
  obtain ⟨here, hreach, hroom⟩ := h
  have happart := FileSystem.reachesApart_of_not_meets hreach (hapart here hreach)
  obtain ⟨m', hperform, hfiles⟩ :=
    perform_linkDefault_of_room hroot hnull hlong hversion happart hroom
  -- the place now holds a link, so that there is room for the second call too
  have happart' : m'.files.ReachesApart layout.root (here ++ ["go"]) here := by
    rw [hfiles]
    exact happart.putLink (by simp) _
  have hreplaces : Replaces layout version here m.files m'.files := by
    rw [hfiles]
    exact replaces_of_put hroot hnull hlong happart
  have hroom' : m'.files.tree.get? (here ++ ["go"]) ≠ some .directory := by simp [hreplaces.place]
  obtain ⟨m'', hagain, hfiles'⟩ :=
    perform_linkDefault_of_room hroot hnull hlong hversion happart' hroom'
  refine ⟨m', here, hperform, hreplaces, m'', hagain, ?_⟩
  rw [hfiles', hfiles, FileSystem.putLink_putLink]

namespace Sample

/-- The root of a workspace. -/
def home : Layout := ⟨Path.ofString "/home/go", "example.org"⟩

/-- A machine with a link that leads nowhere. -/
def dangling : Machine where
  files := ⟨⟨[(["home", "go", "go"], .link "/home/go/go-1.9"), (["home", "go"], .directory),
    (["home"], .directory)]⟩, []⟩

/-- A machine with a directory in the place of the link. -/
def occupied : Machine where
  files := ⟨⟨[(["home", "go", "go"], .directory), (["home", "go"], .directory),
    (["home"], .directory)]⟩, []⟩

/-- The root is found by way of `/home` and `/home/go` alone. -/
theorem rootApart_home {fs : FileSystem} (hhome : fs.tree.get? ["home"] = some .directory)
    (hroot : fs.tree.get? ["home", "go"] = some .directory)
    (hreach : (fs.reach home.root).toOption = some ["home", "go"]) : RootApart home fs := by
  intro here hreach' hmeets
  obtain rfl : here = ["home", "go"] := by simpa [hreach', Except.toOption] using hreach
  replace hmeets : FileSystem.Meets fs.tree ["home", "go", "go"] [] ["home", "go"] := hmeets
  have hname : FileSystem.IsName "home" := ⟨by decide, by decide, by decide⟩
  obtain hplace | ⟨-, hnext⟩ | ⟨text, hlink⟩ := hmeets.of_name hname
  · simp at hplace
  · obtain hplace | ⟨-, hend⟩ | ⟨text, hlink⟩ := hnext.of_name isName_go
    · simp at hplace
    · nomatch hend
    · simp [hroot] at hlink
  · simp [hhome] at hlink

end Sample

/-- A link that leads nowhere is replaced, and a directory stays. -/
theorem link_is_replaced_or_kept_sample :
    (Sample.dangling.files.WellFormed ∧ Sample.occupied.files.WellFormed ∧ Sample.home.root.Clean ∧
      '\x00' ∉ Sample.home.root.toString.toList ∧ '\x00' ∉ "1.10.2".toList ∧
      (Sample.home.goDir "1.10.2").toString.utf8ByteSize ≤ FileSystem.maxPathBytes ∧
      RootApart Sample.home Sample.dangling.files ∧ RootApart Sample.home Sample.occupied.files) ∧
    (∃ m' here, (linkDefault Sample.home "1.10.2").perform Sample.dangling =
        (.ok Sample.home.goLink, m') ∧
      Replaces Sample.home "1.10.2" here Sample.dangling.files m'.files) ∧
    ∃ e m', (linkDefault Sample.home "1.10.2").perform Sample.occupied =
      (.error (unlinkable Sample.home "1.10.2" e), m') ∧ m'.files = Sample.occupied.files := by
  have hdangling : Sample.dangling.files.WellFormed := ⟨by decide +kernel, by decide +kernel⟩
  have hoccupied : Sample.occupied.files.WellFormed := ⟨by decide +kernel, by decide +kernel⟩
  have hclean : Sample.home.root.Clean := Path.clean_ofString _
  have hnull : '\x00' ∉ Sample.home.root.toString.toList := by decide +kernel
  have hversion : '\x00' ∉ "1.10.2".toList := by decide +kernel
  have hlong : (Sample.home.goDir "1.10.2").toString.utf8ByteSize ≤ FileSystem.maxPathBytes := by
    decide +kernel
  have hapart : RootApart Sample.home Sample.dangling.files :=
    Sample.rootApart_home rfl rfl (by decide +kernel)
  have hapart' : RootApart Sample.home Sample.occupied.files :=
    Sample.rootApart_home rfl rfl (by decide +kernel)
  have hroom : ¬Barred Sample.home Sample.dangling.files := by
    have hroot : (Sample.dangling.files.stat Sample.home.root.toString).toOption =
        some .directory := by decide +kernel
    have hlink : (Sample.dangling.files.lstat Sample.home.goLink.toString).toOption =
        some (.link "/home/go/go-1.9") := by decide +kernel
    rintro (hstat | hlstat)
    · exact hstat (FileSystem.ok_of_toOption hroot)
    · simp [hlstat, Except.toOption] at hlink
  have hbarred : Barred Sample.home Sample.occupied.files :=
    .inr (FileSystem.ok_of_toOption (by decide +kernel))
  obtain ⟨m', here, hperform, hreplaces, -⟩ :=
    (link_is_replaced_or_kept hdangling hclean hnull hversion hlong hapart).2 hroom
  exact ⟨⟨hdangling, hoccupied, hclean, hnull, hversion, hlong, hapart, hapart'⟩,
    ⟨m', here, hperform, hreplaces⟩,
    (link_is_replaced_or_kept hoccupied hclean hnull hversion hlong hapart').1 hbarred⟩

end Toolchain

end Provision
