/-
**The directory that a root leads to.**

Before anything is put below the root of a workspace, the directories on the way to it are made.  If
the root is there already then nothing changes.  Otherwise what is new lies at or above the place
that the root then leads to, as long as its path does not go up: a path such as `a/../b` has the
directory `a` made, which may be the place of something else.

Main definitions:

* `Provision.Layout.Undisturbed` — making the directories on the way to the root does not touch the
  place of a distribution.

Main results:

* `Provision.FileSystem.leadsTo_of_lstat_ok`, `Provision.FileSystem.lstat_of_stat_ok` — where what is
  found below a path lies;
* `Provision.FileSystem.same_of_reach` — **nothing is made if the root is there**;
* `Provision.FileSystem.prefix_of_grownTo` — what is made on the way of a path that does not go up;
* `Provision.Layout.undisturbed_of_reach`, `Provision.Layout.undisturbed_of_straight` — **neither
  touches a distribution**.
-/

import Provision.Proofs.Keeping
import Provision.Proofs.Places

set_option relaxedAutoImplicit false
set_option autoImplicit false

namespace Provision

namespace FileSystem

open Provision.Path

variable {fs fs' fs'' : FileSystem} {p : Path} {text w : String} {here there q : Location}

/-! ### What is found below a path -/

/-- **Where what stands below a path lies.** -/
theorem leadsTo_of_lstat_ok (hp : p.Clean) (hw : IsPart w) (hdots : w ≠ "..") {e : Entry}
    (h : fs.lstat (p.child w).toString = .ok e) :
    ∃ here, fs.reach p = .ok here ∧ fs.LeadsTo (p.child w).toString here w ∧
      fs.tree.get? (here ++ [w]) = some e := by
  obtain ⟨there, hresolve, -⟩ := parts_of_ok h
  obtain ⟨here, hreach, hleads, -⟩ := leadsTo_of_resolve hp hw hdots hresolve
  exact ⟨here, hreach, hleads, hleads.get?_of_lstat h⟩

/-- **What is found below a path stands there**, unless it is behind a link. -/
theorem lstat_of_stat_ok (hp : p.Clean) (hw : IsPart w) (hdots : w ≠ "..") {e : Entry}
    (h : fs.stat (p.child w).toString = .ok e)
    (hlink : ∀ text, fs.lstat (p.child w).toString ≠ .ok (.link text)) :
    fs.lstat (p.child w).toString = .ok e := by
  obtain ⟨there, hresolve, -⟩ := parts_of_ok h
  obtain ⟨here, -, hleads, hthere⟩ := leadsTo_of_resolve hp hw hdots hresolve
  obtain ⟨e', he'⟩ := Option.isSome_iff_exists.1 hthere
  have hlstat := hleads.lstat_eq he'
  have hstat := hleads.stat_eq he' fun text htext => hlink text (by rw [hlstat, htext])
  obtain rfl : e' = e := by simpa [hstat] using h
  exact hlstat

/-- A directory that stands at a path is found there. -/
theorem stat_of_lstat_directory (hp : p.Clean) (hw : IsPart w) (hdots : w ≠ "..")
    (h : fs.lstat (p.child w).toString = .ok .directory) :
    fs.stat (p.child w).toString = .ok .directory := by
  obtain ⟨here, -, hleads, hget⟩ := leadsTo_of_lstat_ok hp hw hdots h
  exact hleads.stat_eq hget (by simp)

/-- What stands at a path stands there when there is more. -/
theorem lstat_of_gains (h : fs.tree.Gains fs'.tree)
    (hdirectory : fs'.workingDirectory = fs.workingDirectory) {e : Entry}
    (hlstat : fs.lstat text = .ok e) : fs'.lstat text = .ok e := by
  obtain ⟨there, hresolve, hentry⟩ := parts_of_ok hlstat
  have hget : fs.tree.get? there = some e := by
    cases hget : fs.tree.get? there with
    | none => simp [hget] at hentry
    | some e' => simpa [hget, pure, Except.pure] using hentry
  rw [lstat, entryAt, resolve_of_gains h hdirectory hresolve]
  simp only [bind, Except.bind, h there (by rw [hget]; rfl), hget]
  rfl

/-! ### The same files -/

namespace Same

theorem reach (h : fs.Same fs') (hreach : fs.reach p = .ok here) : fs'.reach p = .ok here :=
  reach_of_gains h.gains h.workingDirectory hreach

theorem lstat_iff (h : fs.Same fs') {e : Entry} :
    fs'.lstat text = .ok e ↔ fs.lstat text = .ok e :=
  ⟨lstat_of_gains h.symm.gains h.symm.workingDirectory, lstat_of_gains h.gains h.workingDirectory⟩

end Same

/-! ### Making the directories on the way -/

/-- A directory that is made on the way to a path is where the path has led to so far. -/
theorem exists_walk_of_grownTo (hfs : fs.WellFormed) (hp : p.Clean) (hnone : fs.tree.get? q = none)
    (hthere : (fs.grownTo p).tree.get? q ≠ none) :
    ∃ above rest, p.parts = above ++ rest ∧
      walk (fs.grownTo p).tree true maxLinks (fs.origin p.anchor) above = .ok q := by
  obtain ⟨hextends, -⟩ := extends_ensureDirectories hfs p
  rcases hextends.tree q with hsame | ⟨-, -, n, hway⟩
  · exact absurd (hsame.trans hnone) hthere
  obtain ⟨⟨rest, hparts⟩, hanchor⟩ := ancestor_parts p n
  have hclean : (p.ancestor n).Clean := fun w hw => hp w (by rw [← hparts]; simp [hw])
  obtain ⟨start, names, henter, hwalk⟩ := exists_enter_of_resolve hway
  obtain ⟨rfl, hnames⟩ := enter_toString hclean henter
  rw [hnames, hanchor, origin, hextends.workingDirectory] at hwalk
  exact ⟨_, rest, hparts.symm, hwalk⟩

/-- **Nothing is made if the root is there.** -/
theorem same_of_reach (hfs : fs.WellFormed) (hp : p.Clean) (h : fs.reach p = .ok here) :
    fs.Same (fs.grownTo p) := by
  obtain ⟨hextends, -⟩ := extends_ensureDirectories hfs p
  refine ⟨hextends.workingDirectory, fun q => ?_⟩
  rcases hextends.tree q with hsame | ⟨hnone, hdirectory, -⟩
  · exact hsame
  -- what would be new is a directory that the path has led through before
  obtain ⟨above, rest, hparts, hwalk⟩ :=
    exists_walk_of_grownTo hfs hp hnone (by rw [hdirectory]; simp)
  rw [reach, hparts, List.append_assoc] at h
  obtain ⟨mid, links, hmid, -⟩ := walk_append_of_ok (by simp) h
  have hstart : fs.tree.get? (fs.origin p.anchor) = some .directory := by
    unfold origin
    split
    · exact hfs.workingDirectory
    · rfl
  have hthere := get?_of_walk_dot hfs.closed hstart hmid
  have hsame := walk_of_grown hextends.grown (walk_of_walk_dot hmid)
  obtain rfl : q = mid := by simpa [hwalk] using hsame
  rw [hthere] at hnone
  simp at hnone

/-- **What is made on the way of a path that does not go up** lies at or above the place that the
path leads to. -/
theorem prefix_of_grownTo (hfs : fs.WellFormed) (hp : p.Clean) (hdots : ".." ∉ p.parts)
    (h : (fs.grownTo p).reach p = .ok here) (hnone : fs.tree.get? q = none)
    (hthere : (fs.grownTo p).tree.get? q ≠ none) : q <+: here := by
  obtain ⟨hextends, -⟩ := extends_ensureDirectories hfs p
  obtain ⟨above, rest, hparts, hwalk⟩ := exists_walk_of_grownTo hfs hp hnone hthere
  have horigin : (fs.grownTo p).origin p.anchor = fs.origin p.anchor := by
    rw [origin, origin, hextends.workingDirectory]
  rw [reach, horigin, hparts, List.append_assoc] at h
  obtain ⟨mid, links, hmid, hend⟩ := walk_append_of_ok (by simp) h
  obtain rfl : q = mid := by simpa [hwalk] using walk_of_walk_dot hmid
  -- below what is new everything is new, and no link
  have hlinks : ∀ names, names <+: rest → names ≠ [] → ∀ text,
      (fs.grownTo p).tree.get? (q ++ names) ≠ some (.link text) := by
    intro names _ _ text
    have hbelow := hfs.closed.none_of_prefix hnone (List.prefix_append q names)
    rcases hextends.tree (q ++ names) with hsame | ⟨-, hdirectory, -⟩
    · rw [hsame, hbelow]
      simp
    · rw [hdirectory]
      simp
  have hnames : ∀ w ∈ rest, w ≠ "." ∧ w ≠ ".." := by
    intro w hw
    refine ⟨(hp w (by rw [hparts]; simp [hw])).2.1, ?_⟩
    rintro rfl
    exact hdots (by rw [hparts]; simp [hw])
  have hlast := walk_names_of_ok hnames hlinks hend
  rw [walk_dot_cons, walk_nil] at hlast
  obtain rfl : q ++ rest = here := by simpa using hlast
  exact List.prefix_append q rest

end FileSystem

/-! ### The places of distributions -/

namespace Layout

variable {layout : Layout} {fs : FileSystem} {version : String} {here : Location}

/-- **Making the directories on the way to the root does not touch the place of a version**: what
stands there behind it was found there before, and nothing at or below the place is new. -/
structure Undisturbed (layout : Layout) (fs : FileSystem) (version : String) : Prop where
  path : ∀ e, (fs.grownTo layout.root).lstat (layout.goDir version).toString = .ok e →
    fs.lstat (layout.goDir version).toString = .ok e
  place : ∀ here, (fs.grownTo layout.root).reach layout.root = .ok here →
    ∀ q, here ++ ["go-" ++ version] <+: q →
      (fs.grownTo layout.root).tree.get? q = fs.tree.get? q

/-- If the root is there then no place is touched. -/
theorem undisturbed_of_reach (hroot : layout.root.Clean) (hfs : fs.WellFormed)
    (h : fs.reach layout.root = .ok here) (version : String) : layout.Undisturbed fs version where
  path _ he := (FileSystem.same_of_reach hfs hroot h).lstat_iff.1 he
  place _ _ q _ := (FileSystem.same_of_reach hfs hroot h).tree q

/-- Neither is one if the path of the root does not go up. -/
theorem undisturbed_of_straight (hroot : layout.root.Clean) (hfs : fs.WellFormed)
    (hdots : ".." ∉ layout.root.parts) (hversion : '/' ∉ version.toList) :
    layout.Undisturbed fs version := by
  obtain ⟨hextends, -⟩ := FileSystem.extends_ensureDirectories hfs layout.root
  have hplace : ∀ here, (fs.grownTo layout.root).reach layout.root = .ok here →
      ∀ q, here ++ ["go-" ++ version] <+: q →
        (fs.grownTo layout.root).tree.get? q = fs.tree.get? q := by
    intro here hreach q hq
    rcases hextends.tree q with hsame | ⟨hnone, hdirectory, -⟩
    · exact hsame
    · have hpre := hq.trans (FileSystem.prefix_of_grownTo hfs hroot hdots hreach hnone
        (by rw [hdirectory]; simp))
      have hlength := hpre.length_le
      rw [List.length_append, List.length_singleton] at hlength
      omega
  refine ⟨fun e he => ?_, hplace⟩
  obtain ⟨here, hreach, -, hget⟩ := FileSystem.leadsTo_of_lstat_ok hroot
    (Toolchain.isPart_goName hversion) (Toolchain.goName_ne version (by decide)) he
  -- what is found was there before, and so was everything above it
  have hthere := hget
  rw [hplace here hreach _ (List.prefix_refl _)] at hthere
  have hsame : fs.Same (fs.grownTo layout.root) := by
    refine ⟨hextends.workingDirectory, fun q => ?_⟩
    rcases hextends.tree q with hsame | ⟨hnone, hdirectory, -⟩
    · exact hsame
    · have hpre := FileSystem.prefix_of_grownTo hfs hroot hdots hreach hnone
        (by rw [hdirectory]; simp)
      have hnothing := hfs.closed.none_of_prefix hnone
        (hpre.trans (List.prefix_append here ["go-" ++ version]))
      rw [hthere] at hnothing
      simp at hnothing
  exact hsame.lstat_iff.1 he

end Layout

end Provision
