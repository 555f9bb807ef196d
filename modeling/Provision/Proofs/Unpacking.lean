/-
**Where a download unpacks.**

The path of a staging directory is used in three places: as the directory that the download is
launched in, as the directory that `tar` is told to unpack into, and as the source of the rename
behind it.  The first and the last are read from the directory of the bootstrap, but the second is
read by the command, that is from the staging directory itself.  From there the path leads to the
staging directory if it is an absolute one.  A relative path leads nowhere from a directory that was
just made, unless it goes up first and happens to come back.

Main definitions:

* `Provision.FileSystem.seenFrom` — the files as a command sees them that runs in a directory;
* `Provision.Path.LeadsBack` — a path that leads to the same name from a directory below it;
* `Provision.Launch.RunsIn` — a download in its staging directory, as the shell is told.

Main results:

* `Provision.FileSystem.resolve_seenFrom_iff` — **when a path leads back to the directory that it is
  read from**;
* `Provision.Toolchain.unpacks_in_place_iff` — **a download unpacks into its own staging directory if
  and only if the root is an absolute path, or one that goes up and comes back**.
-/

import Provision.Proofs.Additions
import Provision.Proofs.Places
import Provision.Proofs.Scripts

set_option relaxedAutoImplicit false
set_option autoImplicit false

namespace Provision

namespace FileSystem

variable {fs : FileSystem} {text : String} {here start : Location} {name : String}
  {names : List String} {p : Path}

/-! ### Paths that are read in another directory -/

/-- The files as a command sees them that runs in the directory `here`. -/
def seenFrom (fs : FileSystem) (here : Location) : FileSystem :=
  { fs with workingDirectory := here }

@[simp] theorem seenFrom_tree (fs : FileSystem) (here : Location) :
    (fs.seenFrom here).tree = fs.tree := rfl

@[simp] theorem seenFrom_workingDirectory (fs : FileSystem) (here : Location) :
    (fs.seenFrom here).workingDirectory = here := rfl

/-- Whether a text can be entered does not depend on where it is read. -/
theorem enter_seenFrom (h : fs.enter text = .ok (start, names)) (here : Location) :
    ∃ start', (fs.seenFrom here).enter text = .ok (start', names) := by
  obtain ⟨hnull, hempty, hlong, -, rfl⟩ := enter_eq_ok h
  refine ⟨if startsAtRoot text.toList then [] else here, ?_⟩
  simp [enter, hnull, hempty, Nat.not_lt.2 hlong]

/-- A text that can be entered leads where its walk ends. -/
theorem resolve_eq_ok_iff {follow : Bool} {there : Location}
    (henter : fs.enter text = .ok (start, names)) :
    fs.resolve text follow = .ok there ↔ walk fs.tree follow maxLinks start names = .ok there := by
  refine ⟨fun h => ?_, resolve_of_walk henter⟩
  obtain ⟨start', names', henter', hwalk⟩ := exists_enter_of_resolve h
  rw [henter] at henter'
  obtain ⟨rfl, rfl⟩ : start = start' ∧ names = names' := by simpa using henter'
  exact hwalk

/-- What is below a path is walked to from where the anchor of the path says. -/
theorem resolve_child_iff {w : String} (hp : p.Clean) (hw : Path.IsPart w) {follow : Bool}
    {there : Location} (henter : fs.enter (p.child w).toString = .ok (start, names)) :
    fs.resolve (p.child w).toString follow = .ok there ↔
      walk fs.tree follow maxLinks (fs.origin p.anchor) (p.parts ++ [w]) = .ok there := by
  have hentered := henter
  rw [Path.toString_child p hw] at hentered
  obtain ⟨rfl, rfl⟩ := enter_text (by simp) (hp.parts.concat hw) hentered
  exact resolve_eq_ok_iff henter

end FileSystem

open FileSystem

/-- **A path below which a name means the same from the directory that it names**: an absolute path, or
one that goes up and then leads there again from the directory `here`, in which the name is. -/
def Path.LeadsBack (p : Path) (t : Tree) (here : Location) (name : String) : Prop :=
  p.anchor ≠ .relative ∨ ∃ rest, p.parts = ".." :: rest ∧
    walk t true maxLinks here (rest ++ [name]) = .ok (here ++ [name])

namespace FileSystem

variable {fs : FileSystem} {text : String} {here start : Location} {name : String}
  {names : List String} {p : Path}

/-- **When a path leads back to the directory that it is read from**: the directory is empty, so that
only going up leads out of it. -/
theorem resolve_seenFrom_iff (hp : p.Clean) (hw : Path.IsPart name)
    (h : fs.LeadsTo (p.child name).toString here name)
    (hdirectory : fs.tree.get? (here ++ [name]) = some .directory)
    (hempty : ∀ w, fs.tree.get? (here ++ [name] ++ [w]) = none) :
    (fs.seenFrom (here ++ [name])).resolve (p.child name).toString true = .ok (here ++ [name]) ↔
      p.LeadsBack fs.tree here name := by
  obtain ⟨start, names, henter, -⟩ := h.enter
  obtain ⟨start', henter'⟩ := enter_seenFrom henter (here ++ [name])
  rw [resolve_child_iff hp hw henter', seenFrom_tree]
  by_cases habsolute : p.anchor ≠ .relative
  · have hresolve := h.resolve_of_directory hdirectory true
    rw [resolve_child_iff hp hw henter, origin_of_absolute fs habsolute] at hresolve
    rw [origin_of_absolute _ habsolute]
    exact iff_of_true hresolve (Or.inl habsolute)
  have hrelative := Decidable.not_not.1 habsolute
  have horigin : (fs.seenFrom (here ++ [name])).origin p.anchor = here ++ [name] := by
    rw [origin, if_pos hrelative, seenFrom_workingDirectory]
  rw [horigin]
  -- a name leads nowhere from the empty directory
  have hnowhere : ∀ (w : String) (rest : List String), w ≠ "." → w ≠ ".." →
      walk fs.tree true maxLinks (here ++ [name]) (w :: rest) ≠ .ok (here ++ [name]) := by
    intro w rest hdot hdots hwalk
    have hlink : ∀ text, fs.tree.get? (here ++ [name] ++ [w]) ≠ some (.link text) := by
      intro text
      rw [hempty w]
      simp
    have hsome := (walk_cons_of_ok hdot hdots hlink hwalk).2.1
    rw [hempty w] at hsome
    simp at hsome
  unfold Path.LeadsBack
  cases hparts : p.parts with
  | nil =>
      obtain ⟨hdot, hdots, -⟩ := h.name
      exact iff_of_false (hnowhere name [] hdot hdots) (by simp [hrelative])
  | cons w rest =>
      by_cases hdots : w = ".."
      · subst hdots
        rw [List.cons_append, walk_dots_cons, List.dropLast_concat]
        simp [hrelative]
      · have hpart := hp w (by simp [hparts])
        exact iff_of_false (hnowhere w _ hpart.2.1 hdots) (by simp [hrelative, hdots])

end FileSystem

/-! ### Downloads -/

/-- **A download in its staging directory**, the one with the number `n` in `here`, as the shell is
told. -/
structure Launch.RunsIn (l : Launch) (version : String) (here : Location) (n : Nat) : Prop where
  /-- It is launched in the staging directory, -/
  launched : l.before.resolve l.command.directory.toString true =
    .ok (here ++ [Toolchain.stagingName n])
  /-- which is there -/
  directory : l.before.tree.get? (here ++ [Toolchain.stagingName n]) = some .directory
  /-- and empty. -/
  empty : ∀ q, here ++ [Toolchain.stagingName n] <+: q → q ≠ here ++ [Toolchain.stagingName n] →
    l.before.tree.get? q = none
  /-- The shell is told to unpack into the path of the same directory. -/
  script : ∃ script, l.command.argv = ["/bin/bash", "-c", script] ∧
    Shell.read script = some (Toolchain.downloadProgram version l.command.directory)

namespace Toolchain

open Step

variable {version : String} {layout : Layout} {fs ext : FileSystem} {here : Location} {n : Nat}
  {l : Launch}

theorem Staged.empty (h : Staged layout fs ext here n l.before) {q : Location}
    (hq : here ++ [stagingName n] <+: q) (hne : q ≠ here ++ [stagingName n]) :
    l.before.tree.get? q = none := by
  rw [h.tree, if_neg hne]
  exact h.wellFormed.closed.none_of_prefix h.fresh hq

/-- **A download unpacks into its own staging directory if and only if the root leads back.** -/
theorem Staged.leadsBack_iff (hroot : layout.root.Clean)
    (hstaged : Staged layout fs ext here n l.before)
    (hcommand : l.command = download version layout.root n) :
    (l.before.seenFrom (here ++ [stagingName n])).resolve l.command.directory.toString true =
        .ok (here ++ [stagingName n]) ↔
      layout.root.LeadsBack l.before.tree here (stagingName n) := by
  have hleads := hstaged.leadsTo
  rw [staging_eq_child hroot] at hleads
  have hpath : l.command.directory = layout.root.child (stagingName n) := by
    rw [hcommand, ← staging_eq_child hroot]
    rfl
  rw [hpath]
  refine resolve_seenFrom_iff hroot (isPart_stagingName n) hleads ?_ fun w => ?_
  · rw [hstaged.tree, if_pos rfl]
  · exact hstaged.empty (List.prefix_append _ _) (by simp)

/-- **A download unpacks into its own staging directory**, the one that is renamed behind it, if and
only if the root is an absolute path, or one that goes up and leads back. -/
theorem unpacks_in_place_iff {runner : Runner} {m : Machine} (hroot : layout.root.Clean)
    (hfs : m.files.WellFormed) (hl : l ∈ (install version layout runner).launched m) :
    ∃ here n, l.RunsIn version here n ∧
      ((l.before.seenFrom (here ++ [stagingName n])).resolve l.command.directory.toString true =
          .ok (here ++ [stagingName n]) ↔
        layout.root.LeadsBack l.before.tree here (stagingName n)) ∧
      ∀ status m', (install version layout runner).perform m = (.ok status, m') →
        (∃ moved, l.after.rename l.command.directory.toString (layout.goDir version).toString =
            .ok moved ∧ m'.files = moved.removeTree l.command.directory.toString) ∧
          (l.Confined →
            l.after.resolve l.command.directory.toString false = .ok (here ++ [stagingName n])) := by
  obtain ⟨new, hlaunches, hcourse⟩ :=
    course_of_install (not_dry_of_launched hl) hroot version hfs
  have hscript := script_of_install hl
  rw [launched_eq hlaunches] at hl
  have hruns : ∀ {here : Location} {n : Nat} {ext : FileSystem},
      l.command = download version layout.root n → Staged layout m.files ext here n l.before →
      l.RunsIn version here n := by
    intro here n ext hcommand hstaged
    refine ⟨hstaged.resolve hcommand, ?_, fun q => hstaged.empty, hscript⟩
    rw [hstaged.tree, if_pos rfl]
  generalize hr : ((install version layout runner).perform m).1 = r at hcourse
  generalize hfiles : ((install version layout runner).perform m).2.files = fs' at hcourse
  cases hcourse with
  | existing found => simp at hl
  | prevented grows wellFormed files => simp at hl
  | @undone here n l' e command staged =>
      obtain rfl := List.mem_singleton.1 hl
      refine ⟨here, n, hruns command staged, staged.leadsBack_iff hroot command, ?_⟩
      intro status m' hperform
      rw [hperform] at hr
      simp at hr
  | @installed moved here n l' missing command staged ending rename =>
      obtain rfl := List.mem_singleton.1 hl
      refine ⟨here, n, hruns command staged, staged.leadsBack_iff hroot command, ?_⟩
      intro status m' hperform
      have hpath : l.command.directory = staging layout.root n := by
        rw [command]
        rfl
      rw [hpath]
      rw [hperform] at hfiles
      refine ⟨⟨moved, rename, hfiles⟩, fun hconfined => ?_⟩
      obtain ⟨hleads, hdirectory⟩ := staged.leadsTo_after command hconfined
      exact hleads.resolve_of_directory hdirectory false

namespace Sample

/-- Version 1.9 is installed below a relative root. -/
def drifting : List Launch :=
  (install "1.9" ⟨Path.ofString "gp", "example.org"⟩ ⟨Path.ofString "gp", false⟩).launched
    { files := ⟨⟨[(["home"], .directory)]⟩, ["home"]⟩ }

/-- Version 1.9 is installed below an absolute root. -/
def anchored : List Launch :=
  (install "1.9" workspace ⟨workspace.root, false⟩).launched unpacking

end Sample

/-- The path of the staging directory below a relative root leads nowhere from there. -/
theorem relative_root_unpacks_elsewhere :
    ∃ l ∈ Sample.drifting, l.command.directory.toString = "gp/go-tmp-1" ∧
      l.before.resolve l.command.directory.toString true = .ok ["home", "gp", "go-tmp-1"] ∧
      (l.before.seenFrom ["home", "gp", "go-tmp-1"]).resolve l.command.directory.toString true ≠
        .ok ["home", "gp", "go-tmp-1"] := by
  have hread : ∃ l ∈ Sample.drifting, l.command.directory.toString = "gp/go-tmp-1" ∧
      (l.before.resolve l.command.directory.toString true).toOption =
        some ["home", "gp", "go-tmp-1"] ∧
      ((l.before.seenFrom ["home", "gp", "go-tmp-1"]).resolve l.command.directory.toString
        true).toOption = none := by
    decide +kernel
  obtain ⟨l, hl, htext, hthere, hnowhere⟩ := hread
  refine ⟨l, hl, htext, ok_of_toOption hthere, fun h => ?_⟩
  rw [h] at hnowhere
  simp [Except.toOption] at hnowhere

/-- Below an absolute root the download unpacks in its place. -/
theorem unpacks_in_place_sample :
    Sample.workspace.root.Clean ∧ Sample.unpacking.files.WellFormed ∧
    ∃ l ∈ Sample.anchored, ∃ here n, l.RunsIn "1.9" here n ∧
      (l.before.seenFrom (here ++ [stagingName n])).resolve l.command.directory.toString true =
        .ok (here ++ [stagingName n]) := by
  have hfs : Sample.unpacking.files.WellFormed := ⟨by decide, by decide⟩
  have hsome : Sample.anchored.length = 1 := by decide +kernel
  obtain ⟨l, hl⟩ := List.exists_mem_of_length_pos (l := Sample.anchored) (by omega)
  obtain ⟨here, n, hruns, hiff, -⟩ := unpacks_in_place_iff (Path.clean_ofString _) hfs hl
  exact ⟨Path.clean_ofString _, hfs, l, hl, here, n, hruns, hiff.2 (Or.inl (by decide))⟩

end Toolchain

end Provision
