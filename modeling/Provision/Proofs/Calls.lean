/-
**What a call that succeeds has found.**

A call that makes, moves or removes something enters the text of a path, walks to a directory and
uses one more name in it.  A call that succeeds therefore tells where it has walked and what was
there, and what it has changed is one place, or one place and another.

Main definitions:

* `Provision.FileSystem.origin` — where walks start;
* `Provision.FileSystem.LeadsTo` — a text leads to a name in a directory.

Main results:

* `Provision.FileSystem.place_eq_ok`, `Provision.FileSystem.makeDirectory_eq_ok`,
  `Provision.FileSystem.unlink_eq_ok`, `Provision.FileSystem.symlink_eq_ok`,
  `Provision.FileSystem.rename_eq_ok` — what a successful call has found;
* `Provision.FileSystem.LeadsTo.lstat_eq`, `Provision.FileSystem.leadsTo_of_lstat` — what a look at
  the same text says.
-/

import Provision.FileSystem.Call
import Provision.Proofs.Paths
import Provision.Proofs.Walks

set_option relaxedAutoImplicit false
set_option autoImplicit false

namespace Provision

namespace FileSystem

open Provision.Path

/-! ### Calls in several parts -/

/-- A call in two parts succeeds only if both do. -/
theorem parts_of_ok {α β : Type} {first : Except Refusal α} {rest : α → Except Refusal β} {b : β}
    (h : (do rest (← first)) = .ok b) : ∃ a, first = .ok a ∧ rest a = .ok b := by
  match first, h with
  | .ok a, h => exact ⟨a, rfl, h⟩

theorem ok_of_toOption {ε α : Type} {x : Except ε α} {a : α} (h : x.toOption = some a) :
    x = .ok a := by
  match x, h with
  | .ok _, rfl => rfl

@[simp] theorem mapError_ok {α : Type} (a : α) :
    (Except.ok a : Except Errno α).mapError Refusal.failed = .ok a := rfl

@[simp] theorem mapError_error {α : Type} (e : Errno) :
    (Except.error e : Except Errno α).mapError Refusal.failed = .error (.failed e) := rfl

theorem ok_of_mapError {α : Type} {walked : Except Errno α} {a : α}
    (h : walked.mapError Refusal.failed = .ok a) : walked = .ok a := by
  match walked, h with
  | .ok _, rfl => rfl

variable {fs fs' : FileSystem} {text : String} {here there start : Location} {name : String}
  {names : List String}

/-! ### Entering a text -/

theorem enter_eq_ok (h : fs.enter text = .ok (start, names)) :
    '\x00' ∉ text.toList ∧ text ≠ "" ∧ text.utf8ByteSize ≤ maxPathBytes ∧
      start = (if startsAtRoot text.toList then [] else fs.workingDirectory) ∧
      names = steps text.toList := by
  rw [enter_eq] at h
  split at h
  · simp at h
  split at h
  · simp at h
  split at h
  · simp at h
  next h₁ h₂ h₃ =>
  obtain ⟨rfl, rfl⟩ : _ = start ∧ _ = names := by simpa using h
  exact ⟨h₁, h₂, by omega, rfl, rfl⟩

/-- Entering a text needs the working directory, not the tree. -/
theorem enter_congr (h : fs'.workingDirectory = fs.workingDirectory) (text : String) :
    fs'.enter text = fs.enter text := by
  unfold enter
  rw [h]

/-- A part of a text that is entered is entered as well. -/
theorem exists_enter_of_part {longer : String} {entered : Location × List String} (hne : text ≠ "")
    (hpart : ∃ before after, longer = before ++ text ++ after) (h : fs.enter longer = .ok entered) :
    ∃ entered', fs.enter text = .ok entered' := by
  obtain ⟨before, after, rfl⟩ := hpart
  obtain ⟨start, names⟩ := entered
  obtain ⟨hnull, -, hlong, -, -⟩ := enter_eq_ok h
  rw [String.utf8ByteSize_append, String.utf8ByteSize_append] at hlong
  have hnull' : '\x00' ∉ text.toList := fun hmem => hnull (by simp [hmem])
  have hshort : ¬maxPathBytes < text.utf8ByteSize := by omega
  exact ⟨_, by rw [enter_eq, if_neg hnull', if_neg hne, if_neg hshort]⟩

/-- A walk that ends somewhere resolves the text, -/
theorem resolve_of_walk {follow : Bool} (henter : fs.enter text = .ok (start, names))
    (hwalk : walk fs.tree follow maxLinks start names = .ok there) :
    fs.resolve text follow = .ok there := by
  rw [resolve, henter]
  simp only [bind, Except.bind, hwalk]
  rfl

/-- and one that is refused refuses it. -/
theorem resolve_of_walk_error {follow : Bool} {e : Errno}
    (henter : fs.enter text = .ok (start, names))
    (hwalk : walk fs.tree follow maxLinks start names = .error e) :
    fs.resolve text follow = .error (.failed e) := by
  rw [resolve, henter]
  simp only [bind, Except.bind, hwalk]
  rfl

/-- Where the walk of a path with the given anchor starts. -/
def origin (fs : FileSystem) (a : Anchor) : Location :=
  if a = .relative then fs.workingDirectory else []

/-- What is entered with a text that names were put together to. -/
theorem enter_text {a : Anchor} {words : List String} (hne : words ≠ []) (hwords : AreNames words)
    (h : fs.enter (a.text ++ "/".intercalate words) = .ok (start, names)) :
    start = fs.origin a ∧ names = words := by
  obtain ⟨-, -, -, rfl, rfl⟩ := enter_eq_ok h
  rw [steps_text a hne hwords, startsAtRoot_text a hwords]
  refine ⟨?_, rfl⟩
  cases a <;> rfl

/-! ### A name in a directory -/

/-- **A text leads to `name` in the directory `here`.**  Whether something is there is left open. -/
structure LeadsTo (fs : FileSystem) (text : String) (here : Location) (name : String) : Prop where
  /-- The walk goes to the directory and then to the name. -/
  enter : ∃ start names, fs.enter text = .ok (start, names ++ [name]) ∧
    walk fs.tree true maxLinks start (names ++ ["."]) = .ok here
  /-- The name may be looked up. -/
  name : IsName name

theorem locate_eq_ok {last : Option String} (h : fs.locate text = .ok (here, last)) :
    ∃ start names, fs.enter text = .ok (start, names) ∧
      walk fs.tree true maxLinks start (names.dropLast ++ ["."]) = .ok here ∧
      last = names.getLast?.bind fun n => if n = "." ∨ n = ".." then none else some n := by
  obtain ⟨⟨start, names⟩, henter, h⟩ := parts_of_ok h
  obtain ⟨here', hwalk, h⟩ := parts_of_ok h
  refine ⟨start, names, henter, ?_⟩
  cases hlast : names.getLast? with
  | none =>
      rw [hlast] at h
      obtain ⟨rfl, rfl⟩ : here' = here ∧ none = last := by simpa [pure, Except.pure] using h
      exact ⟨ok_of_mapError hwalk, rfl⟩
  | some n =>
      rw [hlast] at h
      obtain ⟨rfl, rfl⟩ : here' = here ∧ (if n = "." ∨ n = ".." then none else some n) = last := by
        simpa [pure, Except.pure] using h
      exact ⟨ok_of_mapError hwalk, rfl⟩

/-- **The place at the end of a text is a name in a directory.** -/
theorem place_eq_ok {special : Errno} (h : fs.place text special = .ok there) :
    ∃ here name, fs.LeadsTo text here name ∧ there = here ++ [name] := by
  obtain ⟨⟨here, last⟩, hlocate, h⟩ := parts_of_ok h
  obtain ⟨start, names, henter, hwalk, rfl⟩ := locate_eq_ok hlocate
  cases hlast : names.getLast? with
  | none => simp [hlast] at h
  | some n =>
      obtain ⟨before, rfl⟩ := List.getLast?_eq_some_iff.1 hlast
      rw [List.dropLast_concat] at hwalk
      by_cases hdots : n = "." ∨ n = ".."
      · simp [hdots] at h
      · by_cases hlong : maxNameBytes < n.utf8ByteSize
        · simp [hdots, hlong] at h
        · obtain rfl : here ++ [n] = there := by
            simpa [hdots, hlong, pure, Except.pure] using h
          obtain ⟨hdot, hdotdot⟩ := not_or.1 hdots
          exact ⟨here, n, ⟨⟨start, before, henter, hwalk⟩, hdot, hdotdot, by omega⟩, rfl⟩

namespace LeadsTo

variable (h : fs.LeadsTo text here name)
include h

/-- How a walk along the text ends depends on what is at the name in the directory. -/
theorem endsIn (follow : Bool) :
    ∃ start names, fs.enter text = .ok (start, names) ∧
      EndsIn fs.tree follow name (.ok here) (walk fs.tree follow maxLinks start names) := by
  obtain ⟨start, names, henter, hwalk⟩ := h.enter
  refine ⟨start, names ++ [name], henter, ?_⟩
  rw [← hwalk]
  exact walk_snoc h.name maxLinks start names

theorem resolve_of_missing (hnone : fs.tree.get? (here ++ [name]) = none) (follow : Bool) :
    fs.resolve text follow = .error (.failed .noEntry) := by
  obtain ⟨start, names, henter, hend⟩ := h.endsIn follow
  simp only [EndsIn, hnone] at hend
  exact resolve_of_walk_error henter hend

theorem resolve_of_directory (hdirectory : fs.tree.get? (here ++ [name]) = some .directory)
    (follow : Bool) : fs.resolve text follow = .ok (here ++ [name]) := by
  obtain ⟨start, names, henter, hend⟩ := h.endsIn follow
  simp only [EndsIn, hdirectory] at hend
  exact resolve_of_walk henter hend

/-- Without following links, a walk that is not refused ends at the name. -/
theorem resolve_of_some {e : Entry} (hget : fs.tree.get? (here ++ [name]) = some e) :
    fs.resolve text false = .ok (here ++ [name]) := by
  obtain ⟨start, names, henter, hend⟩ := h.endsIn false
  refine resolve_of_walk henter ?_
  simp only [EndsIn, hget] at hend
  cases e with
  | directory => exact hend
  | file content executable => exact hend
  | link text => exact hend trivial

theorem lstat_eq {e : Entry} (hget : fs.tree.get? (here ++ [name]) = some e) :
    fs.lstat text = .ok e := by
  simp only [lstat, entryAt, h.resolve_of_some hget, bind, Except.bind, hget]
  rfl

/-- What is no link is found. -/
theorem stat_eq {e : Entry} (hget : fs.tree.get? (here ++ [name]) = some e)
    (he : ∀ text, e ≠ .link text) : fs.stat text = .ok e := by
  obtain ⟨start, names, henter, hend⟩ := h.endsIn true
  have hwalk : walk fs.tree true maxLinks start names = .ok (here ++ [name]) := by
    simp only [EndsIn, hget] at hend
    cases e with
    | directory => exact hend
    | file content executable => exact hend
    | link text => exact absurd rfl (he text)
  simp only [stat, entryAt, resolve_of_walk henter hwalk, bind, Except.bind, hget]
  rfl

/-- The text leads to the same name in a tree that has kept what was there, unless the directory is
gone. -/
theorem of_kept {gone : Location → Prop} (ht : fs.tree.Kept gone fs'.tree)
    (hdirectory : fs'.workingDirectory = fs.workingDirectory) (hhere : ¬gone here) :
    fs'.LeadsTo text here name := by
  obtain ⟨start, names, henter, hwalk⟩ := h.enter
  refine ⟨⟨start, names, ?_, (walk_of_kept ht hwalk).resolve_right hhere⟩, h.name⟩
  rw [enter_congr hdirectory, henter]

/-- In a tree that has grown the text leads to the same name. -/
theorem of_grown (ht : fs.tree.Grown fs'.tree)
    (hdirectory : fs'.workingDirectory = fs.workingDirectory) : fs'.LeadsTo text here name :=
  h.of_kept ht.kept hdirectory id

end LeadsTo

/-! ### Below a path -/

/-- The directory that a path leads to, as a call on something below it finds it. -/
def reach (fs : FileSystem) (p : Path) : Except Errno Location :=
  walk fs.tree true maxLinks (fs.origin p.anchor) (p.parts ++ ["."])

/-- A path leads to the same directory as long as that is not gone. -/
theorem reach_of_kept {gone : Location → Prop} (ht : fs.tree.Kept gone fs'.tree)
    (hdirectory : fs'.workingDirectory = fs.workingDirectory) {p : Path}
    (hreach : fs.reach p = .ok here) (hhere : ¬gone here) : fs'.reach p = .ok here := by
  have horigin : fs'.origin p.anchor = fs.origin p.anchor := by rw [origin, origin, hdirectory]
  rw [reach, horigin]
  exact (walk_of_kept ht hreach).resolve_right hhere

/-- The names of a path without components may be written as a dot, which a walk skips. -/
theorem walk_written (p : Path) (t : Tree) (follow : Bool) (links : Nat) (here : Location)
    (rest : List String) :
    walk t follow links here (p.written ++ rest) = walk t follow links here (p.parts ++ rest) := by
  unfold written
  split
  · next h => cases links <;> simp [h.2, walk, walkWith]
  · rfl

variable {p : Path} {w : String}

/-- What lies below a path is a name in the directory that the path leads to. -/
theorem reach_of_leadsTo_child (hp : p.Clean) (hw : IsPart w)
    (h : fs.LeadsTo (p.child w).toString here name) : fs.reach p = .ok here ∧ name = w := by
  obtain ⟨start, names, henter, hwalk⟩ := h.enter
  rw [toString_child p hw] at henter
  obtain ⟨rfl, hnames⟩ := enter_text (by simp) (hp.parts.concat hw) henter
  obtain ⟨rfl, hname⟩ : names = p.parts ∧ [name] = [w] := List.append_inj' hnames rfl
  exact ⟨hwalk, by simpa using hname⟩

theorem reach_of_leadsTo_textBelow (hp : p.Clean) (hw : IsPart w)
    (h : fs.LeadsTo (textBelow p.toString w) here name) : fs.reach p = .ok here ∧ name = w := by
  obtain ⟨start, names, henter, hwalk⟩ := h.enter
  rw [textBelow_toString hp] at henter
  obtain ⟨rfl, hnames⟩ := enter_text (by simp) (hp.written.concat hw) henter
  obtain ⟨rfl, hname⟩ : names = p.written ∧ [name] = [w] := List.append_inj' hnames rfl
  rw [walk_written] at hwalk
  exact ⟨hwalk, by simpa using hname⟩

/-- Entering the text of a path. -/
theorem enter_toString (hp : p.Clean) (h : fs.enter p.toString = .ok (start, names)) :
    start = fs.origin p.anchor ∧
      ∀ (t : Tree) (follow : Bool) (links : Nat) (here : Location),
        walk t follow links here names = walk t follow links here p.parts := by
  rw [toString_eq] at h
  by_cases hne : p.written = []
  -- this is a root directory, whose text is slashes only and counts as a dot
  · obtain ⟨hroot, hparts⟩ : p.anchor ≠ .relative ∧ p.parts = [] := by
      unfold written at hne
      split at hne
      · simp at hne
      · next h => exact ⟨fun ha => h ⟨ha, hne⟩, hne⟩
    obtain ⟨-, -, -, rfl, rfl⟩ := enter_eq_ok h
    rw [hne, String.intercalate_nil, String.append_empty, hparts]
    cases ha : p.anchor with
    | relative => exact absurd ha hroot
    | root => exact ⟨rfl, fun t follow links here => by cases links <;> rfl⟩
    | doubleRoot => exact ⟨rfl, fun t follow links here => by cases links <;> rfl⟩
  · obtain ⟨rfl, rfl⟩ := enter_text hne hp.written h
    refine ⟨rfl, fun t follow links here => ?_⟩
    have := walk_written p t follow links here []
    rwa [List.append_nil, List.append_nil] at this

theorem enter_ne_noEntry (hne : text ≠ "") : fs.enter text ≠ .error (.failed .noEntry) := by
  intro h
  rw [enter_eq] at h
  rw [if_neg hne] at h
  split at h
  · simp at h
  split at h
  · injection h with h
    injection h with h
    exact absurd h (by decide)
  · simp at h

theorem exists_enter_of_resolve {follow : Bool} (h : fs.resolve text follow = .ok here) :
    ∃ start names, fs.enter text = .ok (start, names) ∧
      walk fs.tree follow maxLinks start names = .ok here := by
  obtain ⟨⟨start, names⟩, henter, h⟩ := parts_of_ok h
  exact ⟨start, names, henter, ok_of_mapError h⟩

/-- **Below a path that leads somewhere, a look that finds nothing, or a directory, has looked
there.** -/
theorem leadsTo_of_lstat (hp : p.Clean) (hw : IsPart w) (hname : IsName w)
    (hroot : fs.resolve p.toString true = .ok here)
    (hl : fs.lstat (p.child w).toString = .error (.failed .noEntry) ∨
      fs.lstat (p.child w).toString = .ok .directory) :
    fs.LeadsTo (p.child w).toString here w := by
  obtain ⟨start, names, henter, hwalk⟩ := exists_enter_of_resolve hroot
  obtain ⟨rfl, hnames⟩ := enter_toString hp henter
  rw [hnames] at hwalk
  cases hchild : fs.enter (p.child w).toString with
  | error r =>
      have hne := toString_ne_empty (hp.child hw)
      have hr : fs.lstat (p.child w).toString = .error r := by
        simp [lstat, entryAt, resolve, hchild, bind, Except.bind]
      rw [hr] at hl
      rcases hl with hl | hl
      · cases hl
        exact absurd hchild (enter_ne_noEntry hne)
      · simp at hl
  | ok entered =>
      obtain ⟨start, names⟩ := entered
      have htext := hchild
      rw [toString_child p hw] at htext
      obtain ⟨rfl, rfl⟩ := enter_text (by simp) (hp.parts.concat hw) htext
      have hend : EndsIn fs.tree false w (fs.reach p)
          (walk fs.tree false maxLinks (fs.origin p.anchor) (p.parts ++ [w])) :=
        walk_snoc hname maxLinks (fs.origin p.anchor) p.parts
      cases hreach : fs.reach p with
      | error e =>
          -- the look fails for the same reason: the path cannot be followed, or is no directory
          rw [hreach] at hend
          have hr : fs.lstat (p.child w).toString = .error (.failed e) := by
            have hend' : walk fs.tree false maxLinks (fs.origin p.anchor) (p.parts ++ [w]) =
              .error e := hend
            rw [lstat, entryAt, resolve_of_walk_error hchild hend']
            rfl
          obtain rfl : e = .notDirectory := walk_dot_error hwalk hreach
          rw [hr] at hl
          rcases hl with hl | hl
          · injection hl with hl
            injection hl with hl
            exact absurd hl (by decide)
          · simp at hl
      | ok there =>
          have hthere := walk_of_walk_dot hreach
          rw [hwalk] at hthere
          cases hthere
          exact ⟨⟨_, p.parts, hchild, hreach⟩, hname⟩

/-- A name below a path that can be entered is a name in the directory that the path leads to. -/
theorem leadsTo_child (hp : p.Clean) (hw : IsPart w) (hname : IsName w)
    {entered : Location × List String} (henter : fs.enter (p.child w).toString = .ok entered)
    (hreach : fs.reach p = .ok here) : fs.LeadsTo (p.child w).toString here w := by
  obtain ⟨start, names⟩ := entered
  have htext := henter
  rw [toString_child p hw] at htext
  obtain ⟨rfl, rfl⟩ := enter_text (by simp) (hp.parts.concat hw) htext
  exact ⟨⟨_, p.parts, henter, hreach⟩, hname⟩

/-- A name below a path that has led somewhere leads to the directory that the path leads to now. -/
theorem LeadsTo.of_reach (hp : p.Clean) (hw : IsPart w)
    (h : fs.LeadsTo (p.child w).toString there name)
    (hdirectory : fs'.workingDirectory = fs.workingDirectory) (hreach : fs'.reach p = .ok here) :
    fs'.LeadsTo (p.child w).toString here w := by
  obtain ⟨-, rfl⟩ := reach_of_leadsTo_child hp hw h
  obtain ⟨start, names, henter, -⟩ := h.enter
  rw [← enter_congr hdirectory] at henter
  exact leadsTo_child hp hw h.name henter hreach

/-- **What is found below a path is a name in the directory that the path leads to.** -/
theorem leadsTo_of_resolve (hp : p.Clean) (hw : IsPart w) (hdots : w ≠ "..") {follow : Bool}
    (h : fs.resolve (p.child w).toString follow = .ok there) :
    ∃ here, fs.reach p = .ok here ∧ fs.LeadsTo (p.child w).toString here w ∧
      (fs.tree.get? (here ++ [w])).isSome := by
  obtain ⟨start, names, henter, hwalk⟩ := exists_enter_of_resolve h
  have htext := henter
  rw [toString_child p hw] at htext
  obtain ⟨rfl, rfl⟩ := enter_text (by simp) (hp.parts.concat hw) htext
  obtain ⟨here, links, hreach, hlast⟩ := walk_append_of_ok (by simp) hwalk
  obtain ⟨hname, hthere⟩ := walk_name_of_ok hw.2.1 hdots hlast
  exact ⟨here, hreach, leadsTo_child hp hw hname henter hreach, hthere⟩

/-- **Where a name below a path that is found lies**, if it is no link. -/
theorem leadsTo_of_stat (hp : p.Clean) (hw : IsPart w) (hdots : w ≠ "..")
    (hlinks : ∀ here, fs.reach p = .ok here → ∀ text,
      fs.tree.get? (here ++ [w]) ≠ some (.link text)) {e : Entry}
    (hstat : fs.stat (p.child w).toString = .ok e) :
    ∃ here, fs.LeadsTo (p.child w).toString here w ∧ fs.tree.get? (here ++ [w]) = some e := by
  obtain ⟨there, hresolve, -⟩ := parts_of_ok hstat
  obtain ⟨here, hreach, hleads, hthere⟩ := leadsTo_of_resolve hp hw hdots hresolve
  obtain ⟨e', he'⟩ := Option.isSome_iff_exists.1 hthere
  have hfound := hleads.stat_eq he' fun text htext => hlinks here hreach text (by rw [he', htext])
  obtain rfl : e' = e := by simpa [hfound] using hstat
  exact ⟨here, hleads, he'⟩

/-- A path that leads to a directory is found, if something below it can be entered. -/
theorem stat_of_reach (hp : p.Clean) (hne : p.parts ≠ []) (hw : IsPart w)
    {entered : Location × List String} (henter : fs.enter (p.child w).toString = .ok entered)
    (hreach : fs.reach p = .ok here) (hdirectory : fs.tree.get? here = some .directory) :
    fs.stat p.toString = .ok .directory := by
  have hpart : ∃ before after, (p.child w).toString = before ++ p.toString ++ after := by
    refine ⟨"", "/" ++ w, ?_⟩
    rw [toString_child p hw, toString_eq, written, if_neg (by simp [hne]),
      String.intercalate_append_of_ne_nil hne (by simp)]
    simp [String.append_assoc]
  obtain ⟨⟨start, names⟩, hentered⟩ := exists_enter_of_part (toString_ne_empty hp) hpart henter
  obtain ⟨rfl, hnames⟩ := enter_toString hp hentered
  have hwalk : walk fs.tree true maxLinks (fs.origin p.anchor) names = .ok here := by
    rw [hnames]
    exact walk_of_walk_dot hreach
  simp only [stat, entryAt, resolve_of_walk hentered hwalk, bind, Except.bind, hdirectory]
  rfl

/-! ### Changes -/

/-- The place at the end of a text is the name that it leads to. -/
theorem LeadsTo.place (h : fs.LeadsTo text here name) (special : Errno) :
    fs.place text special = .ok (here ++ [name]) := by
  obtain ⟨start, names, henter, hwalk⟩ := h.enter
  obtain ⟨hdot, hdots, hlong⟩ := h.name
  have hlong' : ¬maxNameBytes < name.utf8ByteSize := by omega
  simp [FileSystem.place, locate, henter, hwalk, hdot, hdots, hlong', bind, Except.bind, pure,
    Except.pure]

/-- What is no directory can be unlinked. -/
theorem LeadsTo.unlink (h : fs.LeadsTo text here name) {e : Entry}
    (hget : fs.tree.get? (here ++ [name]) = some e) (he : e ≠ .directory) :
    fs.unlink text = .ok { fs with tree := fs.tree.erase (here ++ [name]) } := by
  rw [FileSystem.unlink, h.place]
  simp only [bind, Except.bind, hget]
  cases e with
  | directory => exact absurd rfl he
  | file content executable => rfl
  | link text => rfl

/-- A free place is a name in a directory, and nothing is there. -/
theorem freePlace_eq_ok (h : fs.freePlace text = .ok there) :
    ∃ here name, fs.LeadsTo text here name ∧ fs.tree.get? (here ++ [name]) = none ∧
      there = here ++ [name] := by
  obtain ⟨there', hplace, hfree⟩ := parts_of_ok h
  obtain ⟨here, name, hleads, rfl⟩ := place_eq_ok hplace
  cases hget : fs.tree.get? (here ++ [name]) with
  | some e => simp [Tree.contains, hget] at hfree
  | none =>
      obtain rfl : here ++ [name] = there := by
        simpa [Tree.contains, hget, pure, Except.pure] using hfree
      exact ⟨here, name, hleads, hget, rfl⟩

/-- **A directory that was made is where nothing was.** -/
theorem makeDirectory_eq_ok (h : fs.makeDirectory text = .ok fs') :
    ∃ here name, fs.LeadsTo text here name ∧ fs.tree.get? (here ++ [name]) = none ∧
      fs' = { fs with tree := fs.tree.makeDirectory (here ++ [name]) } := by
  obtain ⟨there, hfree, h⟩ := parts_of_ok h
  obtain ⟨here, name, hleads, hnone, rfl⟩ := freePlace_eq_ok hfree
  exact ⟨here, name, hleads, hnone, by simpa [pure, Except.pure] using h.symm⟩

/-- **What was unlinked was no directory.** -/
theorem unlink_eq_ok (h : fs.unlink text = .ok fs') :
    ∃ here name e, fs.LeadsTo text here name ∧ fs.tree.get? (here ++ [name]) = some e ∧
      e ≠ .directory ∧ fs' = { fs with tree := fs.tree.erase (here ++ [name]) } := by
  obtain ⟨there, hplace, h⟩ := parts_of_ok h
  obtain ⟨here, name, hleads, rfl⟩ := place_eq_ok hplace
  cases hget : fs.tree.get? (here ++ [name]) with
  | none => simp [hget] at h
  | some e =>
      rw [hget] at h
      refine ⟨here, name, e, hleads, hget, ?_⟩
      cases e with
      | directory => simp at h
      | file content executable =>
          exact ⟨by simp, by simpa [pure, Except.pure] using h.symm⟩
      | link text => exact ⟨by simp, by simpa [pure, Except.pure] using h.symm⟩

/-- **A link that was made is where nothing was.** -/
theorem symlink_eq_ok {target : String} (h : fs.symlink target text = .ok fs') :
    ∃ here name, fs.LeadsTo text here name ∧ fs.tree.get? (here ++ [name]) = none ∧
      fs' = { fs with tree := fs.tree.put (here ++ [name]) (.link target) } := by
  unfold symlink at h
  dsimp only at h
  split at h
  · simp [bind, Except.bind] at h
  split at h
  · simp [bind, Except.bind] at h
  split at h
  · simp [bind, Except.bind] at h
  obtain ⟨there, hfree, h⟩ := parts_of_ok h
  obtain ⟨here, name, hleads, hnone, rfl⟩ := freePlace_eq_ok hfree
  exact ⟨here, name, hleads, hnone, by simpa [pure, Except.pure] using h.symm⟩

/-- **A link that could be made once can be made where nothing is.** -/
theorem LeadsTo.symlink {fs₀ fs₁ : FileSystem} {target : String} (h : fs.LeadsTo text here name)
    (hnone : fs.tree.get? (here ++ [name]) = none) (honce : fs₀.symlink target text = .ok fs₁) :
    fs.symlink target text =
      .ok { fs with tree := fs.tree.put (here ++ [name]) (.link target) } := by
  unfold FileSystem.symlink at honce ⊢
  dsimp only at honce ⊢
  split at honce
  · simp [bind, Except.bind] at honce
  next hnull =>
  split at honce
  · simp [bind, Except.bind] at honce
  next hempty =>
  split at honce
  · simp [bind, Except.bind] at honce
  next hlong =>
  rw [if_neg hnull, if_neg hempty, if_neg hlong, freePlace, h.place]
  simp [bind, Except.bind, pure, Except.pure, Tree.contains, hnone]

/-- What can give way to a directory is nothing, or a directory that holds nothing. -/
theorem obstacle?_directory {t : Tree} {new : Location} (h : obstacle? t .directory new = none) :
    t.get? new = none ∨ (t.get? new = some .directory ∧ t.hasBelow new = false) := by
  unfold obstacle? at h
  cases hget : t.get? new with
  | none => exact Or.inl rfl
  | some e =>
      rw [hget] at h
      cases e with
      | directory => exact Or.inr ⟨rfl, by simpa [Entry.isDirectory] using h⟩
      | file content executable => simp [Entry.isDirectory] at h
      | link text => simp [Entry.isDirectory] at h

theorem moveEntry_eq_ok {e : Entry} {old new sourceDirectory targetDirectory : Location}
    (hne : old ≠ new) (h : fs.moveEntry e old new sourceDirectory targetDirectory = .ok fs') :
    obstacle? fs.tree e new = none ∧ fs' = { fs with tree := fs.tree.move old new } := by
  simp only [moveEntry, hne, if_false] at h
  split at h
  · simp at h
  split at h
  · simp at h
  split at h
  · simp at h
  · next hobstacle => exact ⟨hobstacle, by simpa using h.symm⟩

/-- **What was renamed has moved** to where nothing was in the way, or it was there already. -/
theorem rename_eq_ok {source target : String} (h : fs.rename source target = .ok fs') :
    ∃ old new e, fs.place source .busy = .ok old ∧ fs.place target .busy = .ok new ∧
      fs.tree.get? old = some e ∧
      (old ≠ new → obstacle? fs.tree e new = none ∧
        fs' = { fs with tree := fs.tree.move old new }) := by
  unfold rename at h
  split at h
  · simp at h
  obtain ⟨⟨sourceDirectory, sourceName⟩, -, h⟩ := parts_of_ok h
  obtain ⟨⟨targetDirectory, targetName⟩, -, h⟩ := parts_of_ok h
  dsimp only at h
  split at h
  · simp at h
  obtain ⟨old, hold, h⟩ := parts_of_ok h
  obtain ⟨e, he, h⟩ := parts_of_ok h
  obtain ⟨new, hnew, h⟩ := parts_of_ok h
  have hget : fs.tree.get? old = some e := by
    cases hget : fs.tree.get? old with
    | none => simp [hget] at he
    | some e' => simpa [hget, pure, Except.pure] using he
  refine ⟨old, new, e, hold, hnew, hget, fun hne => ?_⟩
  exact moveEntry_eq_ok hne h

/-- Renaming something to itself does nothing. -/
theorem rename_self (h : fs.rename text text = .ok fs') : fs' = fs := by
  unfold rename at h
  split at h
  · simp at h
  obtain ⟨⟨sourceDirectory, sourceName⟩, -, h⟩ := parts_of_ok h
  obtain ⟨⟨targetDirectory, targetName⟩, -, h⟩ := parts_of_ok h
  dsimp only at h
  split at h
  · simp at h
  obtain ⟨old, hold, h⟩ := parts_of_ok h
  obtain ⟨e, -, h⟩ := parts_of_ok h
  obtain ⟨new, hnew, h⟩ := parts_of_ok h
  obtain rfl : old = new := by simpa [hold] using hnew
  simp only [moveEntry, if_true] at h
  split at h
  · simp at h
  split at h
  · simp at h
  · simpa using h.symm

theorem removeTree_of_error {r : Refusal} (h : fs.resolve text false = .error r) :
    fs.removeTree text = fs := by
  rw [removeTree, h]

theorem removeTree_of_directory (h : fs.resolve text false = .ok there)
    (hdirectory : fs.tree.get? there = some .directory) :
    fs.removeTree text = { fs with tree := fs.tree.eraseBelow there } := by
  simp only [removeTree, h, hdirectory]

end FileSystem

end Provision
