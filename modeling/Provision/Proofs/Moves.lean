/-
**What is moved and what is removed.**

A directory below another one is moved by a renaming that succeeds and removed by a removal, as a
whole and without a trace elsewhere.  Once it has been moved, a removal by the old path finds
nothing more, whatever ways of getting there the move has cut off.

Main definitions:

* `Provision.Tree.HasRoom` — a directory can be moved to a place;
* `Provision.FileSystem.Loses`, `Provision.FileSystem.Moves` — **a subtree is gone, or is elsewhere
  now**, and everything else is as it was.

Main results:

* `Provision.FileSystem.loses_removeTree` — a removal removes a subtree;
* `Provision.FileSystem.rename_cases` — **what a renaming comes to**;
* `Provision.FileSystem.moves_rename` — a renaming moves a subtree to where there was room;
* `Provision.FileSystem.removeTree_of_moves` — a removal after the move does nothing.
-/

import Provision.Proofs.Calls

set_option relaxedAutoImplicit false
set_option autoImplicit false

namespace Provision

/-- **A place that a directory can take**: nothing is there, or a directory that holds nothing. -/
structure Tree.HasRoom (t : Tree) (p : Location) : Prop where
  here : t.get? p = none ∨ t.get? p = some .directory
  below : ∀ q, p <+: q → q ≠ p → t.get? q = none

namespace FileSystem

variable {fs fs' : FileSystem} {text : String} {here : Location} {name name' : String}

/-- **`fs'` is `fs` without what was at and below `p`.** -/
structure Loses (fs : FileSystem) (p : Location) (fs' : FileSystem) : Prop where
  workingDirectory : fs'.workingDirectory = fs.workingDirectory
  /-- Exactly the subtree is gone. -/
  tree : ∀ q, fs'.tree.get? q = if p <+: q then none else fs.tree.get? q

/-- **`fs'` is `fs` with what was at and below `old` at and below `new`.** -/
structure Moves (fs : FileSystem) (old new : Location) (fs' : FileSystem) : Prop where
  workingDirectory : fs'.workingDirectory = fs.workingDirectory
  /-- Exactly the subtree is elsewhere. -/
  tree : ∀ q, fs'.tree.get? q =
    if new <+: q then fs.tree.get? (old ++ q.drop new.length)
    else if old <+: q then none
    else fs.tree.get? q

/-! ### Looking -/

/-- A look at a path finds what is at the place that the path leads to. -/
theorem get?_of_stat {e : Entry} (h : fs.stat text = .ok e) :
    ∃ here, fs.resolve text true = .ok here ∧ fs.tree.get? here = some e := by
  obtain ⟨here, hresolve, hentry⟩ := parts_of_ok h
  refine ⟨here, hresolve, ?_⟩
  cases hget : fs.tree.get? here with
  | none => simp [hget] at hentry
  | some e' => simpa [hget, pure, Except.pure] using hentry

theorem stat_of_get? {e : Entry} {here : Location} (hresolve : fs.resolve text true = .ok here)
    (hget : fs.tree.get? here = some e) : fs.stat text = .ok e := by
  simp only [stat, entryAt, hresolve, bind, Except.bind, hget]
  rfl

theorem resolve_of_stat {e : Entry} (h : fs.stat text = .ok e) :
    ∃ here, fs.resolve text true = .ok here := by
  obtain ⟨here, hresolve, -⟩ := get?_of_stat h
  exact ⟨here, hresolve⟩

namespace LeadsTo

variable (h : fs.LeadsTo text here name)
include h

theorem get?_of_lstat_missing (hl : fs.lstat text = .error (.failed .noEntry)) :
    fs.tree.get? (here ++ [name]) = none := by
  cases hget : fs.tree.get? (here ++ [name]) with
  | none => rfl
  | some e =>
      rw [h.lstat_eq hget] at hl
      simp at hl

theorem get?_of_lstat {e : Entry} (hl : fs.lstat text = .ok e) :
    fs.tree.get? (here ++ [name]) = some e := by
  cases hget : fs.tree.get? (here ++ [name]) with
  | none =>
      rw [lstat, entryAt, h.resolve_of_missing hget] at hl
      simp [bind, Except.bind] at hl
  | some e' =>
      rw [h.lstat_eq hget] at hl
      injection hl with hl
      rw [hl]

end LeadsTo

/-! ### Removing -/

/-- **What a removal removes**, be it that there is nothing any more. -/
theorem loses_removeTree (hc : fs.tree.Closed) (h : fs.LeadsTo text here name)
    (hget : fs.tree.get? (here ++ [name]) = none ∨
      fs.tree.get? (here ++ [name]) = some .directory) :
    fs.Loses (here ++ [name]) (fs.removeTree text) := by
  rcases hget with hnone | hdirectory
  · rw [removeTree_of_error (h.resolve_of_missing hnone false)]
    refine ⟨rfl, fun q => ?_⟩
    by_cases hq : here ++ [name] <+: q
    · rw [if_pos hq]
      by_cases hqe : q = here ++ [name]
      · rw [hqe, hnone]
      · exact hc.below (by simp [hnone]) hq hqe
    · rw [if_neg hq]
  · rw [removeTree_of_directory (h.resolve_of_directory hdirectory false) hdirectory]
    exact ⟨rfl, fun q => Tree.get?_eraseBelow fs.tree (by simp) q⟩

/-! ### Moving -/

theorem not_prefix_of_ne (here : Location) (hne : name ≠ name') :
    ¬here ++ [name] <+: here ++ [name'] := by
  intro h
  have := (List.prefix_append_right_inj here).1 h
  exact hne (by simpa using this)

/-- What can give way to a directory is a place for one. -/
theorem hasRoom_of_obstacle? {t : Tree} {new : Location} (hc : t.Closed)
    (h : obstacle? t .directory new = none) : t.HasRoom new := by
  rcases obstacle?_directory h with hnone | ⟨hempty, hbelow⟩
  · exact ⟨Or.inl hnone, fun q hq hqe => hc.below (by simp [hnone]) hq hqe⟩
  · exact ⟨Or.inr hempty, fun q hq hqe => Tree.get?_of_not_hasBelow hbelow hq hqe⟩

/-- The place at the end of a text is a name in the directory that was located. -/
theorem leadsTo_of_locate {directory place : Location} {last : Option String} {special : Errno}
    (hlocate : fs.locate text = .ok (directory, last)) (hplace : fs.place text special = .ok place) :
    ∃ name, fs.LeadsTo text directory name ∧ place = directory ++ [name] := by
  obtain ⟨here, name, hleads, rfl⟩ := place_eq_ok hplace
  obtain ⟨start, names, henter, hwalk⟩ := hleads.enter
  obtain ⟨start', names', henter', hwalk', -⟩ := locate_eq_ok hlocate
  obtain ⟨rfl, rfl⟩ : start = start' ∧ names ++ [name] = names' := by
    simpa [henter] using henter'
  rw [List.dropLast_concat, hwalk] at hwalk'
  obtain rfl : here = directory := by simpa using hwalk'
  exact ⟨name, hleads, rfl⟩

/-- **What was renamed has moved**, to a place where nothing was in its way, and neither of the two
places lies in the other; or it has been there already. -/
theorem rename_cases {source target : String} (h : fs.rename source target = .ok fs') :
    fs' = fs ∨ ∃ here name there name' e, fs.LeadsTo source here name ∧
      fs.LeadsTo target there name' ∧ fs.tree.get? (here ++ [name]) = some e ∧
      obstacle? fs.tree e (there ++ [name']) = none ∧ ¬here ++ [name] <+: there ∧
      ¬there ++ [name'] <+: here ++ [name] ∧ fs.Moves (here ++ [name]) (there ++ [name']) fs' := by
  unfold rename at h
  split at h
  · simp at h
  obtain ⟨⟨sourceDirectory, sourceName⟩, hsource, h⟩ := parts_of_ok h
  obtain ⟨⟨targetDirectory, targetName⟩, htarget, h⟩ := parts_of_ok h
  dsimp only at h
  split at h
  · simp at h
  obtain ⟨old, hold, h⟩ := parts_of_ok h
  obtain ⟨e, he, h⟩ := parts_of_ok h
  obtain ⟨new, hnew, h⟩ := parts_of_ok h
  obtain ⟨name, hleads, rfl⟩ := leadsTo_of_locate hsource hold
  obtain ⟨name', hleads', rfl⟩ := leadsTo_of_locate htarget hnew
  have hget : fs.tree.get? (sourceDirectory ++ [name]) = some e := by
    cases hget : fs.tree.get? (sourceDirectory ++ [name]) with
    | none => simp [hget] at he
    | some e' => simpa [hget, pure, Except.pure] using he
  unfold moveEntry at h
  split at h
  · simp at h
  next hbelow =>
  split at h
  · simp at h
  next habove =>
  split at h
  · exact Or.inl (by simpa using h.symm)
  next hne =>
  split at h
  · simp at h
  next hobstacle =>
  obtain rfl : _ = fs' := by simpa using h
  rw [List.isPrefixOf_iff_prefix] at hbelow habove
  have hout : ¬targetDirectory ++ [name'] <+: sourceDirectory ++ [name] := by
    intro hpre
    rcases List.prefix_concat_iff.1 hpre with heq | hpre
    · exact hne heq.symm
    · exact habove hpre
  refine Or.inr ⟨_, name, _, name', e, hleads, hleads', hget, hobstacle, hbelow, hout, rfl,
    Tree.get?_move ?_ hout⟩
  intro hpre
  rcases List.prefix_concat_iff.1 hpre with heq | hpre
  · exact hne heq
  · exact hbelow hpre

/-- **A renaming moves a directory below a path to where there is room.** -/
theorem moves_rename {p : Path} {w w' : String} (hc : fs.tree.Closed) (hp : p.Clean)
    (hw : Path.IsPart w) (hw' : Path.IsPart w') (hne : w ≠ w')
    (hleads : fs.LeadsTo (p.child w).toString here w)
    (hget : fs.tree.get? (here ++ [w]) = none ∨ fs.tree.get? (here ++ [w]) = some .directory)
    (h : fs.rename (p.child w).toString (p.child w').toString = .ok fs') :
    fs.tree.get? (here ++ [w]) = some .directory ∧ fs.tree.HasRoom (here ++ [w']) ∧
      fs.Moves (here ++ [w]) (here ++ [w']) fs' := by
  obtain ⟨old, new, e, hold, hnew, he, hmoved⟩ := rename_eq_ok h
  obtain ⟨there, name, hleads₁, rfl⟩ := place_eq_ok hold
  obtain ⟨there', name', hleads₂, rfl⟩ := place_eq_ok hnew
  -- both paths lead to the same directory, namely to the one that `p` leads to
  obtain ⟨hreach, -⟩ := reach_of_leadsTo_child hp hw hleads
  obtain ⟨hreach₁, rfl⟩ := reach_of_leadsTo_child hp hw hleads₁
  obtain ⟨hreach₂, rfl⟩ := reach_of_leadsTo_child hp hw' hleads₂
  obtain rfl : here = there := by simpa [hreach] using hreach₁
  obtain rfl : here = there' := by simpa [hreach] using hreach₂
  have hdirectory : fs.tree.get? (here ++ [name]) = some .directory := by
    rcases hget with hnone | hdirectory
    · rw [hnone] at he
      simp at he
    · exact hdirectory
  obtain rfl : Entry.directory = e := by simpa [hdirectory] using he
  -- the two places differ, so that the renaming is a move
  obtain ⟨hobstacle, rfl⟩ := hmoved (by simpa using hne)
  exact ⟨hdirectory, hasRoom_of_obstacle? hc hobstacle, rfl,
    Tree.get?_move (not_prefix_of_ne here hne) (not_prefix_of_ne here hne.symm)⟩

/-- **A removal by the old path of what has been moved does nothing.** -/
theorem removeTree_of_moves {new : Location} (h : fs.LeadsTo text here name)
    (hout : ¬new <+: here ++ [name])
    (hdirectory : fs.tree.get? (here ++ [name]) = some .directory) (hroom : fs.tree.HasRoom new)
    (hmoves : fs.Moves (here ++ [name]) new fs') : fs'.removeTree text = fs' := by
  obtain ⟨start, names, henter, hwalk⟩ := h.enter
  have henter' : fs'.enter text = .ok (start, names ++ [name]) := by
    rw [enter_congr hmoves.workingDirectory, henter]
  -- an entry on the way is still the same, unless it is one of those that have moved
  have hlost : ∀ q, (fs.tree.get? q).isSome →
      fs'.tree.get? q = fs.tree.get? q ∨ (True ∧ fs'.tree.get? q = none) := by
    intro q hq
    rw [hmoves.tree q]
    by_cases hnew : new <+: q
    · left
      by_cases hqe : q = new
      · subst hqe
        rcases hroom.here with hnone | hempty
        · simp [hnone] at hq
        · simp [hdirectory, hempty]
      · rw [hroom.below q hnew hqe] at hq
        simp at hq
    · by_cases hold : here ++ [name] <+: q
      · right
        simp [hnew, hold]
      · left
        simp [hnew, hold]
  have hgone : fs'.tree.get? (here ++ [name]) = none := by
    rw [hmoves.tree, if_neg hout, if_pos (List.prefix_refl _)]
  have hend : EndsIn fs'.tree false name (walk fs'.tree true maxLinks start (names ++ ["."]))
      (walk fs'.tree false maxLinks start (names ++ [name])) :=
    walk_snoc h.name maxLinks start names
  -- the walk to the directory ends there as before, and finds nothing; or it has been cut off
  rcases walk_of_lost hlost maxLinks start (names ++ ["."]) here hwalk with hsame | ⟨-, e, he⟩
  · rw [hsame] at hend
    simp only [EndsIn, hgone] at hend
    exact removeTree_of_error (resolve_of_walk_error henter' hend)
  · rw [he] at hend
    simp only [EndsIn] at hend
    exact removeTree_of_error (resolve_of_walk_error henter' hend)

end FileSystem

end Provision
