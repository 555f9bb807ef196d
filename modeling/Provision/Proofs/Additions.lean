/-
**What installing adds.**

If the downloads stay in the directories that they are launched in, then installing distributions
removes nothing: whatever was there is there as it was.  What is new are directories on the way to
the root, and what lies in the place of a distribution that was missing.  This holds however the
installation of one of them ends, and for any number of them, one after the other.

Main definitions:

* `Provision.FileSystem.Same` — the same files;
* `Provision.Launch.Confined` — a download that stays in its place;
* `Provision.Toolchain.Distribution` — a distribution that has been put where there was room for it;
* `Provision.Toolchain.Fills` — a staging directory that has come into the place of a version;
* `Provision.Toolchain.Adds` — **nothing but directories on the way and distributions is new**.

Main results:

* `Provision.Toolchain.Staged.of_removed` — without the staging directory everything is as before it;
* `Provision.Toolchain.fills_of_rename` — what renaming the staging directory comes to;
* `Provision.Toolchain.gains_of_course` — **one installation removes nothing**, whatever its version is;
* `Provision.Toolchain.adds_of_course` — **one installation**;
* `Provision.Toolchain.Adds.trans` — one after the other.
-/

import Provision.Proofs.Fetching

set_option relaxedAutoImplicit false
set_option autoImplicit false

namespace Provision

/-! ### Trees that only gain -/

namespace Tree

variable {t t' t'' : Tree}

/-- **All that was there is there as it was.** -/
def Gains (t t' : Tree) : Prop := ∀ q, (t.get? q).isSome → t'.get? q = t.get? q

theorem Gains.refl (t : Tree) : t.Gains t := fun _ _ => rfl

theorem Gains.trans (h : t.Gains t') (h' : t'.Gains t'') : t.Gains t'' := by
  intro q hq
  have hsame := h q hq
  rw [h' q (by rwa [hsame]), hsame]

/-- What is not there in the end was not there before. -/
theorem Gains.none_of_none (h : t.Gains t') {q : Location} (hq : t'.get? q = none) :
    t.get? q = none := by
  cases hget : t.get? q with
  | none => rfl
  | some e =>
      rw [h q (by rw [hget]; rfl), hget] at hq
      simp at hq

theorem Gains.kept (h : t.Gains t') : t.Kept (fun _ => False) t' :=
  fun q e hq => Or.inl ⟨e, by rw [h q (by rw [hq]; rfl), hq], .refl e⟩

/-- Without one entry there is less. -/
theorem gains_of_erase (t : Tree) {p : Location} (hp : p ≠ []) : (t.erase p).Gains t := by
  intro q hq
  rw [get?_erase t hp] at hq ⊢
  split at hq
  · simp at hq
  · next hne => rw [if_neg hne]

/-- With one entry more there is more. -/
theorem gains_of_put {p : Location} (e : Entry) (hp : p ≠ []) (hnone : t.get? p = none) :
    t.Gains (t.put p e) := by
  intro q hq
  rw [get?_put t hp, if_neg]
  rintro rfl
  simp [hnone] at hq

theorem Grown.gains (h : t.Grown t') : t.Gains t' := by
  intro q hq
  rcases h q with hsame | ⟨hnone, -⟩
  · exact hsame
  · simp [hnone] at hq

theorem HasRoom.of_gains {p : Location} (hroom : t'.HasRoom p) (h : t.Gains t') : t.HasRoom p where
  here := by
    cases hget : t.get? p with
    | none => exact Or.inl rfl
    | some e =>
        have hsame := h p (by rw [hget]; rfl)
        rcases hroom.here with hnone | hdirectory
        · rw [hsame, hget] at hnone
          simp at hnone
        · right
          rw [← hget, ← hsame, hdirectory]
  below := fun q hq hne => h.none_of_none (hroom.below q hq hne)

/-- Closedness depends on what is where only. -/
theorem Closed.congr (hc : t.Closed) (h : ∀ q, t'.get? q = t.get? q) : t'.Closed := by
  intro q name hq
  rw [h] at hq ⊢
  exact hc q name hq

end Tree

namespace FileSystem

variable {fs fs' : FileSystem} {text : String} {here there : Location} {name name' : String}

/-- A path leads where it has led before anything was gained. -/
theorem resolve_of_gains (h : fs.tree.Gains fs'.tree)
    (hdirectory : fs'.workingDirectory = fs.workingDirectory) {follow : Bool}
    (hresolve : fs.resolve text follow = .ok there) : fs'.resolve text follow = .ok there := by
  obtain ⟨start, names, henter, hwalk⟩ := exists_enter_of_resolve hresolve
  refine resolve_of_walk (by rw [enter_congr hdirectory, henter]) ?_
  exact (walk_of_kept h.kept hwalk).resolve_right id

theorem reach_of_gains (h : fs.tree.Gains fs'.tree)
    (hdirectory : fs'.workingDirectory = fs.workingDirectory) {p : Path}
    (hreach : fs.reach p = .ok here) : fs'.reach p = .ok here :=
  reach_of_kept h.kept hdirectory hreach id

theorem WellFormed.of_gains (hfs : fs.WellFormed) (h : fs.tree.Gains fs'.tree)
    (hdirectory : fs'.workingDirectory = fs.workingDirectory) (hc : fs'.tree.Closed) :
    fs'.WellFormed where
  closed := hc
  workingDirectory := by
    rw [hdirectory, h _ (by rw [hfs.workingDirectory]; rfl), hfs.workingDirectory]

theorem stat_of_gains (h : fs.tree.Gains fs'.tree)
    (hdirectory : fs'.workingDirectory = fs.workingDirectory) {e : Entry}
    (hstat : fs.stat text = .ok e) : fs'.stat text = .ok e := by
  obtain ⟨there, hresolve, hget⟩ := get?_of_stat hstat
  exact stat_of_get? (resolve_of_gains h hdirectory hresolve)
    (by rw [h there (by rw [hget]; rfl), hget])

/-- **The files are the same**, place by place. -/
structure Same (fs fs' : FileSystem) : Prop where
  workingDirectory : fs'.workingDirectory = fs.workingDirectory
  tree : ∀ q, fs'.tree.get? q = fs.tree.get? q

namespace Same

variable {fs'' : FileSystem}

theorem refl (fs : FileSystem) : fs.Same fs := ⟨rfl, fun _ => rfl⟩

theorem of_eq (h : fs' = fs) : fs.Same fs' := h ▸ .refl fs

theorem symm (h : fs.Same fs') : fs'.Same fs :=
  ⟨h.workingDirectory.symm, fun q => (h.tree q).symm⟩

theorem trans (h : fs.Same fs') (h' : fs'.Same fs'') : fs.Same fs'' :=
  ⟨h'.workingDirectory.trans h.workingDirectory, fun q => (h'.tree q).trans (h.tree q)⟩

theorem gains (h : fs.Same fs') : fs.tree.Gains fs'.tree := fun q _ => h.tree q

theorem wellFormed (h : fs.Same fs') (hfs : fs.WellFormed) : fs'.WellFormed :=
  hfs.of_gains h.gains h.workingDirectory (hfs.closed.congr h.tree)

end Same

/-- Moving a subtree to another place in a directory leaves the tree closed. -/
theorem Moves.closed_of_apart {old : Location} (hc : fs.tree.Closed)
    (hhere : fs.tree.get? here = some .directory) (hapart : ¬old <+: here)
    (hmoves : fs.Moves old (here ++ [name']) fs') : fs'.tree.Closed := by
  intro q last hq
  rw [hmoves.tree] at hq ⊢
  by_cases hnew : here ++ [name'] <+: q
  -- the directory around what has moved has moved as well
  · obtain ⟨rest, rfl⟩ := hnew
    rw [List.append_assoc (here ++ [name']), if_pos (by simp), List.drop_left,
      ← List.append_assoc] at hq
    rw [if_pos (by simp), List.drop_left]
    exact hc _ last hq
  rw [if_neg hnew]
  by_cases htop : q ++ [last] = here ++ [name']
  · obtain ⟨rfl, -⟩ : q = here ∧ [last] = [name'] := by simpa using htop
    rw [if_neg hapart, hhere]
  have hout : ¬here ++ [name'] <+: q ++ [last] := by
    intro hpre
    rcases List.prefix_concat_iff.1 hpre with heq | hpre
    · exact htop heq.symm
    · exact hnew hpre
  rw [if_neg hout] at hq
  by_cases hold : old <+: q
  · rw [if_pos (hold.trans (List.prefix_append q [last]))] at hq
    simp at hq
  · rw [if_neg hold]
    split at hq
    · simp at hq
    · exact hc q last hq

/-- Moving a subtree to another name in the same directory leaves the tree closed. -/
theorem Moves.closed (hc : fs.tree.Closed) (hhere : fs.tree.get? here = some .directory)
    (hmoves : fs.Moves (here ++ [name]) (here ++ [name']) fs') :
    fs'.tree.Closed := by
  refine hmoves.closed_of_apart hc hhere fun hpre => ?_
  have hlength := hpre.length_le
  rw [List.length_append, List.length_singleton] at hlength
  omega

end FileSystem

/-! ### Downloads -/

/-- **A download that stays in its place**: it changes only what is below the directory that it was
launched in. -/
structure Launch.Confined (l : Launch) : Prop where
  /-- What it leaves is a file tree. -/
  closed : l.after.tree.Closed
  workingDirectory : l.after.workingDirectory = l.before.workingDirectory
  /-- The directory itself and all that is not below it is as it was. -/
  tree : ∀ top, l.before.resolve l.command.directory.toString true = .ok top →
    ∀ q, (top <+: q → q = top) → l.after.tree.get? q = l.before.tree.get? q

namespace Launch

variable {l : Launch}

/-- A download that changes nothing stays in its place, -/
theorem confined_of_same (hc : l.after.tree.Closed) (h : l.after = l.before) : l.Confined :=
  ⟨hc, by rw [h], fun _ _ _ _ => by rw [h]⟩

/-- and so does one that leaves one more entry below it. -/
theorem confined_of_put {top rest : Location} {e : Entry} (hc : l.after.tree.Closed)
    (htop : l.before.resolve l.command.directory.toString true = .ok top) (hrest : rest ≠ [])
    (h : l.after = { l.before with tree := l.before.tree.put (top ++ rest) e }) : l.Confined := by
  refine ⟨hc, by rw [h], fun top' htop' q hq => ?_⟩
  obtain rfl : top = top' := by simpa [htop] using htop'
  have hother : q ≠ top ++ rest := by
    rintro rfl
    exact hrest (List.append_right_eq_self.1 (hq (List.prefix_append _ _)))
  rw [h, Tree.get?_put _ (by simp [hrest]), if_neg hother]

end Launch

/-- **Nothing is left where a download was launched**, and nothing had been there. -/
def Launch.Vanishes (l : Launch) (fs fs' : FileSystem) : Prop :=
  ∀ top, l.before.resolve l.command.directory.toString true = .ok top →
    fs.tree.get? top = none ∧ fs'.tree.get? top = none

namespace Toolchain

variable {version : String} {layout : Layout} {fs fs' fs'' ext : FileSystem} {here : Location}
  {n : Nat} {l : Launch}

/-- **The distribution of a version has been put in its place**, in the directory that the root leads
to: there was room for it, and its path had led nowhere. -/
structure Distribution (layout : Layout) (version : String) (here : Location)
    (fs fs' : FileSystem) : Prop where
  root : fs'.reach layout.root = .ok here
  missing : ∀ e, fs.stat (layout.goDir version).toString ≠ .ok e
  room : fs.tree.HasRoom (here ++ ["go-" ++ version])
  place : fs'.tree.get? (here ++ ["go-" ++ version]) = some .directory

namespace Distribution

/-- A distribution stays in its place while nothing is lost, -/
theorem of_later (h : Distribution layout version here fs fs') (hgains : fs'.tree.Gains fs''.tree)
    (hdirectory : fs''.workingDirectory = fs'.workingDirectory) :
    Distribution layout version here fs fs'' where
  root := FileSystem.reach_of_gains hgains hdirectory h.root
  missing := h.missing
  room := h.room
  place := by rw [hgains _ (by rw [h.place]; rfl), h.place]

/-- and its place was free when there was less. -/
theorem of_earlier (h : Distribution layout version here fs' fs'') (hgains : fs.tree.Gains fs'.tree)
    (hdirectory : fs'.workingDirectory = fs.workingDirectory) :
    Distribution layout version here fs fs'' where
  root := h.root
  missing := fun e he => h.missing e (FileSystem.stat_of_gains hgains hdirectory he)
  room := h.room.of_gains hgains
  place := h.place

end Distribution

/-- **What installing some versions adds**: all that was there is there as it was, and what is new is a
directory on the way to the root, or belongs to a distribution. -/
structure Adds (layout : Layout) (versions : List String) (fs fs' : FileSystem) : Prop where
  workingDirectory : fs'.workingDirectory = fs.workingDirectory
  closed : fs'.tree.Closed
  gains : fs.tree.Gains fs'.tree
  new : ∀ q, fs'.tree.get? q = fs.tree.get? q ∨
    (fs.tree.get? q = none ∧ fs'.tree.get? q = some .directory ∧
      ∃ n, fs'.resolve (layout.root.ancestor n).toString true = .ok q) ∨
    ∃ version ∈ versions, ∃ here, Distribution layout version here fs fs' ∧
      here ++ ["go-" ++ version] <+: q

namespace Adds

variable {versions versions' : List String}

theorem refl (layout : Layout) (hc : fs.tree.Closed) : Adds layout [] fs fs :=
  ⟨rfl, hc, .refl _, fun _ => Or.inl rfl⟩

theorem wellFormed (h : Adds layout versions fs fs') (hfs : fs.WellFormed) : fs'.WellFormed :=
  hfs.of_gains h.gains h.workingDirectory h.closed

/-- What belongs to some versions belongs to more versions. -/
theorem mono (h : Adds layout versions fs fs') (hsub : versions ⊆ versions') :
    Adds layout versions' fs fs' where
  workingDirectory := h.workingDirectory
  closed := h.closed
  gains := h.gains
  new := by
    intro q
    rcases h.new q with hsame | hway | ⟨version, hv, here, hplace, hq⟩
    · exact Or.inl hsame
    · exact Or.inr (Or.inl hway)
    · exact Or.inr (Or.inr ⟨version, hsub hv, here, hplace, hq⟩)

/-- One installation after the other. -/
theorem trans (h : Adds layout versions fs fs') (h' : Adds layout versions' fs' fs'') :
    Adds layout (versions ++ versions') fs fs'' where
  workingDirectory := h'.workingDirectory.trans h.workingDirectory
  closed := h'.closed
  gains := h.gains.trans h'.gains
  new := by
    intro q
    rcases h'.new q with hsame | ⟨hnone, hdirectory, n, hway⟩ | ⟨version, hv, here, hplace, hq⟩
    · rw [hsame]
      rcases h.new q with hsame' | ⟨hnone, hdirectory, n, hway⟩ | ⟨version, hv, here, hplace, hq⟩
      · exact Or.inl hsame'
      · refine Or.inr (Or.inl ⟨hnone, hdirectory, n, ?_⟩)
        exact FileSystem.resolve_of_gains h'.gains h'.workingDirectory hway
      · refine Or.inr (Or.inr ⟨version, List.mem_append_left _ hv, here, ?_, hq⟩)
        exact hplace.of_later h'.gains h'.workingDirectory
    · exact Or.inr (Or.inl ⟨h.gains.none_of_none hnone, hdirectory, n, hway⟩)
    · refine Or.inr (Or.inr ⟨version, List.mem_append_right _ hv, here, ?_, hq⟩)
      exact hplace.of_earlier h.gains h.workingDirectory

end Adds

/-! ### One installation -/

/-- The directory that a download is launched in is its staging directory. -/
theorem Staged.resolve (hstaged : Staged layout fs ext here n l.before)
    (hcommand : l.command = download version layout.root n) :
    l.before.resolve l.command.directory.toString true = .ok (here ++ [stagingName n]) := by
  have htop := hstaged.leadsTo.resolve_of_directory (by rw [hstaged.tree, if_pos rfl]) true
  rw [hcommand]
  exact htop

/-- Nothing is left of a download if nothing is left of its staging directory. -/
theorem Staged.vanishes (hstaged : Staged layout fs ext here n l.before)
    (hcommand : l.command = download version layout.root n)
    (hgone : fs'.tree.get? (here ++ [stagingName n]) = none) : l.Vanishes fs fs' := by
  intro top htop
  rw [hstaged.resolve hcommand] at htop
  obtain rfl : here ++ [stagingName n] = top := by simpa using htop
  exact ⟨hstaged.grows.grown.gains.none_of_none hstaged.fresh, hgone⟩

/-- A confined download leaves everything but what is below the staging directory. -/
theorem Staged.get?_of_confined (hstaged : Staged layout fs ext here n l.before)
    (hcommand : l.command = download version layout.root n) (hl : l.Confined) {q : Location}
    (hq : here ++ [stagingName n] <+: q → q = here ++ [stagingName n]) :
    l.after.tree.get? q = l.before.tree.get? q :=
  hl.tree _ (hstaged.resolve hcommand) q hq

/-- **Without the staging directory everything is as before it.** -/
theorem Staged.of_removed (hstaged : Staged layout fs ext here n l.before)
    (hcommand : l.command = download version layout.root n) (hl : l.Confined) (q : Location) :
    (if here ++ [stagingName n] <+: q then none else l.after.tree.get? q) = ext.tree.get? q := by
  by_cases hq : here ++ [stagingName n] <+: q
  · rw [if_pos hq, hstaged.wellFormed.closed.none_of_prefix hstaged.fresh hq]
  · have hne : q ≠ here ++ [stagingName n] := by
      rintro rfl
      exact hq (List.prefix_refl _)
    rw [if_neg hq, hstaged.get?_of_confined hcommand hl (fun h => absurd h hq), hstaged.tree,
      if_neg hne]

/-- What is as it was behind the directories on the way adds no more than these. -/
theorem adds_of_extends (versions : List String) (hgrows : fs.Extends layout.root ext)
    (hext : ext.WellFormed) (hsame : ext.Same fs') : Adds layout versions fs fs' where
  workingDirectory := hsame.workingDirectory.trans hgrows.workingDirectory
  closed := hext.closed.congr hsame.tree
  gains := fun q hq => by rw [hsame.tree, hgrows.grown.gains q hq]
  new := by
    intro q
    rw [hsame.tree]
    rcases hgrows.tree q with hq | ⟨hnone, hdir, k, hway⟩
    · exact Or.inl hq
    · refine Or.inr (Or.inl ⟨hnone, hdir, k, ?_⟩)
      exact FileSystem.resolve_of_gains hsame.gains hsame.workingDirectory hway

theorem Staged.gains (hstaged : Staged layout fs ext here n fs') : ext.tree.Gains fs'.tree := by
  intro q hq
  have hne : q ≠ here ++ [stagingName n] := by
    rintro rfl
    simp [hstaged.fresh] at hq
  rw [hstaged.tree, if_neg hne]

theorem Staged.gains_of_confined (hstaged : Staged layout fs ext here n l.before)
    (hcommand : l.command = download version layout.root n) (hl : l.Confined) :
    l.before.tree.Gains l.after.tree := by
  intro q hq
  refine hstaged.get?_of_confined hcommand hl fun hpre => ?_
  -- nothing was below the staging directory when the download was launched
  by_cases htop : q = here ++ [stagingName n]
  · exact htop
  · rw [hstaged.tree, if_neg htop,
      hstaged.wellFormed.closed.none_of_prefix hstaged.fresh hpre] at hq
    simp at hq

theorem Staged.leadsTo_after (hstaged : Staged layout fs ext here n l.before)
    (hcommand : l.command = download version layout.root n) (hl : l.Confined) :
    l.after.LeadsTo (staging layout.root n).toString here (stagingName n) ∧
      l.after.tree.get? (here ++ [stagingName n]) = some .directory := by
  refine ⟨?_, ?_⟩
  · exact hstaged.leadsTo.of_kept (hstaged.gains_of_confined hcommand hl).kept hl.workingDirectory id
  · rw [hstaged.get?_of_confined hcommand hl (fun _ => rfl), hstaged.tree, if_pos rfl]

/-- **An installation that removes its staging directory has changed nothing else**, and nothing is
left of the download. -/
theorem same_of_removed (hstaged : Staged layout fs ext here n l.before)
    (hcommand : l.command = download version layout.root n) (hl : l.Confined) :
    ext.Same (l.after.removeTree (staging layout.root n).toString) ∧
      l.Vanishes fs (l.after.removeTree (staging layout.root n).toString) := by
  obtain ⟨hleads, hdirectory⟩ := hstaged.leadsTo_after hcommand hl
  have hloses := FileSystem.loses_removeTree hl.closed hleads (Or.inr hdirectory)
  refine ⟨⟨?_, fun q => ?_⟩, ?_⟩
  · rw [hloses.workingDirectory, hl.workingDirectory, hstaged.workingDirectory]
  · rw [hloses.tree, hstaged.of_removed hcommand hl]
  · exact hstaged.vanishes hcommand (by rw [hloses.tree, if_pos (List.prefix_refl _)])

/-- **A staging directory has come into the place of a version** in the directory `here`, as the
download `l` has left it; `ext` are the files before the staging directory was made. -/
structure Fills (version : String) (here : Location) (n : Nat) (ext : FileSystem) (l : Launch)
    (fs' : FileSystem) : Prop where
  workingDirectory : fs'.workingDirectory = ext.workingDirectory
  closed : fs'.tree.Closed
  /-- There was room for it. -/
  room : ext.tree.HasRoom (here ++ ["go-" ++ version])
  place : fs'.tree.get? (here ++ ["go-" ++ version]) = some .directory
  /-- The place holds what the staging directory has held. -/
  holds : ∀ rest, fs'.tree.get? (here ++ ["go-" ++ version] ++ rest) =
    l.after.tree.get? (here ++ [stagingName n] ++ rest)
  /-- Everything else is as it was. -/
  others : ∀ q, ¬here ++ ["go-" ++ version] <+: q → fs'.tree.get? q = ext.tree.get? q

/-- What was there before a place is filled is still there. -/
theorem Fills.gains (h : Fills version here n ext l fs') : ext.tree.Gains fs'.tree := by
  intro q hq
  by_cases hpre : here ++ ["go-" ++ version] <+: q
  · by_cases hqe : q = here ++ ["go-" ++ version]
    · rw [hqe, h.place]
      rcases h.room.here with hnone | hempty
      · simp [hqe, hnone] at hq
      · rw [hempty]
    · simp [h.room.below q hpre hqe] at hq
  · exact h.others q hpre

/-- Moving the staging directory to where there is room fills the place. -/
theorem fills_of_moves (hstaged : Staged layout fs ext here n l.before)
    (hcommand : l.command = download version layout.root n) (hl : l.Confined)
    (hroom : l.after.tree.HasRoom (here ++ ["go-" ++ version]))
    (hmoves : l.after.Moves (here ++ [stagingName n]) (here ++ ["go-" ++ version]) fs') :
    Fills version here n ext l fs' := by
  obtain ⟨-, hdirectory⟩ := hstaged.leadsTo_after hcommand hl
  refine ⟨?_, ?_, ?_, ?_, fun rest => ?_, fun q hq => ?_⟩
  · rw [hmoves.workingDirectory, hl.workingDirectory, hstaged.workingDirectory]
  · exact hmoves.closed hl.closed (hl.closed here _ (by rw [hdirectory]; rfl))
  · exact hroom.of_gains (hstaged.gains.trans (hstaged.gains_of_confined hcommand hl))
  · rw [hmoves.tree, if_pos (List.prefix_refl _), List.drop_length, List.append_nil, hdirectory]
  · rw [hmoves.tree, if_pos (List.prefix_append _ _), List.drop_left]
  · rw [hmoves.tree, if_neg hq, hstaged.of_removed hcommand hl]

/-- **A staging directory that was renamed fills the place of the version**, and nothing is left to be
removed. -/
theorem fills_of_rename {moved : FileSystem} (hroot : layout.root.Clean)
    (hversion : '/' ∉ version.toList) (hne : stagingName n ≠ "go-" ++ version)
    (hstaged : Staged layout fs ext here n l.before)
    (hcommand : l.command = download version layout.root n) (hl : l.Confined)
    (hrename : l.after.rename (staging layout.root n).toString (layout.goDir version).toString =
      .ok moved) :
    Fills version here n ext l (moved.removeTree (staging layout.root n).toString) := by
  obtain ⟨hleads, hdirectory⟩ := hstaged.leadsTo_after hcommand hl
  have hleads' := hleads
  rw [staging_eq_child hroot] at hleads' hrename
  obtain ⟨-, hroom, hmoves⟩ := FileSystem.moves_rename hl.closed hroot
    (isPart_stagingName n) (isPart_goName hversion) hne hleads' (Or.inr hdirectory) hrename
  rw [FileSystem.removeTree_of_moves hleads (FileSystem.not_prefix_of_ne here hne.symm) hdirectory
    hroom hmoves]
  exact fills_of_moves hstaged hcommand hl hroom hmoves

/-- **A staging directory that was renamed, to whatever place, has replaced nothing**, and what is left of
it is removed. -/
theorem gains_of_rename {moved : FileSystem} {target : String}
    (hstaged : Staged layout fs ext here n l.before)
    (hcommand : l.command = download version layout.root n) (hl : l.Confined)
    (hrename : l.after.rename (staging layout.root n).toString target = .ok moved) :
    ext.tree.Gains (moved.removeTree (staging layout.root n).toString).tree ∧
      (moved.removeTree (staging layout.root n).toString).workingDirectory = ext.workingDirectory ∧
      (moved.removeTree (staging layout.root n).toString).WellFormed := by
  have hext := hstaged.wellFormed
  obtain ⟨hleads, hdirectory⟩ := hstaged.leadsTo_after hcommand hl
  rcases FileSystem.rename_cases hrename with
    rfl | ⟨here', name, there, name', e, hfrom, hto, hget, hobstacle, hapart, hout, hmoves⟩
  · obtain ⟨hsame, -⟩ := same_of_removed hstaged hcommand hl
    exact ⟨hsame.gains, hsame.workingDirectory, hsame.wellFormed hext⟩
  obtain ⟨rfl, rfl⟩ : here' = here ∧ name = stagingName n := by
    have hplace := (hfrom.place .busy).symm.trans (hleads.place .busy)
    simpa using hplace
  obtain rfl : e = .directory := by simpa [hdirectory] using hget.symm
  have hroom := FileSystem.hasRoom_of_obstacle? hl.closed hobstacle
  have hgains : l.before.tree.Gains l.after.tree := hstaged.gains_of_confined hcommand hl
  have hafter := hstaged.gains.trans hgains
  have hworking : moved.workingDirectory = ext.workingDirectory := by
    rw [hmoves.workingDirectory, hl.workingDirectory, hstaged.workingDirectory]
  -- what was there is neither in the staging directory nor in the place that it has taken
  have hkept : ext.tree.Gains moved.tree := by
    intro q hq
    have hold : ¬here' ++ [stagingName n] <+: q := by
      intro hpre
      simp [hext.closed.none_of_prefix hstaged.fresh hpre] at hq
    have hthere := hafter q hq
    rw [hmoves.tree]
    by_cases hnew : there ++ [name'] <+: q
    · by_cases hqe : q = there ++ [name']
      · subst hqe
        rw [if_pos hnew, List.drop_length, List.append_nil, hdirectory, ← hthere]
        rcases hroom.here with hnone | hempty
        · rw [← hthere, hnone] at hq
          simp at hq
        · exact hempty.symm
      · rw [← hthere, hroom.below q hnew hqe] at hq
        simp at hq
    · rw [if_neg hnew, if_neg hold, hthere]
  have hgone : moved.removeTree (staging layout.root n).toString = moved :=
    FileSystem.removeTree_of_moves hleads hout hdirectory hroom hmoves
  have hwell : l.after.WellFormed := hext.of_gains hafter
    (hl.workingDirectory.trans hstaged.workingDirectory) hl.closed
  rw [hgone]
  exact ⟨hkept, hworking, hext.of_gains hkept hworking
    (hmoves.closed_of_apart hl.closed (hwell.get?_of_leadsTo hto) hapart)⟩

/-- **One installation removes nothing**, however it ends. -/
theorem gains_of_course (hfs : fs.WellFormed) {new : List Launch}
    {r : Except Failure Status} (h : Course version layout fs new fs' r)
    (hconfined : ∀ l ∈ new, l.Confined) :
    fs.tree.Gains fs'.tree ∧ fs'.workingDirectory = fs.workingDirectory ∧ fs'.WellFormed := by
  cases h with
  | existing found => exact ⟨.refl _, rfl, hfs⟩
  | prevented grows wellFormed files =>
      exact ⟨grows.grown.gains, grows.workingDirectory, wellFormed⟩
  | @undone here n l e command staged =>
      have hl : l.Confined := hconfined l (List.mem_singleton_self l)
      obtain ⟨hsame, -⟩ := same_of_removed staged command hl
      exact ⟨staged.grows.grown.gains.trans hsame.gains,
        hsame.workingDirectory.trans staged.grows.workingDirectory,
        hsame.wellFormed staged.wellFormed⟩
  | @installed moved here n l missing command staged ending rename =>
      have hl : l.Confined := hconfined l (List.mem_singleton_self l)
      obtain ⟨hgains, hworking, hwell⟩ := gains_of_rename staged command hl rename
      exact ⟨staged.grows.grown.gains.trans hgains, hworking.trans staged.grows.workingDirectory,
        hwell⟩

/-- An installation that fills the place of its version adds a distribution as well. -/
theorem adds_of_fills (hstaged : Staged layout fs ext here n l.before)
    (hmissing : fs.stat (layout.goDir version).toString = .error (.failed .noEntry))
    (hfills : Fills version here n ext l fs') : Adds layout [version] fs fs' := by
  refine ⟨hfills.workingDirectory.trans hstaged.grows.workingDirectory, hfills.closed,
    hstaged.grows.grown.gains.trans hfills.gains, fun q => ?_⟩
  by_cases hq : here ++ ["go-" ++ version] <+: q
  · refine Or.inr (Or.inr ⟨version, by simp, here, ⟨?_, ?_, ?_, hfills.place⟩, hq⟩)
    · exact FileSystem.reach_of_gains hfills.gains hfills.workingDirectory hstaged.root
    · intro e he
      rw [hmissing] at he
      simp at he
    · exact hfills.room.of_gains hstaged.grows.grown.gains
  · rw [hfills.others q hq]
    rcases hstaged.grows.tree q with hsame | ⟨hnone, hdir, k, hway⟩
    · exact Or.inl hsame
    · refine Or.inr (Or.inl ⟨hnone, hdir, k, ?_⟩)
      exact FileSystem.resolve_of_gains hfills.gains hfills.workingDirectory hway

/-- **One installation adds directories on the way and its distribution**, and leaves nothing of its
staging directory, however it ends. -/
theorem adds_of_course (hroot : layout.root.Clean) (hversion : '/' ∉ version.toList)
    (hfs : fs.WellFormed) {new : List Launch} {r : Except Failure Status}
    (h : Course version layout fs new fs' r) (hconfined : ∀ l ∈ new, l.Confined) :
    Adds layout [version] fs fs' ∧ ∀ l ∈ new, l.Vanishes fs fs' := by
  cases h with
  | existing found => exact ⟨adds_of_extends _ (.refl _ _) hfs (.refl _), by simp⟩
  | prevented grows wellFormed files =>
      exact ⟨adds_of_extends _ grows wellFormed (.refl _), by simp⟩
  | @undone here n l e command staged =>
      have hl : l.Confined := hconfined l (List.mem_singleton_self l)
      obtain ⟨hsame, hvanishes⟩ := same_of_removed staged command hl
      exact ⟨adds_of_extends _ staged.grows staged.wellFormed hsame, by simpa using hvanishes⟩
  | @installed moved here n l missing command staged ending rename =>
      have hl : l.Confined := hconfined l (List.mem_singleton_self l)
      by_cases hne : stagingName n = "go-" ++ version
      -- the staging directory was renamed to itself, and is removed
      · have htarget : layout.goDir version = staging layout.root n := by
          rw [staging_eq_child hroot, hne, Layout.goDir]
        rw [htarget] at rename
        rw [FileSystem.rename_self rename]
        obtain ⟨hsame, hvanishes⟩ := same_of_removed staged command hl
        exact ⟨adds_of_extends _ staged.grows staged.wellFormed hsame, by simpa using hvanishes⟩
      · have hfills := fills_of_rename hroot hversion hne staged command hl rename
        have hgone : (moved.removeTree (staging layout.root n).toString).tree.get?
            (here ++ [stagingName n]) = none := by
          rw [hfills.others _ (FileSystem.not_prefix_of_ne here (Ne.symm hne)), staged.fresh]
        exact ⟨adds_of_fills staged missing hfills, by simpa using staged.vanishes command hgone⟩

end Toolchain

end Provision
