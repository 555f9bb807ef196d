/-
**What gentle commands keep.**

A command is gentle if it removes nothing: what was there is still there, though a file may hold
something else.  Only a download may remove what is in its own staging directory.  What is there
before an installation that succeeds is then there after it, although the staging directory is made,
filled, moved and cleaned up in between; and the distribution is in its place.

Main definitions:

* `Provision.FileSystem.Keeps` — what was there is still there, and there is no new link where none
  is wanted;
* `Provision.Launch.Gentle` — **a command that removes nothing**.

Main results:

* `Provision.Launch.Chain.keeps` — gentle commands, one after the other;
* `Provision.Toolchain.keeps_of_course` — **an installation that succeeds**.
-/

import Provision.Proofs.Additions
import Provision.Proofs.Effects

set_option relaxedAutoImplicit false
set_option autoImplicit false

namespace Provision

/-! ### Files that are kept -/

namespace FileSystem

/-- **What was there is still there**, and there is no new link at a place in `bare`. -/
structure Keeps (bare : Location → Prop) (fs fs' : FileSystem) : Prop where
  closed : fs.tree.Closed → fs'.tree.Closed
  workingDirectory : fs'.workingDirectory = fs.workingDirectory
  kept : fs.tree.Kept (fun _ => False) fs'.tree
  links : ∀ q text, bare q → fs'.tree.get? q = some (.link text) →
    fs.tree.get? q = some (.link text)

variable {bare : Location → Prop} {fs fs' fs'' : FileSystem}

namespace Keeps

theorem refl (bare : Location → Prop) (fs : FileSystem) : fs.Keeps bare fs :=
  ⟨fun hc => hc, rfl, fun _ e he => Or.inl ⟨e, he, .refl e⟩, fun _ _ _ h => h⟩

theorem trans (h : fs.Keeps bare fs') (h' : fs'.Keeps bare fs'') : fs.Keeps bare fs'' where
  closed hc := h'.closed (h.closed hc)
  workingDirectory := h'.workingDirectory.trans h.workingDirectory
  kept := by
    intro q e he
    rcases h.kept q e he with ⟨e', he', hkind⟩ | ⟨hnever, -⟩
    · rcases h'.kept q e' he' with ⟨e'', he'', hkind'⟩ | ⟨hnever, -⟩
      · exact Or.inl ⟨e'', he'', hkind.trans hkind'⟩
      · exact hnever.elim
    · exact hnever.elim
  links q text hq hlink := h.links q text hq (h'.links q text hq hlink)

theorem wellFormed (h : fs.Keeps bare fs') (hfs : fs.WellFormed) : fs'.WellFormed where
  closed := h.closed hfs.closed
  workingDirectory := by
    rw [h.workingDirectory]
    exact h.kept.directory hfs.workingDirectory

theorem reach (h : fs.Keeps bare fs') {p : Path} {here : Location} (hreach : fs.reach p = .ok here) :
    fs'.reach p = .ok here :=
  reach_of_kept h.kept h.workingDirectory hreach id

end Keeps

/-- New directories on the way leave everything else. -/
theorem Extends.keeps {p : Path} (h : fs.Extends p fs') (hfs' : fs'.WellFormed) :
    fs.Keeps bare fs' where
  closed _ := hfs'.closed
  workingDirectory := h.workingDirectory
  kept := h.grown.kept
  links := by
    intro q text _ hlink
    rcases h.tree q with hsame | ⟨-, hdirectory, -⟩
    · rw [← hsame, hlink]
    · simp [hdirectory] at hlink

/-- What can take the place of something is of its kind, or both are no directories; and if they are
directories then the one that is replaced holds nothing. -/
theorem obstacle?_of_some {t : Tree} {e e' : Entry} {new : Location}
    (h : obstacle? t e new = none) (hget : t.get? new = some e') :
    e.isDirectory = e'.isDirectory ∧ (e'.isDirectory = true → t.hasBelow new = false) := by
  unfold obstacle? at h
  rw [hget] at h
  cases hsource : e.isDirectory <;> cases htarget : e'.isDirectory <;> simp_all

section

variable {moved : FileSystem} {here : Location} {name name' : String} {e : Entry}
  (h : fs.Keeps (fun _ => True) fs') (hc : fs.tree.Closed)
  (hfresh : fs.tree.get? (here ++ [name]) = none)
  (hmoves : fs'.Moves (here ++ [name]) (here ++ [name']) moved)
include h hc hfresh hmoves

/-- Something new that is moved replaces nothing but what may be replaced. -/
theorem Keeps.kept_of_moves (hget : fs'.tree.get? (here ++ [name]) = some e)
    (hlink : ∀ text, fs.tree.get? (here ++ [name']) ≠ some (.link text))
    (hobstacle : obstacle? fs'.tree e (here ++ [name']) = none) :
    fs.tree.Kept (fun _ => False) moved.tree := by
  intro q e₀ he₀
  have hold : ¬here ++ [name] <+: q := by
    intro hpre
    rw [hc.none_of_prefix hfresh hpre] at he₀
    simp at he₀
  obtain ⟨e₁, he₁, hkind⟩ := (h.kept q e₀ he₀).resolve_right fun hnever => hnever.1.elim
  rw [hmoves.tree]
  by_cases hnew : here ++ [name'] <+: q
  · rw [if_pos hnew]
    by_cases hq : q = here ++ [name']
    -- what has been replaced is of the same kind, for neither of the two is a link
    · subst hq
      refine Or.inl ⟨e, by rw [List.drop_length, List.append_nil, hget], ?_⟩
      obtain ⟨hdirectories, -⟩ := obstacle?_of_some hobstacle he₁
      have he : ∀ text, e ≠ .link text := by
        rintro text rfl
        have := h.links _ text trivial hget
        simp [hfresh] at this
      have he₀' : ∀ text, e₀ ≠ .link text := by
        rintro text rfl
        exact hlink text he₀
      exact .of_isDirectory_eq (hdirectories.trans hkind.isDirectory_eq) he₀' he
    -- nothing was in the directory that has been replaced
    · have hdirectory : fs'.tree.get? (here ++ [name']) = some .directory := by
        obtain ⟨rest, rfl⟩ := hnew
        have hrest : rest ≠ [] := by
          rintro rfl
          simp at hq
        exact (h.closed hc).above hrest (by rw [he₁]; rfl)
      have hempty := (obstacle?_of_some hobstacle hdirectory).2 rfl
      rw [Tree.get?_of_not_hasBelow hempty hnew hq] at he₁
      simp at he₁
  · rw [if_neg hnew, if_neg hold]
    exact Or.inl ⟨e₁, he₁, hkind⟩

/-- A link that is there after the move was there before: there was none where it comes from. -/
theorem Keeps.link_of_moves {q : Location} {text : String}
    (htext : moved.tree.get? q = some (.link text)) : fs.tree.get? q = some (.link text) := by
  rw [hmoves.tree] at htext
  split at htext
  · have hbefore := h.links _ text trivial htext
    rw [hc.none_of_prefix hfresh (List.prefix_append _ _)] at hbefore
    simp at hbefore
  · split at htext
    · simp at htext
    · exact h.links q text trivial htext

/-- **Something new that is moved to where it may go leaves everything else**: `fs` are the files
from before it was made, and `fs'` those that it is moved in. -/
theorem Keeps.moves (hhere : fs.tree.get? here = some .directory)
    (hget : fs'.tree.get? (here ++ [name]) = some e)
    (hlink : ∀ text, fs.tree.get? (here ++ [name']) ≠ some (.link text))
    (hobstacle : obstacle? fs'.tree e (here ++ [name']) = none) :
    fs.Keeps (fun _ => True) moved where
  closed _ := hmoves.closed (h.closed hc) (h.kept.directory hhere)
  workingDirectory := hmoves.workingDirectory.trans h.workingDirectory
  kept := h.kept_of_moves hc hfresh hmoves hget hlink hobstacle
  links _ _ _ := h.link_of_moves hc hfresh hmoves

end

end FileSystem

/-! ### Gentle commands -/

namespace Launch

/-- **A command that removes nothing**, unless it is a download and what it removes is in its own
staging directory; and it makes no link at a place in `bare`. -/
structure Gentle (bare : Location → Prop) (l : Launch) : Prop where
  /-- What it leaves is a file tree. -/
  closed : l.after.tree.Closed
  workingDirectory : l.after.workingDirectory = l.before.workingDirectory
  kept : ∀ q e, l.before.tree.get? q = some e →
    (∃ e', l.after.tree.get? q = some e' ∧ e.SameKind e') ∨
      (l.command.isDownload = true ∧
        ∃ top, l.before.resolve l.command.directory.toString true = .ok top ∧ top <+: q)
  links : ∀ q text, bare q → l.after.tree.get? q = some (.link text) →
    l.before.tree.get? q = some (.link text)

variable {bare : Location → Prop} {l : Launch}

/-- A gentle command that is no download keeps everything. -/
theorem Gentle.keeps (h : l.Gentle bare) (hother : l.command.isDownload = false) :
    l.before.Keeps bare l.after where
  closed _ := h.closed
  workingDirectory := h.workingDirectory
  kept := by
    intro q e he
    rcases h.kept q e he with hkept | ⟨hdownload, -⟩
    · exact Or.inl hkept
    · simp [hother] at hdownload
  links := h.links

/-- A command that puts something where nothing was is gentle, if it is no link. -/
theorem gentle_of_put {q : Location} {e : Entry} (hc : l.after.tree.Closed)
    (hnone : l.before.tree.get? q = none) (hlink : ∀ text, e ≠ .link text)
    (hafter : l.after = { l.before with tree := l.before.tree.put q e }) : l.Gentle bare where
  closed := hc
  workingDirectory := by rw [hafter]
  kept := by
    intro q' e' he'
    have hother : q' ≠ q := by
      rintro rfl
      simp [hnone] at he'
    refine Or.inl ⟨e', ?_, .refl e'⟩
    rw [hafter, Tree.get?_put _ (Tree.ne_root_of_missing hnone), if_neg hother, he']
  links := by
    intro q' text _ htext
    rw [hafter, Tree.get?_put _ (Tree.ne_root_of_missing hnone)] at htext
    split at htext
    · exact absurd (Option.some.inj htext) (hlink text)
    · exact htext

/-- A command that changes nothing is gentle. -/
theorem gentle_of_same (hc : l.after.tree.Closed) (hafter : l.after = l.before) : l.Gentle bare where
  closed := hc
  workingDirectory := by rw [hafter]
  kept q e he := Or.inl ⟨e, by rw [hafter, he], .refl e⟩
  links q text _ htext := by rwa [← hafter]

/-- **Gentle commands, one after the other, keep everything.** -/
theorem Chain.keeps {fs fs' : FileSystem} {ls : List Launch} (h : Chain fs ls fs')
    (hls : ∀ l ∈ ls, l.Gentle bare ∧ l.command.isDownload = false) : fs.Keeps bare fs' :=
  h.relates (.refl bare) (fun _ _ _ => .trans) fun l hl => (hls l hl).1.keeps (hls l hl).2

end Launch

/-! ### An installation -/

namespace Toolchain

variable {version : String} {layout : Layout} {fs fs' ext moved : FileSystem} {here : Location}
  {n : Nat} {l : Launch}

/-- A staging directory is named like a distribution. -/
theorem stagingName_eq (n : Nat) : stagingName n = "go-" ++ ("tmp-" ++ toString n) := by
  rw [← String.append_assoc, stagingName]
  rfl

/-- A version that does not look like the number of a staging directory is not in its place. -/
theorem stagingName_ne (hversion : ¬"tmp-".toList <+: version.toList) (n : Nat) :
    stagingName n ≠ "go-" ++ version := by
  rw [stagingName_eq]
  intro h
  have hnumber := (String.append_right_inj _).1 h
  exact hversion ⟨_, by rw [← hnumber, String.toList_append]⟩

theorem goName_ne (version : String) {name : String} (h : name.toList.length < 3) :
    "go-" ++ version ≠ name := by
  rintro rfl
  rw [String.toList_append, List.length_append] at h
  have hprefix : "go-".toList.length = 3 := rfl
  omega

/-- What was there before the staging directory is there behind a gentle download. -/
theorem Staged.keeps_after (hstaged : Staged layout fs ext here n l.before)
    (hcommand : l.command = download version layout.root n) (hl : l.Gentle fun _ => True) :
    ext.Keeps (fun _ => True) l.after where
  closed _ := hl.closed
  workingDirectory := hl.workingDirectory.trans hstaged.workingDirectory
  kept := by
    intro q e he
    have hbefore : l.before.tree.get? q = some e := by
      rw [hstaged.gains q (by rw [he]; rfl), he]
    rcases hl.kept q e hbefore with hkept | ⟨-, top, htop, hpre⟩
    · exact Or.inl hkept
    · rw [hstaged.resolve hcommand] at htop
      obtain rfl : here ++ [stagingName n] = top := by simpa using htop
      rw [hstaged.wellFormed.closed.none_of_prefix hstaged.fresh hpre] at he
      simp at he
  links := by
    intro q text _ hlink
    have hbefore := hl.links q text trivial hlink
    rw [hstaged.tree] at hbefore
    split at hbefore
    · simp at hbefore
    · exact hbefore

/-- **A distribution that is renamed into its place**: everything is kept, and its path leads to it. -/
theorem keeps_of_rename (hroot : layout.root.Clean) (hversion : '/' ∉ version.toList)
    (htmp : ¬"tmp-".toList <+: version.toList)
    (hlinks : ∀ here name text, ext.tree.get? (here ++ [name]) = some (.link text) → name = "go")
    (hstaged : Staged layout fs ext here n l.before)
    (hcommand : l.command = download version layout.root n) (hl : l.Gentle fun _ => True)
    (hrename : l.after.rename (staging layout.root n).toString (layout.goDir version).toString =
      .ok moved) :
    ext.Keeps (fun _ => True) moved ∧
      moved.LeadsTo (layout.goDir version).toString here ("go-" ++ version) ∧
      (moved.tree.get? (here ++ ["go-" ++ version])).isSome ∧
      moved.removeTree (staging layout.root n).toString = moved := by
  have hafter := hstaged.keeps_after hcommand hl
  have hreach := hafter.reach hstaged.root
  have hne := stagingName_ne htmp n
  have hclean := staging_eq_child hroot n
  obtain ⟨old, new, e, hold, hnew, he, hmoved⟩ := FileSystem.rename_eq_ok hrename
  obtain ⟨there, name, hfrom, rfl⟩ := FileSystem.place_eq_ok hold
  obtain ⟨there', name', hto, rfl⟩ := FileSystem.place_eq_ok hnew
  -- both paths lead to the directory that the root has led to before
  rw [hclean] at hfrom
  obtain ⟨hreach₁, rfl⟩ := FileSystem.reach_of_leadsTo_child hroot (isPart_stagingName n) hfrom
  obtain ⟨hreach₂, rfl⟩ := FileSystem.reach_of_leadsTo_child hroot (isPart_goName hversion) hto
  obtain rfl : here = there := by simpa [hreach] using hreach₁
  obtain rfl : here = there' := by simpa [hreach] using hreach₂
  obtain ⟨hobstacle, hfiles⟩ := hmoved (by simpa using hne)
  have hmoves : l.after.Moves (here ++ [stagingName n]) (here ++ ["go-" ++ version]) moved := by
    rw [hfiles]
    exact ⟨rfl, Tree.get?_move (FileSystem.not_prefix_of_ne here hne)
      (FileSystem.not_prefix_of_ne here hne.symm)⟩
  have hdirectory := hstaged.wellFormed.get?_of_reach hstaged.root
  have hkeeps := hafter.moves hstaged.wellFormed.closed hstaged.fresh hmoves hdirectory he
    (fun text hlink => goName_ne version (by decide) (hlinks _ _ text hlink)) hobstacle
  have hreach' := hkeeps.reach hstaged.root
  refine ⟨hkeeps, ?_, ?_, ?_⟩
  · exact hto.of_reach hroot (isPart_goName hversion) hmoves.workingDirectory hreach'
  · rw [hmoves.tree, if_pos (List.prefix_refl _), List.drop_length, List.append_nil, he]
    rfl
  · have hleads := hfrom.of_reach hroot (isPart_stagingName n) hmoves.workingDirectory hreach'
    rw [hclean]
    refine FileSystem.removeTree_of_error (hleads.resolve_of_missing ?_ false)
    rw [hmoves.tree, if_neg (FileSystem.not_prefix_of_ne here hne.symm),
      if_pos (List.prefix_refl _)]

/-- **An installation that succeeds keeps everything**, and its path leads to the distribution. -/
theorem keeps_of_course (hroot : layout.root.Clean) (hversion : '/' ∉ version.toList)
    (htmp : ¬"tmp-".toList <+: version.toList)
    (hlinks : ∀ here name text, fs.tree.get? (here ++ [name]) = some (.link text) → name = "go")
    {new : List Launch} {status : Status} (h : Course version layout fs new fs' (.ok status))
    (hgentle : ∀ l ∈ new, l.Gentle fun _ => True) :
    fs.Keeps (fun _ => True) fs' ∧
      ∃ here, fs'.LeadsTo (layout.goDir version).toString here ("go-" ++ version) ∧
        (fs'.tree.get? (here ++ ["go-" ++ version])).isSome := by
  cases h with
  | existing found =>
      obtain ⟨here, hleads, hget⟩ := FileSystem.leadsTo_of_stat hroot (isPart_goName hversion)
        (goName_ne version (by decide))
        (fun here _ text hlink => goName_ne version (by decide) (hlinks here _ text hlink)) found
      exact ⟨.refl _ _, here, hleads, by rw [hget]; rfl⟩
  | @installed moved here n l missing command staged ending rename =>
      have hgrows : fs.Keeps (fun _ => True) (fs.grownTo layout.root) :=
        staged.grows.keeps staged.wellFormed
      obtain ⟨hkeeps, hleads, hthere, hcleaned⟩ := keeps_of_rename hroot hversion htmp
        (fun here name text hlink => hlinks here name text (hgrows.links _ text trivial hlink))
        staged command (hgentle l (List.mem_singleton_self l)) rename
      rw [hcleaned]
      exact ⟨hgrows.trans hkeeps, here, hleads, hthere⟩

end Toolchain

end Provision
