/-
**Places that are cleared.**

The program removes two kinds of things that may be in its way: what stands in the place of the link
to the default distribution, and the lock of a repository that is there.  A directory is never
removed in this way, and nothing else changes.  The link is then made where it was.

Main definitions:

* `Provision.Toolchain.Relinks` — the link is removed or made;
* `Provision.Toolchain.Linked` — the link is in its place.

Main results:

* `Provision.FileSystem.cleared_cases` — what clearing a place comes to;
* `Provision.Toolchain.relinks_of_cleared`, `Provision.Toolchain.relinks_of_symlink` — the link is
  removed, and made again;
* `Provision.Bootstrap.Plan.relinks_of_step`, `Provision.Bootstrap.Plan.extends_of_step` — what the
  tasks of the link and of the directory of the repositories change.
-/

import Provision.Proofs.Additions
import Provision.Proofs.Effects

set_option relaxedAutoImplicit false
set_option autoImplicit false

namespace Provision

/-! ### Places that are cleared -/

namespace FileSystem

variable {fs fs' : FileSystem} {text : String} {here : Location} {name : String}

/-- Clearing a place removes what is there, unless it is a directory. -/
theorem cleared_cases (fs : FileSystem) (text : String) :
    fs.cleared text = fs ∨ ∃ here name e, fs.LeadsTo text here name ∧
      fs.tree.get? (here ++ [name]) = some e ∧ e ≠ .directory ∧
      fs.cleared text = { fs with tree := fs.tree.erase (here ++ [name]) } := by
  unfold cleared
  cases hunlink : fs.unlink text with
  | error r => exact Or.inl rfl
  | ok fs' => exact Or.inr (unlink_eq_ok hunlink)

theorem gains_of_cleared (fs : FileSystem) (text : String) :
    (fs.cleared text).tree.Gains fs.tree ∧
      (fs.cleared text).workingDirectory = fs.workingDirectory := by
  rcases cleared_cases fs text with hsame | ⟨here, name, e, -, -, -, hcleared⟩
  · rw [hsame]
    exact ⟨.refl _, rfl⟩
  · rw [hcleared]
    exact ⟨Tree.gains_of_erase _ (by simp), rfl⟩

theorem WellFormed.erase (hfs : fs.WellFormed) {p : Location} {e : Entry}
    (hp : fs.tree.get? p = some e) (he : e ≠ .directory) :
    WellFormed { fs with tree := fs.tree.erase p } where
  closed := hfs.closed.erase hp he
  workingDirectory := by
    have hne : p ≠ [] := by
      rintro rfl
      exact he (by simpa using hp.symm)
    have hother : fs.workingDirectory ≠ p := by
      rintro rfl
      rw [hfs.workingDirectory] at hp
      exact he (by simpa using hp.symm)
    rw [Tree.get?_erase _ hne, if_neg hother, hfs.workingDirectory]

theorem WellFormed.cleared (hfs : fs.WellFormed) (text : String) : (fs.cleared text).WellFormed := by
  rcases cleared_cases fs text with hsame | ⟨here, name, e, -, hget, he, hcleared⟩
  · rw [hsame]
    exact hfs
  · rw [hcleared]
    exact hfs.erase hget he

theorem WellFormed.symlink (hfs : fs.WellFormed) {target : String}
    (h : fs.symlink target text = .ok fs') : fs'.WellFormed := by
  obtain ⟨here, name, hleads, hnone, rfl⟩ := symlink_eq_ok h
  refine ⟨hfs.closed.put (hfs.get?_of_leadsTo hleads) hnone _, ?_⟩
  have hother : fs.workingDirectory ≠ here ++ [name] := by
    intro hsame
    rw [← hsame, hfs.workingDirectory] at hnone
    simp at hnone
  rw [Tree.get?_put _ (by simp), if_neg hother, hfs.workingDirectory]

end FileSystem

/-! ### The link -/

namespace Toolchain

/-- **The link is removed or made**, in the directory that the root leads to. -/
structure Relinks (layout : Layout) (here : Location) (fs fs' : FileSystem) : Prop where
  root : fs.reach layout.root = .ok here
  /-- No other place differs. -/
  others : ∀ q, q ≠ here ++ ["go"] → fs'.tree.get? q = fs.tree.get? q
  was : fs.tree.get? (here ++ ["go"]) ≠ some .directory
  is : fs'.tree.get? (here ++ ["go"]) = none ∨
    fs'.tree.get? (here ++ ["go"]) = some (.link (layout.goDir Rules.defaultGoVersion).toString)

/-- **The link is in its place**, in the directory that the root leads to. -/
structure Linked (layout : Layout) (here : Location) (fs : FileSystem) : Prop where
  root : fs.reach layout.root = .ok here
  leadsTo : fs.LeadsTo layout.goLink.toString here "go"
  link : fs.tree.get? (here ++ ["go"]) =
    some (.link (layout.goDir Rules.defaultGoVersion).toString)

variable {layout : Layout} {fs fs' : FileSystem}

theorem isPart_go : Path.IsPart "go" := ⟨by decide, by decide, by decide⟩

/-- Clearing the place of the link removes it, or does nothing. -/
theorem relinks_of_cleared (fs : FileSystem) (hroot : layout.root.Clean) :
    fs.cleared layout.goLink.toString = fs ∨
      ∃ here, Relinks layout here fs (fs.cleared layout.goLink.toString) ∧
        (fs.cleared layout.goLink.toString).tree.get? (here ++ ["go"]) = none := by
  rcases FileSystem.cleared_cases fs layout.goLink.toString with
    hsame | ⟨here, name, e, hleads, hget, he, hcleared⟩
  · exact Or.inl hsame
  · obtain ⟨hreach, rfl⟩ := FileSystem.reach_of_leadsTo_child hroot isPart_go hleads
    have hnone : (fs.cleared layout.goLink.toString).tree.get? (here ++ ["go"]) = none := by
      rw [hcleared]
      simp [Tree.get?_erase]
    refine Or.inr ⟨here, ⟨hreach, fun q hq => ?_, ?_, Or.inl hnone⟩, hnone⟩
    · rw [hcleared, Tree.get?_erase _ (by simp), if_neg hq]
    · rw [hget]
      simpa using he

/-- Making the link after its place was cleared makes it where it was. -/
theorem relinks_of_symlink (hroot : layout.root.Clean)
    (h : (fs.cleared layout.goLink.toString).symlink
      (layout.goDir Rules.defaultGoVersion).toString layout.goLink.toString = .ok fs') :
    ∃ here, Relinks layout here fs fs' ∧ Linked layout here fs' := by
  obtain ⟨here, name, hleads, hnone, hfiles⟩ := FileSystem.symlink_eq_ok h
  obtain ⟨hreach, rfl⟩ := FileSystem.reach_of_leadsTo_child hroot isPart_go hleads
  have hget : ∀ q, fs'.tree.get? q = if q = here ++ ["go"]
      then some (.link (layout.goDir Rules.defaultGoVersion).toString)
      else (fs.cleared layout.goLink.toString).tree.get? q := by
    intro q
    rw [hfiles, Tree.get?_put _ (by simp)]
  have hlink := hget (here ++ ["go"])
  rw [if_pos rfl] at hlink
  have hgains : (fs.cleared layout.goLink.toString).tree.Gains fs'.tree := by
    rw [hfiles]
    exact Tree.gains_of_put _ (by simp) hnone
  have hworking : fs'.workingDirectory = (fs.cleared layout.goLink.toString).workingDirectory := by
    rw [hfiles]
  refine ⟨here, ?_, FileSystem.reach_of_gains hgains hworking hreach,
    hleads.of_kept hgains.kept hworking id, hlink⟩
  rcases relinks_of_cleared fs hroot with hsame | ⟨there, hcleared, -⟩
  · rw [hsame] at hreach hnone hget
    exact ⟨hreach, fun q hq => by rw [hget, if_neg hq], by rw [hnone]; simp, Or.inr hlink⟩
  -- with what was in its place the root leads to the same directory
  · obtain ⟨hless, hback⟩ := FileSystem.gains_of_cleared fs layout.goLink.toString
    have hthere := FileSystem.reach_of_gains hless hback.symm hreach
    obtain rfl : here = there := by simpa [hcleared.root] using hthere.symm
    refine ⟨hcleared.root, fun q hq => ?_, hcleared.was, Or.inr hlink⟩
    rw [hget, if_neg hq, hcleared.others q hq]

/-- **Making the link removes it or makes it**, if anything. -/
theorem relinks_of_linkDefault (hroot : layout.root.Clean) {m : Machine} (hfs : m.files.WellFormed) :
    ∃ r m', (linkDefault layout Rules.defaultGoVersion false).perform m = (r, m') ∧
      m'.launches = m.launches ∧ m'.files.WellFormed ∧
      m'.files.workingDirectory = m.files.workingDirectory ∧
      (m'.files = m.files ∨ ∃ here, Relinks layout here m.files m'.files) ∧
      ∀ link, r = .ok link →
        ∃ here, Relinks layout here m.files m'.files ∧ Linked layout here m'.files := by
  obtain ⟨r, m', hperform, hlaunches, hcases⟩ := linkDefault_cases layout Rules.defaultGoVersion m
  refine ⟨r, m', hperform, hlaunches, ?_⟩
  have hworking := (FileSystem.gains_of_cleared m.files layout.goLink.toString).2
  rcases hcases with ⟨-, hsymlink⟩ | ⟨⟨e, rfl⟩, hcleared, -⟩
  · obtain ⟨here, hrelinks, hlinked⟩ := relinks_of_symlink hroot hsymlink
    refine ⟨(hfs.cleared _).symlink hsymlink, ?_, Or.inr ⟨here, hrelinks⟩,
      fun _ _ => ⟨here, hrelinks, hlinked⟩⟩
    obtain ⟨there, name, -, -, hfiles⟩ := FileSystem.symlink_eq_ok hsymlink
    rw [hfiles]
    exact hworking
  · rw [hcleared]
    refine ⟨hfs.cleared _, hworking, ?_, by simp⟩
    rcases relinks_of_cleared m.files hroot with hsame | ⟨here, hrelinks, -⟩
    · exact Or.inl hsame
    · exact Or.inr ⟨here, hrelinks⟩

end Toolchain

/-! ### Tasks -/

namespace Bootstrap.Plan

variable {p : Plan} (hdry : p.arguments.dryRun = false) {m : Machine}
include hdry

/-- The link is removed or made, if anything. -/
theorem relinks_of_step (hroot : p.layout.root.Clean) (hfs : m.files.WellFormed) :
    ∃ r m', (p.step .link).perform m = (r, m') ∧ m'.files.WellFormed ∧
      (m'.files = m.files ∨ ∃ here, Toolchain.Relinks p.layout here m.files m'.files) ∧
      (r = .ok () → ∃ here, Toolchain.Relinks p.layout here m.files m'.files ∧
        m'.files.tree.get? (here ++ ["go"]) =
          some (.link (p.layout.goDir Rules.defaultGoVersion).toString)) := by
  obtain ⟨r, m', hperform, -, hwell, -, hcases, hlink⟩ :=
    Toolchain.relinks_of_linkDefault hroot hfs
  refine ⟨r.map fun _ => (), m', by rw [step_link hdry, Step.perform_bind_pure, hperform], hwell,
    hcases, ?_⟩
  cases r with
  | error e => simp [Except.map]
  | ok link =>
      intro _
      obtain ⟨here, hrelinks, hlinked⟩ := hlink link rfl
      exact ⟨here, hrelinks, hlinked.link⟩

/-- The directory of the repositories is made with those above it, if anything. -/
theorem extends_of_step (hfs : m.files.WellFormed) :
    m.files.Extends p.layout.baseRepoPath ((p.step .base).perform m).2.files ∧
      ((p.step .base).perform m).2.files.WellFormed := by
  obtain ⟨r, m', hstep, -, hcases⟩ := base_cases hdry m
  rw [hstep]
  rcases hcases with hsame | ⟨-, hmade⟩
  · dsimp only
    rw [hsame]
    exact ⟨.refl _ _, hfs⟩
  · dsimp only
    rw [hmade]
    exact FileSystem.extends_ensureDirectories hfs _

end Bootstrap.Plan

end Provision
