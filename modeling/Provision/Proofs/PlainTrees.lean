/-
**Calls in trees with few links.**

Links make a path lead anywhere.  Where the links of a tree are known to lie at certain places only,
a path that avoids these places leads where its names say, and so do the calls that make, move and
remove something: what they change can be read off the paths that they were given.

Main definitions:

* `Provision.FileSystem.Plain`, `Provision.Path.Avoids` — **a file tree with links at certain places
  only**, and a path that avoids the places;
* `Provision.Launch.Linkless` — a command that makes no links.

Main results:

* `Provision.FileSystem.Plain.makeDirectory`, `Provision.FileSystem.Plain.rename`,
  `Provision.FileSystem.Plain.removeTree`, `Provision.FileSystem.Plain.cleared` — **what the calls
  change, by their paths**.
-/

import Provision.Proofs.Clearing
import Provision.Proofs.Places

set_option relaxedAutoImplicit false
set_option autoImplicit false

namespace Provision

/-! ### Trees with few links -/

/-- **A file tree with links at certain places only.** -/
structure FileSystem.Plain (linked : Location → Prop) (fs : FileSystem) : Prop where
  /-- Everything lies in a directory. -/
  closed : fs.tree.Closed
  links : ∀ q text, fs.tree.get? q = some (.link text) → linked q

/-- **A command that makes no links**, and leaves a file tree if it has found one. -/
structure Launch.Linkless (l : Launch) : Prop where
  closed : l.before.tree.Closed → l.after.tree.Closed
  links : ∀ q text, l.after.tree.get? q = some (.link text) →
    l.before.tree.get? q = some (.link text)

theorem FileSystem.Plain.mono {linked linked' : Location → Prop} {fs : FileSystem}
    (hfs : fs.Plain linked) (h : ∀ q, linked q → linked' q) : fs.Plain linked' where
  closed := hfs.closed
  links q text hq := h q (hfs.links q text hq)

theorem Launch.Linkless.plain {l : Launch} {linked : Location → Prop} (hl : l.Linkless)
    (h : l.before.Plain linked) : l.after.Plain linked where
  closed := hl.closed h.closed
  links q text hq := h.links q text (hl.links q text hq)

theorem Launch.Chain.plain {fs fs' : FileSystem} {ls : List Launch} {linked : Location → Prop}
    (h : Launch.Chain fs ls fs') (hls : ∀ l ∈ ls, l.Linkless) (hfs : fs.Plain linked) :
    fs'.Plain linked :=
  h.relates (R := fun fs fs' => fs.Plain linked → fs'.Plain linked) (fun _ => id)
    (fun _ _ _ h₁ h₂ hp => h₂ (h₁ hp)) (fun l hmem hp => (hls l hmem).plain hp) hfs

/-- The way of a path leads over none of the places. -/
def Path.Avoids (linked : Location → Prop) (p : Path) : Prop :=
  ∀ q, q <+: p.parts → ¬linked (FileSystem.descend [] q)

theorem Path.avoids_none (p : Path) : p.Avoids fun _ => False := fun _ _ => id

theorem Path.Avoids.of_prefix {linked : Location → Prop} {p q : Path} (h : p.Avoids linked)
    (hq : q.parts <+: p.parts) : q.Avoids linked :=
  fun names hnames => h names (hnames.trans hq)

namespace FileSystem

open Provision.Path

variable {linked : Location → Prop} {fs fs' : FileSystem} {p : Path} {here there : Location}
  {name text : String}

theorem Plain.straight (hfs : fs.Plain linked) (h : p.Avoids linked) : fs.Straight p :=
  fun q hq text hlink => h q hq (hfs.links _ text hlink)

/-- What an absolute path leads to lies in a directory, -/
theorem Plain.get?_of_leadsTo (hfs : fs.Plain linked) (hp : p.Clean)
    (habsolute : p.anchor ≠ .relative) (h : fs.LeadsTo p.toString here name) :
    fs.tree.get? here = some .directory := by
  obtain ⟨start, names, henter, hwalk⟩ := h.enter
  obtain ⟨rfl, -⟩ := enter_toString hp henter
  rw [origin_of_absolute fs habsolute] at hwalk
  exact get?_of_walk_dot hfs.closed rfl hwalk

/-- and at the place of the path, if there is no link on the way. -/
theorem Plain.location_of_leadsTo (hfs : fs.Plain linked) (hp : p.Clean)
    (habsolute : p.anchor ≠ .relative) (havoids : p.Avoids linked)
    (h : fs.LeadsTo p.toString here name) : here ++ [name] = p.location :=
  (hfs.straight havoids).place hp habsolute (h.place .busy)

/-! ### Single calls -/

/-- **A new link** with a name below a path is at its place, and nothing else has changed; everything
on the way of the path is there, and nothing was in the place of the link. -/
theorem Plain.symlink {target w : String} (hfs : fs.Plain fun _ => False) (hp : p.Clean)
    (hw : IsPart w) (habsolute : p.anchor ≠ .relative)
    (h : fs.symlink target (p.child w).toString = .ok fs') :
    (∀ names, names <+: p.parts → (fs.tree.get? (descend [] names)).isSome) ∧
      fs.tree.get? (p.child w).location = none ∧
      (fs'.Plain fun q => False ∨ q = (p.child w).location) ∧
      ∀ q, fs.tree.get? q ≠ fs'.tree.get? q → q = (p.child w).location := by
  have hanchor : (p.child w).anchor ≠ .relative := by
    rw [child_of_isPart _ hw]
    exact habsolute
  obtain ⟨here, name, hleads, hnone, rfl⟩ := symlink_eq_ok h
  obtain ⟨hreach, -⟩ := reach_of_leadsTo_child hp hw hleads
  have hhere := hfs.get?_of_leadsTo (hp.child hw) hanchor hleads
  have hplace := hfs.location_of_leadsTo (hp.child hw) hanchor (avoids_none _) hleads
  have hget := Tree.get?_put fs.tree (show here ++ [name] ≠ [] by simp) (.link target)
  refine ⟨(hfs.straight (avoids_none p)).isSome habsolute hreach, by rw [← hplace, hnone],
    ⟨hfs.closed.put hhere hnone _, fun q text hlink => ?_⟩, fun q hq => ?_⟩
  · rw [hget] at hlink
    split at hlink
    · next hqe => exact Or.inr (by rw [hqe, hplace])
    · exact Or.inl (hfs.links q text hlink)
  · rw [hget] at hq
    split at hq
    · next hqe => rw [hqe, hplace]
    · exact absurd rfl hq

/-- **A new directory** is at the place of its path, and nothing else has changed. -/
theorem Plain.makeDirectory (hfs : fs.Plain linked) (hp : p.Clean)
    (habsolute : p.anchor ≠ .relative) (havoids : p.Avoids linked)
    (hleads : fs.LeadsTo p.toString here name) (hnone : fs.tree.get? (here ++ [name]) = none)
    (h : fs' = { fs with tree := fs.tree.makeDirectory (here ++ [name]) }) :
    fs.tree.get? p.location = none ∧ fs'.Plain linked ∧
      ∀ q, fs'.tree.get? q = if q = p.location then some .directory else fs.tree.get? q := by
  have hhere := hfs.get?_of_leadsTo hp habsolute hleads
  have hget := Tree.get?_makeDirectory_of_missing hfs.closed (by simp) hnone
  have hclosed := hfs.closed.makeDirectory hhere hnone
  rw [hfs.location_of_leadsTo hp habsolute havoids hleads] at hnone h hget hclosed
  subst h
  refine ⟨hnone, ⟨hclosed, fun q text hlink => ?_⟩, hget⟩
  rw [hget] at hlink
  split at hlink
  · simp at hlink
  · exact hfs.links q text hlink

/-- **A renaming** changes what is at and below its two places, if there are no links. -/
theorem Plain.rename {source target : Path} (hfs : fs.Plain fun _ => False) (hs : source.Clean)
    (hsource : source.anchor ≠ .relative) (ht : target.Clean) (htarget : target.anchor ≠ .relative)
    (h : fs.rename source.toString target.toString = .ok fs') :
    (fs'.Plain fun _ => False) ∧ ∀ q, fs.tree.get? q ≠ fs'.tree.get? q →
      source.location <+: q ∨ target.location <+: q := by
  rcases rename_cases h with
    rfl | ⟨here, name, there, name', e, hleads, hleads', -, -, hapart, -, hmoves⟩
  · exact ⟨hfs, fun q hq => absurd rfl hq⟩
  have hthere := hfs.get?_of_leadsTo ht htarget hleads'
  have hclosed := hmoves.closed_of_apart hfs.closed hthere hapart
  have hget := hmoves.tree
  rw [hfs.location_of_leadsTo hs hsource (avoids_none _) hleads,
    hfs.location_of_leadsTo ht htarget (avoids_none _) hleads'] at hget
  refine ⟨⟨hclosed, fun q text hlink => ?_⟩, fun q hq => ?_⟩
  · rw [hget] at hlink
    split at hlink
    · exact hfs.links _ text hlink
    · split at hlink
      · simp at hlink
      · exact hfs.links q text hlink
  · rw [hget] at hq
    by_cases hnew : target.location <+: q
    · exact Or.inr hnew
    · by_cases hold : source.location <+: q
      · exact Or.inl hold
      · simp [hnew, hold] at hq

/-- **A removal** changes what is at and below its place. -/
theorem Plain.removeTree (hfs : fs.Plain linked) (hp : p.Clean) (habsolute : p.anchor ≠ .relative)
    (havoids : p.Avoids linked) (hne : p.location ≠ []) :
    (fs.removeTree p.toString).Plain linked ∧
      ∀ q, fs.tree.get? q ≠ (fs.removeTree p.toString).tree.get? q → p.location <+: q := by
  have hsame : fs.Plain linked ∧ ∀ q, fs.tree.get? q ≠ fs.tree.get? q → p.location <+: q :=
    ⟨hfs, fun q hq => absurd rfl hq⟩
  unfold FileSystem.removeTree
  split
  · exact hsame
  next there hresolve =>
  split
  · obtain rfl := (hfs.straight havoids).resolve hp habsolute hresolve
    have hget := Tree.get?_eraseBelow fs.tree hne
    refine ⟨⟨fun q last hq => ?_, fun q text hlink => ?_⟩, fun q hq => ?_⟩
    · rw [hget] at hq ⊢
      split at hq
      · simp at hq
      next hout =>
      rw [if_neg fun hpre => hout (hpre.trans (List.prefix_append _ _))]
      exact hfs.closed q last hq
    · rw [hget] at hlink
      split at hlink
      · simp at hlink
      · exact hfs.links q text hlink
    · rw [hget] at hq
      by_cases hpre : p.location <+: q
      · exact hpre
      · simp [hpre] at hq
  · exact hsame

/-- **Clearing a place** changes this place only, where nothing is left then. -/
theorem Plain.cleared (hfs : fs.Plain linked) (text : String) :
    (fs.cleared text).Plain linked ∧ ∀ q, fs.tree.get? q ≠ (fs.cleared text).tree.get? q →
      (∃ here name, fs.LeadsTo text here name ∧ q = here ++ [name]) ∧
        (fs.cleared text).tree.get? q = none := by
  rcases cleared_cases fs text with hsame | ⟨here, name, e, hleads, hget, he, hcleared⟩
  · rw [hsame]
    exact ⟨hfs, fun q hq => absurd rfl hq⟩
  · have herase := Tree.get?_erase fs.tree (show here ++ [name] ≠ [] by simp)
    rw [hcleared]
    refine ⟨⟨hfs.closed.erase hget he, fun q text hlink => ?_⟩, fun q hq => ?_⟩
    · rw [herase] at hlink
      split at hlink
      · simp at hlink
      · exact hfs.links q text hlink
    · by_cases hqe : q = here ++ [name]
      · exact ⟨⟨here, name, hleads, hqe⟩, by rw [herase, if_pos hqe]⟩
      · rw [herase, if_neg hqe] at hq
        exact absurd rfl hq

end FileSystem

end Provision
