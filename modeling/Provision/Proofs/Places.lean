/-
**The places that paths name.**

Where a path leads depends on the links on the way.  Without links it leads to the place that can be
read off its names alone: a name goes down, and two dots go up.  A walk that ends somewhere and has
met no link has ended there.  What is added to a path lies below the place of the path, unless what
is added is a path from the root directory or goes up.

Main definitions:

* `Provision.FileSystem.descend`, `Provision.Path.location` — the place that names, or a path, go to
  without links;
* `Provision.Path.Leaves` — a text that may lead out of the directory that it is added to;
* `Provision.FileSystem.Straight` — **there is no link on the way of a path**.

Main results:

* `Provision.Path.location_child` — what is added to a path lies below it;
* `Provision.FileSystem.walk_eq_descend` — **a walk that meets no link goes where its names say**;
* `Provision.FileSystem.Straight.resolve`, `Provision.FileSystem.Straight.place` — the same for calls;
* `Provision.FileSystem.isSome_of_walk` — everything on the way is there.
-/

import Provision.Proofs.Growth

set_option relaxedAutoImplicit false
set_option autoImplicit false

namespace Provision

namespace FileSystem

/-! ### Going by names alone -/

/-- Where names lead from a directory if none of them is a link. -/
def descend (here : Location) (names : List String) : Location :=
  names.foldl (fun here name =>
    if name = "." then here else if name = ".." then here.dropLast else here ++ [name]) here

@[simp] theorem descend_nil (here : Location) : descend here [] = here := rfl

theorem descend_cons (here : Location) (name : String) (names : List String) :
    descend here (name :: names) = descend (descend here [name]) names := rfl

theorem descend_append (here : Location) (names rest : List String) :
    descend here (names ++ rest) = descend (descend here names) rest := List.foldl_append ..

@[simp] theorem descend_dot (here : Location) : descend here ["."] = here := by
  simp [descend]

@[simp] theorem descend_dots (here : Location) : descend here [".."] = here.dropLast := by
  simp [descend]

theorem descend_name {name : String} (hdot : name ≠ ".") (hdots : name ≠ "..") (here : Location) :
    descend here [name] = here ++ [name] := by
  simp [descend, hdot, hdots]

/-- Names that are no dots go down. -/
theorem descend_names {names : List String} (h : ∀ w ∈ names, w ≠ "." ∧ w ≠ "..")
    (here : Location) : descend here names = here ++ names := by
  induction names generalizing here with
  | nil => simp
  | cons w names ih =>
      obtain ⟨hdot, hdots⟩ := h w (by simp)
      rw [descend_cons, descend_name hdot hdots, ih fun v hv => h v (by simp [hv])]
      simp

end FileSystem

/-! ### The place of a path -/

namespace Path

/-- **The place that an absolute path names**, links on the way left out of account. -/
def location (p : Path) : Location := FileSystem.descend [] p.parts

/-- **A text that may lead out of the directory that it is added to**: it is a path from the root
directory, or it goes up somewhere. -/
def Leaves (s : String) : Prop := (ofString s).anchor ≠ .relative ∨ ".." ∈ (ofString s).parts

instance (s : String) : Decidable (Leaves s) := inferInstanceAs (Decidable (_ ∨ _))

variable {p : Path} {s : String}

/-- What stays below a path is added to its components. -/
theorem child_of_not_leaves (h : ¬Leaves s) (p : Path) :
    p.child s = ⟨p.anchor, p.parts ++ (ofString s).parts⟩ := by
  unfold Leaves at h
  rw [not_or] at h
  rw [child, join_of_relative (Decidable.not_not.1 h.1)]

theorem not_dots_of_not_leaves (h : ¬Leaves s) : ∀ w ∈ (ofString s).parts, w ≠ "." ∧ w ≠ ".." := by
  unfold Leaves at h
  rw [not_or] at h
  refine fun w hw => ⟨(clean_ofString s w hw).2.1, ?_⟩
  rintro rfl
  exact h.2 hw

/-- **What is added to a path lies below it**, if it does not lead out. -/
theorem location_child (h : ¬Leaves s) (p : Path) :
    (p.child s).location = p.location ++ (ofString s).parts := by
  rw [child_of_not_leaves h, location, FileSystem.descend_append,
    FileSystem.descend_names (not_dots_of_not_leaves h)]
  rfl

theorem prefix_location_child (h : ¬Leaves s) (p : Path) :
    p.location <+: (p.child s).location := by
  rw [location_child h]
  exact List.prefix_append _ _

theorem not_leaves_of_isPart {w : String} (h : IsPart w) (hdots : w ≠ "..") : ¬Leaves w := by
  unfold Leaves
  rw [ofString_of_isPart h]
  simpa using Ne.symm hdots

/-- The components of a path some levels up are the first ones. -/
theorem ancestor_parts (p : Path) (n : Nat) : (p.ancestor n).parts <+: p.parts ∧
    (p.ancestor n).anchor = p.anchor := by
  induction n generalizing p with
  | zero => exact ⟨List.prefix_refl _, rfl⟩
  | succ n ih =>
      obtain ⟨hparts, hanchor⟩ := ih p.parent
      exact ⟨hparts.trans (List.dropLast_prefix _), hanchor⟩

end Path

namespace FileSystem

open Provision.Path

variable {t : Tree} {follow : Bool} {links : Nat} {here there : Location} {names : List String}
  {fs : FileSystem} {p : Path}

/-! ### Walks without links -/

theorem walk_dot_cons (t : Tree) (follow : Bool) (links : Nat) (here : Location)
    (rest : List String) :
    walk t follow links here ("." :: rest) = walk t follow links here rest := by
  cases links <;> simp [walk, walkWith]

theorem walk_dots_cons (t : Tree) (follow : Bool) (links : Nat) (here : Location)
    (rest : List String) :
    walk t follow links here (".." :: rest) = walk t follow links here.dropLast rest := by
  cases links <;> simp [walk, walkWith]

/-- **A walk that meets no link goes where its names say.** -/
theorem walk_eq_descend
    (hlinks : ∀ q, q <+: names → ∀ text, t.get? (descend here q) ≠ some (.link text))
    (h : walk t follow links here names = .ok there) : there = descend here names := by
  induction names generalizing here with
  | nil => simpa using h.symm
  | cons name names ih =>
      have hrest : ∀ q, q <+: names → ∀ text,
          t.get? (descend (descend here [name]) q) ≠ some (.link text) := by
        intro q hq
        rw [← descend_cons]
        exact hlinks (name :: q) (by simpa using hq)
      rw [descend_cons]
      by_cases hdot : name = "."
      · subst hdot
        rw [walk_dot_cons] at h
        exact ih hrest (by simpa using h)
      by_cases hdots : name = ".."
      · subst hdots
        rw [walk_dots_cons] at h
        exact ih hrest (by simpa using h)
      · rw [descend_name hdot hdots] at hrest ⊢
        have hlink := hlinks [name] (by simp)
        rw [descend_name hdot hdots] at hlink
        obtain ⟨-, -, hnext⟩ := walk_cons_of_ok hdot hdots hlink h
        exact ih hrest hnext

/-- **Everything on the way of a walk is there**, if it has met no link. -/
theorem isSome_of_walk
    (hlinks : ∀ q, q <+: names → ∀ text, t.get? (descend here q) ≠ some (.link text))
    (hhere : ∀ q, q <+: here → (t.get? q).isSome)
    (h : walk t follow links here names = .ok there) :
    ∀ q, q <+: names → (t.get? (descend here q)).isSome := by
  induction names generalizing here with
  | nil =>
      intro q hq
      obtain rfl := List.prefix_nil.1 hq
      exact hhere here (List.prefix_refl _)
  | cons name names ih =>
      intro q hq
      cases q with
      | nil => exact hhere here (List.prefix_refl _)
      | cons name' q =>
          obtain ⟨rfl, hnames⟩ := List.cons_prefix_cons.1 hq
          have hrest : ∀ q, q <+: names → ∀ text,
              t.get? (descend (descend here [name']) q) ≠ some (.link text) := by
            intro q hq
            rw [← descend_cons]
            exact hlinks (name' :: q) (by simpa using hq)
          rw [descend_cons]
          -- the places above the next directory are there: they are above this one, or it is new
          by_cases hdot : name' = "."
          · subst hdot
            rw [walk_dot_cons] at h
            exact ih hrest (by simpa using hhere) (by simpa using h) q hnames
          by_cases hdots : name' = ".."
          · subst hdots
            rw [walk_dots_cons] at h
            refine ih hrest (fun q hq => hhere q ?_) (by simpa using h) q hnames
            rw [descend_dots] at hq
            exact hq.trans (List.dropLast_prefix _)
          · rw [descend_name hdot hdots] at hrest ⊢
            have hlink := hlinks [name'] (by simp)
            rw [descend_name hdot hdots] at hlink
            obtain ⟨-, hthere, hnext⟩ := walk_cons_of_ok hdot hdots hlink h
            refine ih hrest (fun q hq => ?_) hnext q hnames
            rcases List.prefix_concat_iff.1 hq with rfl | hq
            · exact hthere
            · exact hhere q hq

/-! ### Calls without links -/

/-- **There is no link on the way of an absolute path**, nor at its end. -/
def Straight (fs : FileSystem) (p : Path) : Prop :=
  ∀ q, q <+: p.parts → ∀ text, fs.tree.get? (descend [] q) ≠ some (.link text)

/-- A dot at the end is no link. -/
theorem Straight.dotted (h : fs.Straight p) :
    ∀ q, q <+: p.parts ++ ["."] → ∀ text, fs.tree.get? (descend [] q) ≠ some (.link text) := by
  intro q hq
  rcases List.prefix_concat_iff.1 hq with rfl | hq
  · rw [descend_append, descend_dot]
    exact h _ (List.prefix_refl _)
  · exact h q hq

theorem origin_of_absolute (fs : FileSystem) {a : Anchor} (h : a ≠ .relative) :
    fs.origin a = [] := if_neg h

theorem Straight.resolve (h : fs.Straight p) (hp : p.Clean) (habsolute : p.anchor ≠ .relative)
    (hresolve : fs.resolve p.toString follow = .ok there) : there = p.location := by
  obtain ⟨start, names, henter, hwalk⟩ := exists_enter_of_resolve hresolve
  obtain ⟨rfl, hnames⟩ := enter_toString hp henter
  rw [hnames, origin_of_absolute fs habsolute] at hwalk
  exact walk_eq_descend h hwalk

/-- Everything on the way of a path that leads to a directory is there. -/
theorem Straight.isSome (h : fs.Straight p) (habsolute : p.anchor ≠ .relative)
    (hreach : fs.reach p = .ok there) :
    ∀ q, q <+: p.parts → (fs.tree.get? (descend [] q)).isSome := by
  rw [FileSystem.reach, origin_of_absolute fs habsolute] at hreach
  intro q hq
  refine isSome_of_walk h.dotted (fun q hq => ?_) hreach q (hq.trans (List.prefix_append _ _))
  obtain rfl := List.prefix_nil.1 hq
  rfl

/-- The place at the end of a path. -/
theorem Straight.place (h : fs.Straight p) (hp : p.Clean) (habsolute : p.anchor ≠ .relative)
    {special : Errno} (hplace : fs.place p.toString special = .ok there) : there = p.location := by
  obtain ⟨here, name, hleads, rfl⟩ := place_eq_ok hplace
  obtain ⟨start, names, henter, hwalk⟩ := hleads.enter
  obtain ⟨hdot, hdots, -⟩ := hleads.name
  by_cases hne : p.parts = []
  -- the text of a root directory has no place at its end
  · obtain ⟨-, -, -, -, hsteps⟩ := enter_eq_ok henter
    have hroot : steps p.toString.toList = ["."] := by
      obtain ⟨anchor, parts⟩ := p
      obtain rfl : parts = [] := hne
      cases anchor with
      | relative => exact absurd rfl habsolute
      | root => decide
      | doubleRoot => decide
    rw [hroot] at hsteps
    have hlast : names ++ [name] = [] ++ ["."] := hsteps
    exact absurd (List.append_singleton_inj.1 hlast).2 hdot
  · have hwritten : p.written = p.parts := if_neg fun hpath => hne hpath.2
    rw [toString_eq, hwritten] at henter
    obtain ⟨rfl, hparts⟩ := enter_text hne hp.parts henter
    rw [origin_of_absolute fs habsolute] at hwalk
    have hstraight : ∀ q, q <+: names ++ ["."] → ∀ text,
        fs.tree.get? (descend [] q) ≠ some (.link text) := by
      refine Straight.dotted (p := ⟨p.anchor, names⟩) fun q hq => ?_
      refine h q (hq.trans ?_)
      rw [← hparts]
      exact List.prefix_append _ _
    rw [walk_eq_descend hstraight hwalk, location, ← hparts, descend_append, descend_append,
      descend_dot, descend_name hdot hdots]

end FileSystem

end Provision
