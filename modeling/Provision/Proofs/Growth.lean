/-
**Directories on the way.**

Making a directory, with those that are missing above it, changes nothing else: what was there is
there as it was, and whatever is new is a directory on the way to the path.  This also holds if one
of the directories cannot be made, so that the others have been made in vain.

Main definitions:

* `Provision.FileSystem.WellFormed` — a closed tree, and a working directory in it;
* `Provision.Path.ancestor` — the path some levels up;
* `Provision.FileSystem.Extends` — **some directories more on the way to a path**.

Main results:

* `Provision.FileSystem.WellFormed.makeDirectory` — what a new directory changes;
* `Provision.FileSystem.ensureDirectories_induction` — what each new directory on the way keeps, all
  of them keep;
* `Provision.FileSystem.extends_ensureDirectories` — **making a directory and those above it**.
-/

import Provision.Proofs.Calls

set_option relaxedAutoImplicit false
set_option autoImplicit false

namespace Provision

/-- The path some levels up. -/
def Path.ancestor (p : Path) : Nat → Path
  | 0 => p
  | n + 1 => p.parent.ancestor n

theorem Path.ancestor_ancestor (p : Path) (k n : Nat) :
    (p.ancestor k).ancestor n = p.ancestor (k + n) := by
  induction k generalizing p with
  | zero => rw [Nat.zero_add, ancestor]
  | succ k ih => rw [ancestor, ih, Nat.succ_add, ancestor]

namespace FileSystem

variable {fs fs' fs'' : FileSystem} {p : Path} {text : String} {here there : Location}
  {name : String}

/-! ### Well-formed file systems -/

/-- **A file system as there are**: everything lies in a directory, and the working directory is
there. -/
structure WellFormed (fs : FileSystem) : Prop where
  /-- Everything lies in a directory. -/
  closed : fs.tree.Closed
  /-- The working directory is there. -/
  workingDirectory : fs.tree.get? fs.workingDirectory = some .directory

/-- What a text leads to lies in a directory. -/
theorem WellFormed.get?_of_leadsTo (hfs : fs.WellFormed) (h : fs.LeadsTo text here name) :
    fs.tree.get? here = some .directory := by
  obtain ⟨start, names, henter, hwalk⟩ := h.enter
  obtain ⟨-, -, -, hstart, -⟩ := enter_eq_ok henter
  refine get?_of_walk_dot hfs.closed ?_ hwalk
  rw [hstart]
  split
  · rfl
  · exact hfs.workingDirectory

/-- What a path leads to, as a call on something below it finds it, is a directory. -/
theorem WellFormed.get?_of_reach (hfs : fs.WellFormed) (h : fs.reach p = .ok here) :
    fs.tree.get? here = some .directory := by
  refine get?_of_walk_dot hfs.closed ?_ h
  unfold origin
  split
  · exact hfs.workingDirectory
  · rfl

/-- **What a new directory changes**: it is there now, and everything else is as it was. -/
theorem WellFormed.makeDirectory (hfs : fs.WellFormed) (h : fs.makeDirectory text = .ok fs') :
    ∃ here name, fs.LeadsTo text here name ∧ fs'.LeadsTo text here name ∧
      fs.tree.get? (here ++ [name]) = none ∧
      (∀ q, fs'.tree.get? q =
        if q = here ++ [name] then some .directory else fs.tree.get? q) ∧
      fs'.workingDirectory = fs.workingDirectory ∧ fs'.WellFormed := by
  obtain ⟨here, name, hleads, hnone, rfl⟩ := makeDirectory_eq_ok h
  have hget := Tree.get?_makeDirectory_of_missing hfs.closed (by simp) hnone
  have hgrown : fs.tree.Grown (fs.tree.makeDirectory (here ++ [name])) := by
    intro q
    rw [hget q]
    by_cases hq : q = here ++ [name]
    · right
      simp [hq, hnone]
    · left
      simp [hq]
  refine ⟨here, name, hleads, hleads.of_grown hgrown rfl, hnone, hget, rfl, ?_, ?_⟩
  · exact hfs.closed.makeDirectory (hfs.get?_of_leadsTo hleads) hnone
  · rcases hgrown fs.workingDirectory with hsame | ⟨hmissing, -⟩
    · exact hsame.trans hfs.workingDirectory
    · rw [hfs.workingDirectory] at hmissing
      simp at hmissing

/-! ### More directories -/

/-- **`fs'` is `fs` with some directories more**, all of them on the way to `p`. -/
structure Extends (fs : FileSystem) (p : Path) (fs' : FileSystem) : Prop where
  workingDirectory : fs'.workingDirectory = fs.workingDirectory
  /-- What is new is a directory on the way. -/
  tree : ∀ q, fs'.tree.get? q = fs.tree.get? q ∨
    (fs.tree.get? q = none ∧ fs'.tree.get? q = some .directory ∧
      ∃ n, fs'.resolve (p.ancestor n).toString true = .ok q)

namespace Extends

theorem refl (fs : FileSystem) (p : Path) : fs.Extends p fs := ⟨rfl, fun _ => Or.inl rfl⟩

theorem grown (h : fs.Extends p fs') : fs.tree.Grown fs'.tree := by
  intro q
  rcases h.tree q with hsame | ⟨hnone, hdirectory, -⟩
  · exact Or.inl hsame
  · exact Or.inr ⟨hnone, hdirectory⟩

/-- A path leads where it has led before. -/
theorem resolve (h : fs.Extends p fs') {follow : Bool} (hresolve : fs.resolve text follow = .ok there) :
    fs'.resolve text follow = .ok there := by
  obtain ⟨start, names, henter, hwalk⟩ := exists_enter_of_resolve hresolve
  have henter' : fs'.enter text = .ok (start, names) := by
    rw [enter_congr h.workingDirectory, henter]
  exact resolve_of_walk henter' (walk_of_grown h.grown hwalk)

theorem trans (h₁ : fs.Extends p fs') (h₂ : fs'.Extends p fs'') : fs.Extends p fs'' where
  workingDirectory := h₂.workingDirectory.trans h₁.workingDirectory
  tree := by
    intro q
    -- what is new after one of the two is not new in the other
    rcases h₂.tree q with hsame₂ | ⟨hnone₂, hdirectory₂, hway₂⟩
    · rcases h₁.tree q with hsame₁ | ⟨hnone₁, hdirectory₁, n, hn⟩
      · exact Or.inl (hsame₂.trans hsame₁)
      · exact Or.inr ⟨hnone₁, hsame₂.trans hdirectory₁, n, h₂.resolve hn⟩
    · rcases h₁.tree q with hsame₁ | ⟨-, hdirectory₁, -⟩
      · exact Or.inr ⟨hsame₁.symm.trans hnone₂, hdirectory₂, hway₂⟩
      · rw [hdirectory₁] at hnone₂
        simp at hnone₂

/-- The way to a path above is part of the way. -/
theorem of_ancestor {k : Nat} (h : fs.Extends (p.ancestor k) fs') : fs.Extends p fs' where
  workingDirectory := h.workingDirectory
  tree := by
    intro q
    rcases h.tree q with hsame | ⟨hnone, hdirectory, n, hn⟩
    · exact Or.inl hsame
    · rw [Path.ancestor_ancestor] at hn
      exact Or.inr ⟨hnone, hdirectory, k + n, hn⟩

end Extends

/-! ### Making the directories -/

theorem extends_makeDirectory (hfs : fs.WellFormed) (h : fs.makeDirectory p.toString = .ok fs') :
    fs.Extends p fs' ∧ fs'.WellFormed := by
  obtain ⟨here, name, -, hleads, hnone, hget, hdirectory, hfs'⟩ := hfs.makeDirectory h
  refine ⟨⟨hdirectory, fun q => ?_⟩, hfs'⟩
  rw [hget q]
  by_cases hq : q = here ++ [name]
  · subst hq
    exact Or.inr ⟨hnone, if_pos rfl, 0, hleads.resolve_of_directory (by simp [hget]) true⟩
  · exact Or.inl (if_neg hq)

/-- What each new directory on the way keeps, making a directory and those above it keeps. -/
theorem ensureDirectoriesWithin_induction {R : FileSystem → FileSystem → Prop}
    (hrefl : ∀ fs, R fs fs) (htrans : ∀ fs₁ fs₂ fs₃, R fs₁ fs₂ → R fs₂ fs₃ → R fs₁ fs₃)
    (depth : Nat) (p : Path) (hmake : ∀ n fs fs',
      fs.makeDirectory (p.ancestor n).toString = .ok fs' → R fs fs') (fs : FileSystem) :
    R fs (ensureDirectoriesWithin depth fs p).1 := by
  have hone : ∀ (q : Path), (∀ fs fs', fs.makeDirectory q.toString = .ok fs' → R fs fs') →
      ∀ fs fs', fs.ensureDirectory q = .ok fs' → R fs fs' := by
    intro q hq fs fs' h
    unfold ensureDirectory at h
    split at h
    · next hmade =>
      obtain rfl : _ = fs' := by simpa using h
      exact hq fs _ hmade
    · simp at h
    · split at h
      · simp at h
      · split at h
        · obtain rfl : fs = fs' := by simpa using h
          exact hrefl fs
        · simp at h
        · simp at h
  have hself := hone p fun fs fs' => hmake 0 fs fs'
  -- the induction is on the number of directories that may be missing above; only the parent, made
  -- at the smaller depth, and then the directory itself change anything
  induction depth generalizing fs p with
  | zero =>
      unfold ensureDirectoriesWithin
      cases hmade : fs.ensureDirectory p with
      | ok fs' => exact hself fs fs' hmade
      | error r =>
          obtain ⟨refusal, refusedPath⟩ := r
          cases refusal with
          | embeddedNull => exact hrefl fs
          | failed e =>
              dsimp only
              split <;> exact hrefl fs
  | succ depth ih =>
      unfold ensureDirectoriesWithin
      cases hmade : fs.ensureDirectory p with
      | ok fs' => exact hself fs fs' hmade
      | error r =>
          obtain ⟨refusal, refusedPath⟩ := r
          cases refusal with
          | embeddedNull => exact hrefl fs
          | failed e =>
              dsimp only
              split
              · exact hrefl fs
              · have habove := ih p.parent (fun n => hmake (n + 1)) fs
                  (hone p.parent fun fs fs' => hmake 1 fs fs')
                cases hrest : ensureDirectoriesWithin depth fs p.parent with
                | mk fs₁ refused =>
                    rw [hrest] at habove
                    cases refused with
                    | some r => exact habove
                    | none =>
                        dsimp only
                        cases hlast : fs₁.ensureDirectory p with
                        | error r => exact habove
                        | ok fs₂ => exact htrans fs fs₁ fs₂ habove (hself fs₁ fs₂ hlast)

/-- **What each new directory on the way keeps, making a directory and those above it keeps**, whether
it succeeds or not. -/
theorem ensureDirectories_induction {R : FileSystem → FileSystem → Prop}
    (hrefl : ∀ fs, R fs fs) (htrans : ∀ fs₁ fs₂ fs₃, R fs₁ fs₂ → R fs₂ fs₃ → R fs₁ fs₃)
    (p : Path) (hmake : ∀ n fs fs',
      fs.makeDirectory (p.ancestor n).toString = .ok fs' → R fs fs') (fs : FileSystem) :
    R fs (fs.ensureDirectories p).1 :=
  ensureDirectoriesWithin_induction hrefl htrans _ p hmake fs

/-- The files with the directories on the way to a path, as far as they can be made. -/
def grownTo (fs : FileSystem) (p : Path) : FileSystem := (fs.ensureDirectories p).1

/-- **Making a directory and those above it adds directories on the way and nothing else**, whether
it succeeds or not. -/
theorem extends_ensureDirectories (hfs : fs.WellFormed) (p : Path) :
    fs.Extends p (fs.grownTo p) ∧ (fs.grownTo p).WellFormed := by
  refine ensureDirectories_induction
    (R := fun fs fs' => fs.WellFormed → fs.Extends p fs' ∧ fs'.WellFormed)
    (fun fs hfs => ⟨Extends.refl fs p, hfs⟩) ?_ p ?_ fs hfs
  · intro fs₁ fs₂ fs₃ h₁ h₂ hfs₁
    obtain ⟨hfirst, hfs₂⟩ := h₁ hfs₁
    obtain ⟨hrest, hfs₃⟩ := h₂ hfs₂
    exact ⟨hfirst.trans hrest, hfs₃⟩
  · intro n fs fs' hmade hfs
    obtain ⟨hnew, hfs'⟩ := extends_makeDirectory hfs hmade
    exact ⟨hnew.of_ancestor, hfs'⟩

end FileSystem

end Provision
