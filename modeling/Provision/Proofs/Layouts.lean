/-
**The paths of a workspace.**

The root of a workspace is read from the environment, and all other paths of a layout are names below
it.  So all of them are clean.

Main results:

* `Provision.clean_of_workspaceRoot`, `Provision.Bootstrap.clean_root_of_prepare` — **the root of a
  plan is clean**;
* `Provision.Bootstrap.plan_of_same` — a plan follows from environment, configuration and rules;
* `Provision.Layout.clean_repoDir`, `Provision.Git.leadsTo_indexLock` — repositories and their locks.
-/

import Provision.Proofs.Calls
import Provision.Proofs.Validation

set_option relaxedAutoImplicit false
set_option autoImplicit false

namespace Provision

open Step

namespace Path

theorem Clean.expandHome {homes : Homes} {p p' : Path} (hp : p.Clean)
    (h : p.expandHome homes = some p') : p'.Clean := by
  unfold Path.expandHome at h
  split at h
  · next first rest hparts =>
    split at h
    · split at h
      · simp at h
      · split at h
        · simp at h
        · obtain rfl := Option.some.inj h
          intro w hw
          rcases List.mem_append.1 hw with hw | hw
          · exact clean_ofString _ w hw
          · exact hp w (by rw [hparts]; exact List.mem_cons_of_mem _ hw)
    · obtain rfl := Option.some.inj h
      exact hp
  · obtain rfl := Option.some.inj h
    exact hp

end Path

theorem Layout.clean_repoDir {l : Layout} (h : l.root.Clean) (name : String) :
    (l.repoDir name).Clean :=
  ((h.child_text _).child_text _).child_text _

/-- The name of a distribution starts with a letter. -/
theorem Layout.relative_goName (version : String) :
    (Path.ofString ("go-" ++ version)).anchor = .relative := by
  simp [Path.ofString, Path.anchorOf]

theorem Loader.clean_of_expand {path path' : Path} {m m' : Machine} (hpath : path.Clean)
    (h : (expand path).perform m = (.ok path', m')) : path'.Clean := by
  rw [expand, perform_bind_ok (perform_get m)] at h
  cases hexpand : path.expandHome m.homes with
  | none =>
      rw [hexpand] at h
      dsimp only at h
      split at h <;> simp at h
  | some p =>
      rw [hexpand] at h
      obtain ⟨rfl, rfl⟩ : p = path' ∧ m = m' := by simpa using h
      exact hpath.expandHome hexpand

/-- What the path of a lock leads to has the name of a lock. -/
theorem Git.leadsTo_indexLock {fs : FileSystem} {repo : Path} {here : Location} {name : String}
    (hrepo : repo.Clean) (h : fs.LeadsTo (indexLock repo).toString here name) :
    fs.reach (repo.child ".git") = .ok here ∧ name = "index.lock" :=
  FileSystem.reach_of_leadsTo_child (hrepo.child_text _) ⟨by decide, by decide, by decide⟩ h

/-- The root of a workspace is a clean path. -/
theorem clean_of_workspaceRoot {environment : Environment} {root : Path} {m m' : Machine}
    (h : (workspaceRoot environment).perform m = (.ok root, m')) : root.Clean := by
  unfold workspaceRoot at h
  dsimp only at h
  split at h
  · exact Loader.clean_of_expand (Path.clean_ofString _) h
  · obtain ⟨home, m₁, hexpand, hchild⟩ := perform_bind_eq_ok.1 h
    obtain ⟨rfl, rfl⟩ : home.child "go" = root ∧ m₁ = m' := by simpa using hchild
    exact (Loader.clean_of_expand (Path.clean_ofString _) hexpand).child_text _

namespace Bootstrap

theorem clean_root_of_complete {a : Arguments} {read : Config} {m m' : Machine} {config : Config}
    {layout : Layout} (h : (complete a read).perform m = (.ok (config, layout), m')) :
    layout.root.Clean := by
  obtain ⟨_, m₂, -, h⟩ := perform_bind_eq_ok.1 h
  obtain ⟨root, m₃, hroot, h⟩ := perform_bind_eq_ok.1 h
  split at h
  · next result hresolve =>
    obtain ⟨rfl, -⟩ : result = (config, layout) ∧ m₃ = m' := by simpa using h
    obtain ⟨-, rfl⟩ := Config.isComplete_of_resolve hresolve
    exact clean_of_workspaceRoot hroot
  · simp at h

theorem clean_root_of_configure {a : Arguments} {m m' : Machine} {config : Config}
    {layout : Layout} (h : (configure a).perform m = (.ok (config, layout), m')) :
    layout.root.Clean := by
  unfold configure at h
  split at h
  · obtain ⟨read, m₁, -, h⟩ := perform_bind_eq_ok.1 h
    exact clean_root_of_complete h
  · obtain ⟨read, m₁, -, h⟩ := perform_bind_eq_ok.1 h
    exact clean_root_of_complete h

/-- **The root of a plan is clean.** -/
theorem clean_root_of_prepare {a : Arguments} {m m' : Machine} {p : Plan}
    (h : (prepare a).perform m = (.ok p, m')) : p.layout.root.Clean := by
  simp only [prepare, perform_bind_eq_ok, perform_debug, perform_get, perform_info, perform_pure,
    Prod.mk.injEq, Except.ok.injEq] at h
  obtain ⟨_, _, -, _, _, -, ⟨config, layout⟩, m₁, hconfigure, _, _, -, _, _, -, rules, m₂, -, _,
    _, -, rfl, -⟩ := h
  exact clean_root_of_configure hconfigure

/-! ### The same plan again -/

end Bootstrap

theorem Loader.expand_congr {m m' : Machine} (h : m.homes = m'.homes) (path : Path) :
    ((expand path).perform m).1 = ((expand path).perform m').1 := by
  rw [expand, perform_bind_ok (perform_get m), perform_bind_ok (perform_get m'), h]
  cases path.expandHome m'.homes with
  | some p => rfl
  | none =>
      dsimp only
      split <;> rfl

/-- The root of a workspace depends on the environment and the home directories only. -/
theorem workspaceRoot_congr {m m' : Machine} (h : m.homes = m'.homes) (environment : Environment) :
    ((workspaceRoot environment).perform m).1 = ((workspaceRoot environment).perform m').1 := by
  unfold workspaceRoot
  dsimp only
  split
  · exact Loader.expand_congr h _
  · rw [perform_bind_pure, perform_bind_pure, Loader.expand_congr h]

namespace Bootstrap

theorem layout_of_complete {a : Arguments} {read : Config} {m m' : Machine} {config : Config}
    {layout : Layout} (h : (complete a read).perform m = (.ok (config, layout), m')) :
    layout.basePackage = config.basePackage ∧
      ((workspaceRoot m.environment).perform m).1 = .ok layout.root := by
  rw [complete, perform_bind_ok (perform_get m)] at h
  obtain ⟨root, m₂, hroot, h⟩ := perform_bind_eq_ok.1 h
  split at h
  · next result hresolve =>
    obtain ⟨rfl, -⟩ : result = (config, layout) ∧ m₂ = m' := by simpa using h
    obtain ⟨-, rfl⟩ := Config.isComplete_of_resolve hresolve
    exact ⟨rfl, by rw [hroot]⟩
  · simp at h

theorem layout_of_configure {a : Arguments} {m m' : Machine} {config : Config} {layout : Layout}
    (h : (configure a).perform m = (.ok (config, layout), m')) :
    layout.basePackage = config.basePackage ∧
      ((workspaceRoot m.environment).perform m).1 = .ok layout.root := by
  -- reading the configuration file leaves the environment and the accounts
  have hafter : ∀ {m₁ : Machine} {read : Config} {s : Step Config}, s.Quiet →
      s.perform m = (.ok read, m₁) → (complete a read).perform m₁ = (.ok (config, layout), m') →
      layout.basePackage = config.basePackage ∧
        ((workspaceRoot m.environment).perform m).1 = .ok layout.root := by
    intro m₁ read s hs hperform hcomplete
    obtain ⟨records, hm⟩ := hs m
    rw [hperform] at hm
    obtain rfl := hm
    obtain ⟨hpackage, hroot⟩ := layout_of_complete hcomplete
    exact ⟨hpackage, by rw [← hroot]; exact workspaceRoot_congr (by rfl) _⟩
  unfold configure at h
  split at h
  · obtain ⟨read, m₁, hread, h⟩ := perform_bind_eq_ok.1 h
    exact hafter (still_loadConfig _).quiet hread h
  · obtain ⟨read, m₁, hread, h⟩ := perform_bind_eq_ok.1 h
    exact hafter (quiet_pure _) hread h

theorem layout_of_prepare {a : Arguments} {m m' : Machine} {p : Plan}
    (h : (prepare a).perform m = (.ok p, m')) :
    p.layout.basePackage = p.config.basePackage ∧
      ((workspaceRoot m.environment).perform m).1 = .ok p.layout.root := by
  simp only [prepare, perform_bind_eq_ok, perform_debug, perform_get, perform_info, perform_pure,
    Prod.mk.injEq, Except.ok.injEq] at h
  obtain ⟨_, m₁, ⟨-, rfl⟩, _, _, ⟨rfl, rfl⟩, ⟨config, layout⟩, m₂, hconfigure, _, _, -, _, _, -,
    rules, m₃, -, _, _, -, rfl, -⟩ := h
  obtain ⟨hpackage, hroot⟩ := layout_of_configure hconfigure
  exact ⟨hpackage, by rw [← hroot]; exact workspaceRoot_congr (by rfl) _⟩

/-- **A run with the same environment, the same configuration and the same rules has the same
plan.** -/
theorem plan_of_same {a : Arguments} {m m₁ m' m₁' : Machine} {p p' : Plan}
    (h : (prepare a).perform m = (.ok p, m₁)) (h' : (prepare a).perform m' = (.ok p', m₁'))
    (henvironment : m'.environment = m.environment) (haccounts : m'.accounts = m.accounts)
    (hconfig : p'.config = p.config) (hrules : p'.rules = p.rules) : p' = p := by
  obtain ⟨harguments, henv⟩ := plan_of_prepare h
  obtain ⟨harguments', henv'⟩ := plan_of_prepare h'
  obtain ⟨hpackage, hroot⟩ := layout_of_prepare h
  obtain ⟨hpackage', hroot'⟩ := layout_of_prepare h'
  have hhomes : m'.homes = m.homes := by rw [Machine.homes, Machine.homes, henvironment, haccounts]
  rw [henvironment, workspaceRoot_congr hhomes, hroot] at hroot'
  have hsame : p'.layout.root = p.layout.root := by simpa using hroot'.symm
  obtain ⟨arguments, environment, config, ⟨root, package⟩, rules⟩ := p
  obtain ⟨arguments', environment', config', ⟨root', package'⟩, rules'⟩ := p'
  dsimp only at *
  rw [harguments', harguments, henv', henv, henvironment, hconfig, hrules, hsame, hpackage',
    hpackage, hconfig]

end Bootstrap

end Provision
