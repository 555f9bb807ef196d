/-
**What tasks do to the files.**

A task that builds a tool or clones a repository leaves the files to its commands: whatever has
changed behind it has been changed by one of them.  The other tasks change a few places themselves.
The link to the default distribution is removed and made again; the directory of the repositories is
made with those above it; and the lock of a repository that is there is removed.

Main definitions:

* `Provision.Step.launched` — the launches of a step;
* `Provision.Step.Delegates` — **a step that leaves the files to its launches**;
* `Provision.FileSystem.cleared` — the files without what can be unlinked at a path.

Main results:

* `Provision.Step.mem_launched_bind` — the launches of two steps;
* `Provision.Launch.Chain.relates` — what every launch keeps, all of them keep;
* `Provision.Bootstrap.Plan.delegates_step` — tools and the source repository;
* `Provision.Bootstrap.Plan.link_cases`, `Provision.Bootstrap.Plan.base_cases`,
  `Provision.Bootstrap.Plan.fork_cases` — the other tasks;
* `Provision.Bootstrap.Plan.work_cases` — tools and repositories together.
-/

import Provision.Proofs.Executions

set_option relaxedAutoImplicit false
set_option autoImplicit false

namespace Provision

/-! ### Chains -/

namespace Launch

variable {fs fs' : FileSystem} {ls : List Launch}

/-- **What every launch keeps, all of them keep.** -/
theorem Chain.relates {R : FileSystem → FileSystem → Prop} (hrefl : ∀ fs, R fs fs)
    (htrans : ∀ fs₁ fs₂ fs₃, R fs₁ fs₂ → R fs₂ fs₃ → R fs₁ fs₃) (h : Chain fs ls fs')
    (hls : ∀ l ∈ ls, R l.before l.after) : R fs fs' := by
  induction ls generalizing fs with
  | nil =>
      obtain rfl : fs' = fs := h
      exact hrefl fs'
  | cons l ls ih =>
      obtain ⟨rfl, htail⟩ := h
      exact htrans _ _ _ (hls l (by simp)) (ih htail fun k hk => hls k (by simp [hk]))

/-- Launches that change no file change none together. -/
theorem Chain.eq_of_same (h : Chain fs ls fs') (hls : ∀ l ∈ ls, l.after = l.before) : fs' = fs :=
  h.relates (R := fun fs fs' => fs' = fs) (fun _ => rfl) (fun _ _ _ h₁ h₂ => h₂.trans h₁) hls

end Launch

/-! ### The launches of a step -/

namespace Step

variable {α β : Type} {m m₁ : Machine} {wanted : List Command}

/-- The launches of a step. -/
def launched (s : Step α) (m : Machine) : List Launch :=
  (s.perform m).2.launches.drop m.launches.length

theorem launched_eq {s : Step α} {new : List Launch}
    (h : (s.perform m).2.launches = m.launches ++ new) : s.launched m = new := by
  rw [launched, h, List.drop_left]

/-- A launch of the first of two steps, or of the second one, is a launch of both. -/
theorem mem_launched_bind {s : Step α} {f : α → Step β} {first : List Launch}
    (hs : (s.perform m).2.launches = m.launches ++ first)
    (hf : ∀ a m₁, s.perform m = (.ok a, m₁) →
      ∃ rest, ((f a).perform m₁).2.launches = m₁.launches ++ rest) {l : Launch}
    (h : l ∈ s.launched m ∨ ∃ a m₁, s.perform m = (.ok a, m₁) ∧ l ∈ (f a).launched m₁) :
    l ∈ (s >>= f).launched m := by
  rw [launched_eq hs] at h
  rcases hperform : s.perform m with ⟨e | a, m₁⟩
  · rw [hperform] at hs
    have hboth : ((s >>= f).perform m).2.launches = m.launches ++ first := by
      rw [perform_bind_error hperform]
      exact hs
    rw [launched_eq hboth]
    rcases h with h | ⟨a, m₂, hok, -⟩
    · exact h
    · rw [hperform] at hok
      simp at hok
  · obtain ⟨rest, hrest⟩ := hf a m₁ hperform
    rw [hperform] at hs
    have hboth : ((s >>= f).perform m).2.launches = m.launches ++ (first ++ rest) := by
      rw [perform_bind_ok hperform, hrest, hs, List.append_assoc]
    rw [launched_eq hboth]
    rcases h with h | ⟨a', m₂, hok, h⟩
    · exact List.mem_append_left _ h
    · obtain ⟨rfl, rfl⟩ : a = a' ∧ m₁ = m₂ := by simpa [hperform] using hok
      rw [launched_eq hrest] at h
      exact List.mem_append_right _ h

/-! ### Steps that leave the files to their launches -/

/-- **A step that leaves the files to its launches.** -/
def Delegates (s : Step α) : Prop :=
  ∀ m, ∃ new, (s.perform m).2.launches = m.launches ++ new ∧
    Launch.Chain m.files new (s.perform m).2.files

theorem Quiet.delegates {s : Step α} (hs : s.Quiet) : s.Delegates := by
  intro m
  obtain ⟨records, hm⟩ := hs m
  refine ⟨[], ?_, ?_⟩
  · rw [hm]
    simp
  · rw [hm]
    rfl

theorem Delegates.bind {s : Step α} {f : α → Step β} (hs : s.Delegates)
    (hf : ∀ a, (f a).Delegates) : (s >>= f).Delegates := by
  intro m
  obtain ⟨first, hlaunches, hchain⟩ := hs m
  rcases h : s.perform m with ⟨e | a, m₁⟩
  · rw [h] at hlaunches hchain
    exact ⟨first, by rw [perform_bind_error h]; exact ⟨hlaunches, hchain⟩⟩
  · rw [h] at hlaunches hchain
    obtain ⟨rest, hlaunches', hchain'⟩ := hf a m₁
    refine ⟨first ++ rest, ?_⟩
    rw [perform_bind_ok h]
    refine ⟨?_, hchain.append hchain'⟩
    rw [hlaunches', hlaunches, List.append_assoc]

end Step

open Step

/-- **The runner leaves the files to its command.** -/
theorem Runner.delegates_run {runner : Runner} (hdry : runner.dryRun = false)
    (argv : List String) (directory : Option Path) : (runner.run argv directory).Delegates := by
  intro m
  obtain ⟨records, hrun⟩ := perform_run hdry argv directory m
  rw [hrun]
  exact ⟨_, rfl, rfl, rfl⟩

/-! ### Places that are cleared -/

/-- The files without what can be unlinked at a path. -/
def FileSystem.cleared (fs : FileSystem) (path : String) : FileSystem :=
  match fs.unlink path with
  | .ok fs' => fs'
  | .error _ => fs

/-- The place of the link is cleared, and only a path that is no path at all ends the step. -/
theorem Toolchain.perform_clearLink (layout : Layout) (m : Machine) :
    ∃ r records, (clearLink layout).perform m = (r, { m with
        log := m.log ++ records
        files := m.files.cleared layout.goLink.toString }) ∧
      (r = .ok () ∨
        ((∃ e, r = .error e) ∧
          m.files.unlink layout.goLink.toString = .error .embeddedNull)) := by
  rw [clearLink, perform_bind_ok (perform_files m), FileSystem.cleared]
  cases hunlink : m.files.unlink layout.goLink.toString with
  | ok fs => exact ⟨.ok (), [], by simp, Or.inl rfl⟩
  | error refusal =>
      cases refusal with
      | embeddedNull => exact ⟨.error .embeddedNull, [], by simp, Or.inr ⟨⟨_, rfl⟩, rfl⟩⟩
      | failed e =>
          by_cases he : e = .noEntry
          · exact ⟨.ok (), [], by simp [he], Or.inl rfl⟩
          · exact ⟨.ok (), _, by simp only [he, ne_eq, not_false_eq_true, if_true]; rfl, Or.inl rfl⟩

/-- **Making the link**: what is in its place is removed if it can be, and then the link is made, or
the step fails. -/
theorem Toolchain.linkDefault_cases (layout : Layout) (version : String) (m : Machine) :
    ∃ r m', (linkDefault layout version false).perform m = (r, m') ∧ m'.launches = m.launches ∧
      ((r = .ok layout.goLink ∧ (m.files.cleared layout.goLink.toString).symlink
          (layout.goDir version).toString layout.goLink.toString = .ok m'.files) ∨
        ((∃ e, r = .error e) ∧ m'.files = m.files.cleared layout.goLink.toString ∧
          (m.files.unlink layout.goLink.toString = .error .embeddedNull ∨
            ∃ refusal, m'.files.symlink (layout.goDir version).toString layout.goLink.toString =
              .error refusal))) := by
  rw [linkDefault]
  dsimp only
  rw [if_neg (by decide)]
  obtain ⟨r, records, hclear, hr⟩ := perform_clearLink layout m
  generalize hm₁ : ({ m with
    log := m.log ++ records
    files := m.files.cleared layout.goLink.toString } : Machine) = m₁ at hclear
  have hfiles : m₁.files = m.files.cleared layout.goLink.toString := by rw [← hm₁]
  have hlaunches : m₁.launches = m.launches := by rw [← hm₁]
  rw [← hfiles]
  rcases hr with rfl | ⟨⟨e, rfl⟩, hnull⟩
  · rw [perform_bind_ok hclear, perform_bind_ok (perform_files m₁)]
    cases hsymlink : m₁.files.symlink (layout.goDir version).toString layout.goLink.toString with
    | ok fs => exact ⟨.ok _, _, rfl, hlaunches, Or.inl ⟨rfl, rfl⟩⟩
    | error refusal =>
        cases refusal with
        | embeddedNull => exact ⟨_, m₁, rfl, hlaunches, Or.inr ⟨⟨_, rfl⟩, rfl, Or.inr ⟨_, hsymlink⟩⟩⟩
        | failed e => exact ⟨_, m₁, rfl, hlaunches, Or.inr ⟨⟨_, rfl⟩, rfl, Or.inr ⟨_, hsymlink⟩⟩⟩
  · exact ⟨.error e, m₁, perform_bind_error hclear, hlaunches,
      Or.inr ⟨⟨e, rfl⟩, rfl, Or.inl hnull⟩⟩

/-- The place of a lock is cleared. -/
theorem Git.perform_removeIndexLock (repo : Path) (m : Machine) :
    ∃ r records, (removeIndexLock repo).perform m = (r, { m with
      log := m.log ++ records
      files := m.files.cleared (indexLock repo).toString }) := by
  rw [removeIndexLock, perform_bind_ok (perform_files m), FileSystem.cleared]
  cases hunlink : m.files.unlink (indexLock repo).toString with
  | ok fs => exact ⟨.ok (), _, rfl⟩
  | error refusal =>
      cases refusal with
      | embeddedNull => exact ⟨.error .embeddedNull, [], by simp⟩
      | failed e =>
          by_cases he : e = .noEntry
          · exact ⟨.ok (), [], by simp [he]⟩
          · exact ⟨.ok (), _, by simp only [he, if_false]; rfl⟩

/-! ### Tasks -/

theorem Step.perform_found (path : Path) (m : Machine) :
    (found path).perform m =
      match m.files.found path.toString with
      | .ok there => (.ok there, m)
      | .error r => (refused r fun e => .system (.onPath e path.toString) : Step Bool).perform m := by
  rw [found, perform_bind_ok (perform_files m)]
  cases m.files.found path.toString with
  | ok there => rfl
  | error r => rfl

namespace Bootstrap.Plan

variable {p : Plan} (hdry : p.arguments.dryRun = false)
include hdry

theorem delegates_ensureTool (tool : Tool) (skip : Bool) :
    (ensureTool p.layout p.runner tool skip).Delegates := by
  have hrun := @Runner.delegates_run p.runner hdry
  unfold ensureTool
  split
  · exact ((quiet_info _).bind fun _ => quiet_pure _).delegates
  · refine Delegates.bind ?_ fun _ => (quiet_pure _).delegates
    refine quiet_get.delegates.bind fun m => ?_
    split
    · exact ((quiet_info _).bind fun _ => quiet_pure _).delegates
    · exact (quiet_info _).delegates.bind fun _ => (hrun _ _).bind fun _ => (hrun _ _).bind fun _ =>
        (hrun _ _).bind fun _ => (quiet_pure _).delegates

theorem delegates_cloneSource (restore : Bool) :
    (Repository.cloneSource p.config p.layout p.runner restore).Delegates := by
  have hrun := @Runner.delegates_run p.runner hdry
  refine (quiet_found _).delegates.bind fun there => ?_
  split
  · exact ((quiet_info _).bind fun _ => quiet_pure _).delegates
  · refine (quiet_info _).delegates.bind fun _ => (hrun _ _).bind fun _ => ?_
    split
    · exact (quiet_info _).delegates.bind fun _ => (hrun _ _).bind fun _ => (quiet_pure _).delegates
    · exact (quiet_pure _).delegates

/-- **Tools and the source repository are left to their commands.** -/
theorem delegates_step {t : Task} (ht : t ∈ p.tools ++ [.source]) : (p.step t).Delegates := by
  have hcases : t = .tool .godep p.arguments.skipGodep ∨ t = .tool .dep p.arguments.skipDep ∨
      t = .source := by simpa [tools, or_assoc] using ht
  rcases hcases with rfl | rfl | rfl
  · exact (delegates_ensureTool hdry _ _).bind fun _ => (quiet_pure _).delegates
  · exact (delegates_ensureTool hdry _ _).bind fun _ => (quiet_pure _).delegates
  · exact (delegates_cloneSource hdry _).bind fun _ => (quiet_pure _).delegates

theorem step_link : p.step .link =
    Toolchain.linkDefault p.layout Rules.defaultGoVersion false >>= fun _ => pure () := by
  have hrunner : p.runner.dryRun = false := hdry
  rw [← hrunner]
  rfl

/-- **The link**: what is in its place is removed if it can be, and then the link is made or the
step fails. -/
theorem link_cases (m : Machine) :
    ∃ r m', (p.step .link).perform m = (r, m') ∧ m'.launches = m.launches ∧
      ((r = .ok () ∧
          (m.files.cleared p.layout.goLink.toString).symlink
            (p.layout.goDir Rules.defaultGoVersion).toString p.layout.goLink.toString =
              .ok m'.files) ∨
        ((∃ e, r = .error e) ∧ m'.files = m.files.cleared p.layout.goLink.toString ∧
          (m.files.unlink p.layout.goLink.toString = .error .embeddedNull ∨
            ∃ refusal, m'.files.symlink (p.layout.goDir Rules.defaultGoVersion).toString
              p.layout.goLink.toString = .error refusal))) := by
  obtain ⟨r, m', hperform, hlaunches, hcases⟩ :=
    Toolchain.linkDefault_cases p.layout Rules.defaultGoVersion m
  refine ⟨r.map fun _ => (), m', by rw [step_link hdry, perform_bind_pure, hperform], hlaunches, ?_⟩
  rcases hcases with ⟨rfl, hsymlink⟩ | ⟨⟨e, rfl⟩, hcleared⟩
  · exact Or.inl ⟨rfl, hsymlink⟩
  · exact Or.inr ⟨⟨e, rfl⟩, hcleared⟩

/-- **The directory of the repositories**: it is made if it is not found. -/
theorem base_cases (m : Machine) :
    ∃ r m', (p.step .base).perform m = (r, m') ∧ m'.launches = m.launches ∧
      (m'.files = m.files ∨ (m.files.found p.layout.baseRepoPath.toString = .ok false ∧
        m'.files = (m.files.ensureDirectories p.layout.baseRepoPath).1)) := by
  have hbase : p.step .base =
      Repository.ensureBase p.layout false >>= fun _ => pure () := by
    rw [← hdry]
    rfl
  rw [hbase, perform_bind_pure, Repository.ensureBase]
  dsimp only
  rw [perform_bind, perform_found]
  cases hfound : m.files.found p.layout.baseRepoPath.toString with
  | error refusal =>
      dsimp only
      rw [perform_refused]
      exact ⟨_, m, rfl, rfl, Or.inl rfl⟩
  | ok there =>
      cases there with
      | true =>
          -- it is only looked at once more
          dsimp only
          rw [if_pos rfl, perform_bind_ok (perform_files m)]
          cases hlook : m.files.isDirectory p.layout.baseRepoPath.toString with
          | error refusal =>
              dsimp only
              rw [perform_refused]
              exact ⟨_, m, rfl, rfl, Or.inl rfl⟩
          | ok isDirectory =>
              cases isDirectory with
              | true => exact ⟨_, _, rfl, rfl, Or.inl rfl⟩
              | false => exact ⟨_, _, rfl, rfl, Or.inl rfl⟩
      | false =>
          dsimp only
          rw [if_neg (by decide), if_neg (by decide), perform_bind_ok (perform_files m),
            perform_bind_ok (perform_setFiles _ m)]
          split
          · rw [perform_refused]
            exact ⟨_, _, rfl, rfl, Or.inr ⟨rfl, rfl⟩⟩
          · exact ⟨_, _, rfl, rfl, Or.inr ⟨rfl, rfl⟩⟩

/-- **A fork**: if it is found then its lock is removed behind its command, and otherwise it is left to
its commands. -/
theorem fork_cases (name : String) (m : Machine) :
    ∃ r m' new fs, (p.step (.fork name)).perform m = (r, m') ∧
      m'.launches = m.launches ++ new ∧ Launch.Chain m.files new fs ∧
      (m'.files = fs ∨ (m.sees (p.layout.repoDir name) = true ∧ new ≠ [] ∧
        m'.files = fs.cleared (Git.indexLock (p.layout.repoDir name)).toString)) := by
  have hrunner : p.runner.dryRun = false := hdry
  have hrun := @Runner.delegates_run p.runner hdry
  have hfork : (p.step (.fork name)).perform m =
      (Repository.cloneFork p.config p.layout p.runner name p.environment >>= fun _ =>
        pure ()).perform m := rfl
  rw [hfork, perform_bind_pure, Repository.cloneFork]
  dsimp only
  rw [perform_bind, perform_found]
  cases hfound : m.files.found (p.layout.repoDir name).toString with
  | error refusal =>
      dsimp only
      rw [perform_refused]
      exact ⟨_, m, [], m.files, rfl, by simp, rfl, Or.inl rfl⟩
  | ok there =>
      cases there with
      | true =>
          have hsees : m.sees (p.layout.repoDir name) = true := by
            rw [Machine.sees, hfound]
          dsimp only
          rw [if_pos rfl, hrunner, ← bind_assoc]
          generalize hs : (info _ >>= fun _ => Git.setRemoteUrl p.runner _ _) = s
          -- the command is launched on the files as they are, with one record more in the log
          obtain ⟨l, m₁, hset, hlaunches, hbefore, hafter⟩ : ∃ l m₁, s.perform m = (l.result, m₁) ∧
              m₁.launches = m.launches ++ [l] ∧ l.before = m.files ∧ m₁.files = l.after := by
            obtain ⟨records, hperform⟩ := @Runner.perform_run p.runner hdry
              ["git", "remote", "set-url", "origin", p.config.address p.config.targetOrg
                name] (some (p.layout.repoDir name))
              { m with log := m.log ++ [⟨.info, "Fork repository " ++ Text.quoted name ++
                " already cloned to " ++ (p.layout.repoDir name).toString ++
                ", resetting remote URL ..."⟩] }
            refine ⟨_, _, Eq.trans ?_ hperform, rfl, rfl, rfl⟩
            rw [← hs, perform_bind_ok (perform_info _ m)]
            rfl
          have hchain : Launch.Chain m.files [l] m₁.files := ⟨hbefore, hafter⟩
          cases hresult : l.result with
          -- the command has failed, and the lock stays
          | error e =>
              rw [hresult] at hset
              rw [perform_bind_error hset]
              exact ⟨_, m₁, [l], m₁.files, rfl, hlaunches, hchain, Or.inl rfl⟩
          | ok u =>
              rw [hresult] at hset
              rw [perform_bind_ok hset]
              obtain ⟨r, records, hlock⟩ := Git.perform_removeIndexLock (p.layout.repoDir name) m₁
              simp only [Bool.false_eq_true, if_false]
              rw [perform_bind, hlock]
              have hnew : [l] ≠ [] := List.cons_ne_nil l []
              cases r with
              | error e =>
                  exact ⟨_, _, [l], m₁.files, rfl, hlaunches, hchain, Or.inr ⟨hsees, hnew, rfl⟩⟩
              | ok u =>
                  exact ⟨_, _, [l], m₁.files, rfl, hlaunches, hchain, Or.inr ⟨hsees, hnew, rfl⟩⟩
      | false =>
          dsimp only
          rw [if_neg (by decide)]
          generalize hs : (info _ >>= fun _ => Git.clone p.runner _ none >>= _) = s
          have hdelegates : s.Delegates := by
            rw [← hs]
            exact (quiet_info _).delegates.bind fun _ => (hrun _ _).bind fun _ => (hrun _ _).bind
              fun _ => (hrun _ _).bind fun _ => (quiet_pure _).delegates
          obtain ⟨new, hlaunches, hchain⟩ := hdelegates m
          exact ⟨_, _, new, _, rfl, hlaunches, hchain, Or.inl rfl⟩

/-- **Tools and repositories are left to their commands**, but for the lock of a fork. -/
theorem work_cases {t : Task} (ht : t ∈ p.tools ++ ([.source] ++ p.forks)) (m : Machine) :
    ∃ new fs, ((p.step t).perform m).2.launches = m.launches ++ new ∧
      Launch.Chain m.files new fs ∧
      (((p.step t).perform m).2.files = fs ∨
        ∃ name ∈ Rules.destinations p.rules, ((p.step t).perform m).2.files =
          fs.cleared (Git.indexLock (p.layout.repoDir name)).toString) := by
  by_cases hfork : t ∈ p.forks
  · obtain ⟨name, hname, rfl⟩ := List.mem_map.1 hfork
    obtain ⟨r, m', new, fs, hstep, hnew, hchain, hcases⟩ := fork_cases hdry name m
    rw [hstep]
    exact ⟨new, fs, hnew, hchain, hcases.imp id fun h => ⟨name, hname, h.2.2⟩⟩
  · have hothers : t ∈ p.tools ++ [.source] := by
      rw [← List.append_assoc] at ht
      exact (List.mem_append.1 ht).resolve_right hfork
    obtain ⟨new, hnew, hchain⟩ := delegates_step hdry hothers m
    exact ⟨new, _, hnew, hchain, Or.inl rfl⟩

end Bootstrap.Plan

end Provision
