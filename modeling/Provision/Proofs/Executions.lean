/-
**Commands and nothing else.**

What builds a tool or clones a repository that is missing does its work by commands alone: between
one command and the next it changes no file, and it fails only if one of them fails.  What is in the
files behind it has therefore been brought there by one of its commands.

Main definitions:

* `Provision.Launch.Chain` — **the files from launch to launch**;
* `Provision.Step.Executes` — a step that launches some commands and does nothing else;
* `Provision.Bootstrap.Plan.finds`, `Provision.Bootstrap.Plan.commands` — what a task looks for, and
  the commands that set it up.

Main results:

* `Provision.Step.Executes.bind` — two steps execute the commands of the first and then those of the
  second;
* `Provision.Bootstrap.Plan.executes_step` — **a task that does not find its thing executes its
  commands**.
-/

import Provision.Proofs.Tasks

set_option relaxedAutoImplicit false
set_option autoImplicit false

namespace Provision

/-! ### From launch to launch -/

namespace Launch

/-- **The files from launch to launch**: the first launch starts on the files `fs`, each other one on
those that the one before has left, and the last one leaves `fs'`. -/
def Chain : FileSystem → List Launch → FileSystem → Prop
  | fs, [], fs' => fs' = fs
  | fs, l :: ls, fs' => l.before = fs ∧ Chain l.after ls fs'

variable {fs fs' fs'' : FileSystem} {ls ls' : List Launch}

theorem Chain.append (h : Chain fs ls fs') (h' : Chain fs' ls' fs'') : Chain fs (ls ++ ls') fs'' := by
  induction ls generalizing fs with
  | nil =>
      obtain rfl : fs' = fs := h
      exact h'
  | cons l ls ih => exact ⟨h.1, ih h.2⟩

end Launch

/-! ### Steps that execute commands -/

namespace Step

variable {α β : Type} {m : Machine} {wanted wanted₁ wanted₂ : List Command}

/-- **Performed on `m`, the step executes the commands `wanted` and does nothing else**: it carries
them out, files change by its launches only, and it fails only with one of them. -/
def Executes (s : Step α) (m : Machine) (wanted : List Command) : Prop :=
  ∃ new, m.CarriesOut wanted new (s.perform m).1 (s.perform m).2 ∧
    Launch.Chain m.files new (s.perform m).2.files ∧
    ∀ e, (s.perform m).1 = .error e → ∃ l ∈ new, l.failure? = some e

/-- What a step executes depends on what it does on this machine only. -/
theorem Executes.of_perform_eq {s s' : Step α} (hs : s.Executes m wanted)
    (h : s'.perform m = s.perform m) : s'.Executes m wanted := by
  rw [Executes, h]
  exact hs

/-- A quiet step that answers executes no command. -/
theorem Quiet.executes {s : Step α} (hs : s.Quiet) {a : α} (h : (s.perform m).1 = .ok a) :
    s.Executes m [] := by
  obtain ⟨records, hm⟩ := hs m
  refine ⟨[], ⟨hs.silent m, by simp, by simp, by simp, by simp⟩, ?_, ?_⟩
  · rw [hm]
    rfl
  · intro e he
    rw [h] at he
    simp at he

/-- **Two steps execute the commands of the first and then those of the second.** -/
theorem Executes.bind {s : Step α} {f : α → Step β} (hs : s.Executes m wanted₁)
    (hf : ∀ a m₁, s.perform m = (.ok a, m₁) → (f a).Executes m₁ wanted₂) :
    (s >>= f).Executes m (wanted₁ ++ wanted₂) := by
  obtain ⟨new₁, h₁, hchain₁, hfails₁⟩ := hs
  rcases h : s.perform m with ⟨e | a, m₁⟩
  · rw [h] at h₁ hchain₁ hfails₁
    refine ⟨new₁, ?_⟩
    rw [perform_bind_error h]
    exact ⟨h₁.of_error wanted₂, hchain₁, by simpa using hfails₁⟩
  · rw [h] at h₁ hchain₁
    obtain ⟨new₂, h₂, hchain₂, hfails₂⟩ := hf a m₁ h
    refine ⟨new₁ ++ new₂, ?_⟩
    rw [perform_bind_ok h]
    refine ⟨h₁.trans h₂, hchain₁.append hchain₂, fun e he => ?_⟩
    obtain ⟨l, hl, hfail⟩ := hfails₂ e he
    exact ⟨l, by simp [hl], hfail⟩

/-- A quiet step in front that answers does not count. -/
theorem Quiet.executes_bind {s : Step α} {f : α → Step β} (hs : s.Quiet) {a : α}
    (h : (s.perform m).1 = .ok a)
    (hf : ∀ a m₁, s.perform m = (.ok a, m₁) → (f a).Executes m₁ wanted) :
    (s >>= f).Executes m wanted :=
  (hs.executes h).bind hf

/-- An answer that is only converted does not count. -/
theorem Executes.bind_pure {s : Step α} (hs : s.Executes m wanted) (f : α → β) :
    (s >>= fun a => pure (f a)).Executes m wanted := by
  have h : (s >>= fun a => pure (f a)).Executes m (wanted ++ []) :=
    hs.bind fun a m₁ _ => (quiet_pure (f a)).executes rfl
  rwa [List.append_nil] at h

end Step

/-- **The runner executes its command.** -/
theorem Runner.executes_run {runner : Runner} (hdry : runner.dryRun = false) (argv : List String)
    (directory : Option Path) (m : Machine)
    (hc : (⟨argv, directory.getD runner.directory⟩ : Command).isDownload = false) :
    (runner.run argv directory).Executes m [⟨argv, directory.getD runner.directory⟩] := by
  obtain ⟨records, hrun⟩ := perform_run hdry argv directory m
  obtain ⟨new, hnew⟩ := follows_run hdry argv directory m hc
  rw [Step.Executes]
  rw [hrun] at hnew ⊢
  generalize (⟨argv, directory.getD runner.directory⟩ : Command) = c at hnew ⊢
  -- the launches that are followed are those that the runner adds
  obtain rfl : [m.launched c] = new := by
    have hlaunches := hnew.continues.launches
    exact List.append_cancel_left hlaunches
  refine ⟨_, hnew, ⟨rfl, rfl⟩, fun e he => ⟨m.launched c, by simp, ?_⟩⟩
  unfold Launch.result at he
  split at he
  · simp at he
  · next f hf => rw [hf]; simpa using he

theorem Step.found_of_not_sees {path : Path} {m : Machine} (h : m.sees path = false) :
    (found path).perform m = (.ok false, m) ∨ ∃ e, (found path).perform m = (.error e, m) := by
  unfold Machine.sees at h
  rw [found, perform_bind_ok (perform_files m)]
  cases hfound : m.files.found path.toString with
  | ok there =>
      rw [hfound] at h
      obtain rfl : there = false := h
      exact Or.inl rfl
  | error r => exact Or.inr ⟨_, perform_refused r _ m⟩

/-! ### Tasks that execute commands -/

namespace Bootstrap.Plan

/-- Whether a tool or a repository is there, as its task looks for it. -/
def finds (p : Plan) (m : Machine) : Task → Bool
  | .tool tool _ => m.findExecutable tool.name
  | .source => m.sees (p.layout.repoDir p.config.sourceRepo)
  | .fork name => m.sees (p.layout.repoDir name)
  | .toolchain _ | .link | .base => false

/-- The commands that set up a tool or a repository that is missing. -/
def commands (p : Plan) : Task → List Command
  | .tool tool skip => if skip then [] else tool.commands p.layout
  | .source => p.sourceCommands
  | .fork name => p.forkCommands name
  | .toolchain _ | .link | .base => []

section

open Step

variable {p : Plan} (hdry : p.arguments.dryRun = false) {m : Machine}
include hdry

theorem executes_ensureTool {tool : Tool} (hmissing : m.findExecutable tool.name = false) :
    (ensureTool p.layout p.runner tool false).Executes m (tool.commands p.layout) := by
  have hrun := @Runner.executes_run p.runner hdry
  refine Executes.bind_pure ?_ _
  refine quiet_get.executes_bind rfl fun m₁ m₂ h => ?_
  obtain ⟨rfl, rfl⟩ : m = m₁ ∧ m = m₂ := by simpa using h
  rw [hmissing]
  refine (quiet_info _).executes_bind rfl fun _ m₁ _ => ?_
  refine (hrun _ none m₁ rfl).bind fun _ m₂ _ => ?_
  refine (hrun _ (some _) m₂ rfl).bind fun _ m₃ _ => ?_
  exact (hrun _ (some _) m₃ rfl).bind_pure _

theorem executes_cloneSource
    (hmissing : (found (p.layout.repoDir p.config.sourceRepo)).perform m = (.ok false, m)) :
    (Repository.cloneSource p.config p.layout p.runner p.arguments.skipGodep).Executes m
      p.sourceCommands := by
  have hrun := @Runner.executes_run p.runner hdry
  refine Executes.of_perform_eq ?_ (perform_bind_ok hmissing)
  refine (quiet_info _).executes_bind rfl fun _ m₁ _ => ?_
  refine (hrun _ none m₁ rfl).bind fun _ m₂ _ => ?_
  cases p.arguments.skipGodep with
  | false => exact (quiet_pure _).executes rfl
  | true =>
      refine (quiet_info _).executes_bind rfl fun _ m₃ _ => ?_
      exact (hrun _ (some _) m₃ rfl).bind_pure _

theorem executes_cloneFork {name : String}
    (hmissing : (found (p.layout.repoDir name)).perform m = (.ok false, m)) :
    (Repository.cloneFork p.config p.layout p.runner name p.environment).Executes m
      (p.forkCommands name) := by
  have hrun := @Runner.executes_run p.runner hdry
  refine Executes.of_perform_eq ?_ (perform_bind_ok hmissing)
  refine (quiet_info _).executes_bind rfl fun _ m₁ _ => ?_
  refine (hrun _ none m₁ rfl).bind fun _ m₂ _ => ?_
  refine (hrun _ (some _) m₂ rfl).bind fun _ m₃ _ => ?_
  exact (hrun _ (some _) m₃ rfl).bind_pure _

/-- **A task that does not find its thing executes its commands**, unless it fails at once because
it cannot even look. -/
theorem executes_step {t : Task} (ht : p.commands t ≠ []) (hmissing : p.finds m t = false) :
    (p.step t).Executes m (p.commands t) ∨ ∃ e, (p.step t).perform m = (.error e, m) := by
  cases t with
  | toolchain version => exact absurd rfl ht
  | link => exact absurd rfl ht
  | base => exact absurd rfl ht
  | tool tool skip =>
      cases skip with
      | true => exact absurd rfl ht
      | false => exact Or.inl ((executes_ensureTool hdry hmissing).bind_pure _)
  | source =>
      rcases found_of_not_sees hmissing with hfalse | ⟨e, herror⟩
      · exact Or.inl ((executes_cloneSource hdry hfalse).bind_pure _)
      · exact Or.inr ⟨e, perform_bind_error (perform_bind_error herror)⟩
  | fork name =>
      rcases found_of_not_sees hmissing with hfalse | ⟨e, herror⟩
      · exact Or.inl ((executes_cloneFork hdry hfalse).bind_pure _)
      · exact Or.inr ⟨e, perform_bind_error (perform_bind_error herror)⟩

end

end Bootstrap.Plan

end Provision
