/-
**Tasks and their launches.**

Tasks are performed one after the other until one of them fails.  What they leave, and what they
launch, is put together here from the single tasks, so that what is known of the launches of all
tasks can be used for each of them when its turn comes.

Main definition:

* `Provision.Bootstrap.Plan.after` — the machine after some tasks.

Main results:

* `Provision.Bootstrap.Plan.isDownload_of_launched` — only a distribution is downloaded;
* `Provision.Bootstrap.Plan.mem_launched_cons`, `Provision.Bootstrap.Plan.mem_launched_append` — the
  launches of some tasks are launches of all;
* `Provision.Bootstrap.Plan.after_induction` — what each task keeps, all tasks keep;
* `Provision.Bootstrap.launchesOf_of_plan` — the launches of a run.
-/

import Provision.Proofs.Effects

set_option relaxedAutoImplicit false
set_option autoImplicit false

namespace Provision

open Step

namespace Bootstrap

namespace Plan

variable {p : Plan} {m m₁ : Machine} {t : Task}

/-- The machine after some tasks, or after the first of them that has failed. -/
def after (p : Plan) (ts : List Task) (m : Machine) : Machine := ((forM ts p.step).perform m).2

theorem after_cons_error {ts : List Task} {e : Failure}
    (h : (p.step t).perform m = (.error e, m₁)) : p.after (t :: ts) m = m₁ := by
  rw [after, List.forM_cons, perform_bind_error h]

theorem after_cons_ok {ts : List Task} {u : Unit} (h : (p.step t).perform m = (.ok u, m₁)) :
    p.after (t :: ts) m = p.after ts m₁ := by
  rw [after, List.forM_cons, perform_bind_ok h, after]

theorem after_append_error {ts : List Task} {e : Failure}
    (h : (forM ts p.step).perform m = (.error e, m₁)) (us : List Task) :
    p.after (ts ++ us) m = m₁ := by
  rw [after, List.forM_append, perform_bind_error h]

theorem after_append_ok {ts : List Task} {u : Unit}
    (h : (forM ts p.step).perform m = (.ok u, m₁)) (us : List Task) :
    p.after (ts ++ us) m = p.after us m₁ := by
  rw [after, List.forM_append, perform_bind_ok h, after]

theorem forM_append_ok {ts us : List Task} {m₂ : Machine} {u v : Unit}
    (h : (forM ts p.step).perform m = (.ok u, m₁)) (h' : (forM us p.step).perform m₁ = (.ok v, m₂)) :
    (forM (ts ++ us) p.step).perform m = (.ok v, m₂) := by
  rw [List.forM_append, perform_bind_ok h, h']

theorem after_singleton (p : Plan) (t : Task) (m : Machine) :
    p.after [t] m = ((p.step t).perform m).2 := by
  rcases h : (p.step t).perform m with ⟨e | u, m₁⟩
  · exact after_cons_error h
  · exact after_cons_ok h

/-- A distribution is installed, and its status is dropped. -/
theorem perform_toolchain (p : Plan) (version : String) (m : Machine) :
    (p.step (.toolchain version)).perform m =
      ((((Toolchain.install version p.layout p.runner).perform m).1.map fun _ => ()),
        ((Toolchain.install version p.layout p.runner).perform m).2) :=
  perform_bind_pure _ _ m

/-! ### The commands of a task -/

/-- No task but the distributions downloads anything. -/
theorem isDownload_of_block {wanted : List Command} (ht : ∀ version, t ≠ .toolchain version)
    (h : p.Block m t wanted) : ∀ c ∈ wanted, c.isDownload = false := by
  cases t with
  | toolchain version => exact absurd rfl (ht version)
  | link =>
      obtain rfl : wanted = [] := h
      simp
  | base =>
      obtain rfl : wanted = [] := h
      simp
  | tool tool skip =>
      obtain rfl : wanted = if skip || m.findExecutable tool.name then [] else
        tool.commands p.layout := h
      split <;> simp [Tool.commands, Command.isDownload, List.isPrefixOf]
  | source =>
      obtain rfl : wanted = if m.sees (p.layout.repoDir p.config.sourceRepo) then [] else
        p.sourceCommands := h
      split
      · simp
      · rw [sourceCommands]
        split <;> simp [Command.isDownload, List.isPrefixOf]
  | fork name =>
      obtain rfl : wanted = if m.sees (p.layout.repoDir name) then p.refreshCommands name else
        p.forkCommands name := h
      split <;> simp [refreshCommands, forkCommands, Command.isDownload, List.isPrefixOf]

section

variable (hdry : p.arguments.dryRun = false)
include hdry

/-- The launches of a task are those between the two machines. -/
theorem launches_step (t : Task) (m : Machine) :
    ((p.step t).perform m).2.launches = m.launches ++ (p.step t).launched m := by
  obtain ⟨wanted, -, new, hnew⟩ := follows_step hdry t m
  rw [launched_eq hnew.continues.launches, hnew.continues.launches]

/-- No task but the distributions launches a download. -/
theorem isDownload_of_launched (ht : ∀ version, t ≠ .toolchain version) :
    ∀ l ∈ (p.step t).launched m, l.command.isDownload = false := by
  intro l hmem
  obtain ⟨wanted, hblock, new, hnew⟩ := follows_step hdry t m
  rw [launched_eq hnew.continues.launches] at hmem
  exact isDownload_of_block ht hblock _ (hnew.commands.subset (List.mem_map_of_mem hmem))

theorem launches_forM (ts : List Task) (m : Machine) :
    ((forM ts p.step).perform m).2.launches = m.launches ++ (forM ts p.step).launched m := by
  obtain ⟨wanted, -, new, hnew⟩ := follows_tasks hdry ts m
  rw [launched_eq hnew.continues.launches, hnew.continues.launches]

/-- The launches of one task, and of those behind it, are launches of all. -/
theorem mem_launched_cons {ts : List Task} {l : Launch}
    (h : l ∈ (p.step t).launched m ∨
      ∃ m₁, (p.step t).perform m = (.ok (), m₁) ∧ l ∈ (forM ts p.step).launched m₁) :
    l ∈ (forM (t :: ts) p.step).launched m := by
  rw [List.forM_cons]
  refine mem_launched_bind (launches_step hdry t m)
    (fun _ m₁ _ => ⟨_, launches_forM hdry ts m₁⟩) (h.imp id ?_)
  rintro ⟨m₁, hstep, hl⟩
  exact ⟨(), m₁, hstep, hl⟩

/-- **What each of the tasks keeps is kept by all of them**, if it asks for no more than that every
launch of theirs is good. -/
theorem after_induction {motive : Machine → Prop} {good : Launch → Prop} {ts : List Task}
    (hstep : ∀ t ∈ ts, ∀ m, motive m → (∀ l ∈ (p.step t).launched m, good l) →
      motive ((p.step t).perform m).2)
    (h : motive m) (hl : ∀ l ∈ (forM ts p.step).launched m, good l) : motive (p.after ts m) := by
  induction ts generalizing m with
  | nil => exact h
  | cons t ts ih =>
      have hfirst := hstep t (by simp) m h fun l hmem => hl l (mem_launched_cons hdry (Or.inl hmem))
      rcases hperform : (p.step t).perform m with ⟨e | u, m₁⟩
      · rw [hperform] at hfirst
        rwa [after_cons_error hperform]
      · rw [hperform] at hfirst
        rw [after_cons_ok hperform]
        exact ih (fun t' ht' => hstep t' (by simp [ht'])) hfirst
          fun l hmem => hl l (mem_launched_cons hdry (Or.inr ⟨m₁, hperform, hmem⟩))

theorem mem_launched_append {ts us : List Task} {l : Launch}
    (h : l ∈ (forM ts p.step).launched m ∨
      ∃ m₁, (forM ts p.step).perform m = (.ok (), m₁) ∧ l ∈ (forM us p.step).launched m₁) :
    l ∈ (forM (ts ++ us) p.step).launched m := by
  rw [List.forM_append]
  refine mem_launched_bind (launches_forM hdry ts m)
    (fun _ m₁ _ => ⟨_, launches_forM hdry us m₁⟩) (h.imp id ?_)
  rintro ⟨m₁, hdone, hl⟩
  exact ⟨(), m₁, hdone, hl⟩

end

end Plan

/-- The launches of a run with a plan are those of its tasks. -/
theorem launchesOf_of_plan {words : List String} {a : Arguments}
    (hread : Arguments.read words = .run a) {m m₁ : Machine} {p : Plan}
    (hplan : (prepare a).perform { m with log := [] } = (.ok p, m₁)) :
    launchesOf words m = (forM p.tasks p.step).launched m₁ := by
  obtain ⟨records, hrun⟩ := (run_of_plan hread hplan).1
  obtain ⟨_, rfl⟩ := machine_of_prepare hplan
  rw [launchesOf, hrun, launched]

end Bootstrap

end Provision
