/-
**How commands are carried out.**

A step wants to launch some commands, one after the other.  It follows them if it launches them in
this order and no others; it may stop early, but then it does not answer.  A launch that fails is
the last one: the step fails with what it stands for, and only a staging directory is still
removed.  All of this passes from the parts of a step to the whole, so it need only be seen of the
runner and of the one place that cleans up behind itself.

Main definitions:

* `Provision.Config.address` — the address of a repository, spelled out;
* `Provision.Launch.failure?` — the failure that a launch stands for;
* `Provision.Command.isDownload`, `Provision.Launch.settled`, `Provision.Launch.Staged` — downloads,
  what they leave, and the directories that they are launched in;
* `Provision.Machine.CarriesOut` — **the wanted commands have been carried out**, all of them or up
  to a failure;
* `Provision.Step.Follows` — a step that carries out the commands that it wants.

Main results:

* `Provision.Step.Follows.bind` — two steps follow the commands of the first and then those of the
  second;
* `Provision.Runner.follows_run` — the runner follows its command.
-/

import Provision.Proofs.Step
import Provision.Runner

set_option relaxedAutoImplicit false
set_option autoImplicit false

namespace Provision

/-- **The address of a repository of an organisation**, as it stands in the commands for it. -/
def Config.address (c : Config) (organisation name : String) : String :=
  "https://" ++ c.githubHost ++ "/" ++ organisation ++ "/" ++ name

/-! ### Launches -/

/-- Whether a command downloads a distribution into a staging directory. -/
def Command.isDownload (c : Command) : Bool := ["/bin/bash", "-c"].isPrefixOf c.argv

namespace Launch

/-- **The failure that a launch stands for**, if it does not go well. -/
def failure? (l : Launch) : Option Failure :=
  match l.ending with
  | .exited code => if code = 0 then none else some (.command ⟨l.command.argv, .exitCode code⟩)
  | .interrupted => some .interrupted
  | .notStarted cause =>
      match cause.systemError? with
      | some e => some (.command ⟨l.command.argv, .notStarted e⟩)
      | none => some .embeddedNull

/-- A launch goes well exactly if the command exits with zero. -/
theorem failure?_eq_none_iff {l : Launch} : l.failure? = none ↔ l.ending = .exited 0 := by
  unfold failure?
  cases l.ending with
  | exited code => by_cases h : code = 0 <;> simp [h]
  | interrupted => simp
  | notStarted cause => cases h : cause.systemError? <;> simp [h]

/-- What a failure tells about the launch. -/
theorem failure?_cases {l : Launch} {f : Failure} (h : l.failure? = some f) :
    (∃ code, l.ending = .exited code ∧ f = .command ⟨l.command.argv, .exitCode code⟩) ∨
      (l.ending = .interrupted ∧ f = .interrupted) ∨
      (∃ cause e, l.ending = .notStarted cause ∧ cause.systemError? = some e ∧
        f = .command ⟨l.command.argv, .notStarted e⟩) ∨
      (∃ cause, l.ending = .notStarted cause ∧ cause.systemError? = none ∧ f = .embeddedNull) := by
  unfold failure? at h
  cases hending : l.ending with
  | exited code =>
      by_cases hcode : code = 0
      · simp [hending, hcode] at h
      · exact Or.inl ⟨code, rfl, by simpa [hending, hcode] using h.symm⟩
  | interrupted =>
      exact Or.inr (Or.inl ⟨rfl, by simpa [hending] using h.symm⟩)
  | notStarted cause =>
      right
      right
      cases hcause : cause.systemError? with
      | some e => exact Or.inl ⟨cause, e, rfl, hcause, by simpa [hending, hcause] using h.symm⟩
      | none => exact Or.inr ⟨cause, rfl, hcause, by simpa [hending, hcause] using h.symm⟩

/-- How running a command ends, by its launch. -/
def result (l : Launch) : Except Failure Unit :=
  match l.failure? with
  | none => .ok ()
  | some f => .error f

theorem result_of_failure {l : Launch} {f : Failure} (h : l.failure? = some f) :
    l.result = .error f := by
  rw [result, h]

/-- A failed command is reported with its words. -/
theorem argv_of_result {l : Launch} {e : CommandError} (h : l.result = .error (.command e)) :
    e.argv = l.command.argv := by
  unfold result at h
  split at h
  · simp at h
  · next f hf =>
    obtain rfl : f = .command e := by simpa using h
    rcases failure?_cases hf with ⟨code, -, h⟩ | ⟨-, h⟩ | ⟨cause, e', -, -, h⟩ | ⟨cause, -, -, h⟩
    · rw [Failure.command.inj h]
    · simp at h
    · rw [Failure.command.inj h]
    · simp at h

/-- The files once a launch is over and done with: a staging directory is removed. -/
def settled (l : Launch) : FileSystem :=
  if l.command.isDownload then l.after.removeTree l.command.directory.toString else l.after

/-- The directory that a command was launched in was made just before, and nothing was there. -/
def Staged (l : Launch) : Prop :=
  ∃ (fs : FileSystem) (text : String),
    Path.ofString text = l.command.directory ∧ fs.makeDirectory text = .ok l.before

end Launch

/-- The launch that a command comes to on a machine. -/
def Machine.launched (m : Machine) (c : Command) : Launch :=
  ⟨c, (m.behaviour m.launches c m.files).1, m.files, (m.behaviour m.launches c m.files).2⟩

@[simp] theorem Machine.launched_command (m : Machine) (c : Command) :
    (m.launched c).command = c := rfl

@[simp] theorem Machine.launched_before (m : Machine) (c : Command) :
    (m.launched c).before = m.files := rfl

/-! ### Carrying out commands -/

/-- **`m` carries out the commands `wanted`** by the launches `new` and becomes `m'`; `result` is the
answer or the failure of the step that does so. -/
structure Machine.CarriesOut {α : Type} (m : Machine) (wanted : List Command) (new : List Launch)
    (result : Except Failure α) (m' : Machine) : Prop where
  /-- The launches are those between the two states. -/
  continues : m.Continues new m'
  /-- No other command is launched, and none in another order. -/
  commands : new.map (·.command) <+: wanted
  /-- A step that answers has launched all commands. -/
  complete : ∀ a, result = .ok a → new.map (·.command) = wanted
  /-- A launch that fails is the last one, and the step fails with it. -/
  stops : ∀ earlier l later f, new = earlier ++ l :: later → l.failure? = some f →
    later = [] ∧ result = .error f ∧ m'.files = l.settled
  /-- A download is launched in a directory that was made for it. -/
  staged : ∀ l ∈ new, l.command.isDownload = true → l.Staged

namespace Machine.CarriesOut

variable {α β : Type} {m m₁ m₂ : Machine} {wanted₁ wanted₂ : List Command}
  {new₁ new₂ : List Launch}

/-- A failure while some commands are carried out leaves the commands behind them out. -/
theorem of_error {e : Failure} (h : m.CarriesOut wanted₁ new₁ (.error e : Except Failure α) m₁)
    (wanted₂ : List Command) :
    m.CarriesOut (wanted₁ ++ wanted₂) new₁ (.error e : Except Failure β) m₁ where
  continues := h.continues
  commands := h.commands.trans (List.prefix_append _ _)
  complete := nofun
  stops := by
    intro earlier l later f hnew hf
    obtain ⟨hlater, he, hfiles⟩ := h.stops earlier l later f hnew hf
    cases he
    exact ⟨hlater, rfl, hfiles⟩
  staged := h.staged

/-- The launches of a step that answers have all exited zero. -/
theorem exited_of_ok {a : α} (h : m.CarriesOut wanted₁ new₁ (.ok a) m₁) :
    ∀ l ∈ new₁, l.ending = .exited 0 := by
  intro l hl
  cases hfail : l.failure? with
  | none => exact Launch.failure?_eq_none_iff.1 hfail
  | some f =>
      obtain ⟨earlier, later, hsplit⟩ := List.append_of_mem hl
      have := (h.stops earlier l later f hsplit hfail).2.1
      simp at this

/-- Commands that are carried out one after the other. -/
theorem trans {a : α} {r : Except Failure β}
    (h₁ : m.CarriesOut wanted₁ new₁ (.ok a : Except Failure α) m₁)
    (h₂ : m₁.CarriesOut wanted₂ new₂ r m₂) :
    m.CarriesOut (wanted₁ ++ wanted₂) (new₁ ++ new₂) r m₂ where
  continues := h₁.continues.trans h₂.continues
  commands := by
    rw [List.map_append, h₁.complete a rfl]
    exact (List.prefix_append_right_inj _).2 h₂.commands
  complete := by
    intro b hb
    rw [List.map_append, h₁.complete a rfl, h₂.complete b hb]
  stops := by
    intro earlier l later f hnew hf
    -- the first part has answered, so no launch of it has failed
    have hfirst : ∀ mid, new₁ ≠ earlier ++ l :: mid := by
      intro mid hmid
      have := (h₁.stops earlier l mid f hmid hf).2.1
      simp at this
    rcases List.append_eq_append_iff.1 hnew with ⟨mid, -, hmid⟩ | ⟨mid, hmid, htail⟩
    · exact h₂.stops mid l later f hmid hf
    · cases mid with
      | nil => exact h₂.stops [] l later f (by simpa using htail.symm) hf
      | cons k mid =>
          obtain ⟨rfl, -⟩ : l = k ∧ later = mid ++ new₂ := by simpa using htail
          exact absurd hmid (hfirst mid)
  staged := by
    intro l hl
    rcases List.mem_append.1 hl with hl | hl
    · exact h₁.staged l hl
    · exact h₂.staged l hl

end Machine.CarriesOut

/-! ### Steps that carry out what they want -/

namespace Step

variable {α β : Type} {m : Machine} {wanted wanted₁ wanted₂ : List Command}

/-- **Performed on `m`, the step carries out the commands `wanted`.** -/
def Follows (s : Step α) (m : Machine) (wanted : List Command) : Prop :=
  ∃ new, m.CarriesOut wanted new (s.perform m).1 (s.perform m).2

/-- What a step follows depends on what it does on this machine only. -/
theorem Follows.of_perform_eq {s s' : Step α} (hs : s.Follows m wanted)
    (h : s'.perform m = s.perform m) : s'.Follows m wanted := by
  rw [Follows, h]
  exact hs

/-- A silent step wants no command. -/
theorem Silent.follows {s : Step α} (h : s.Silent) (m : Machine) : s.Follows m [] :=
  ⟨[], h m, by simp, by simp, by simp, by simp⟩

/-- **Two steps follow the commands of the first and then those of the second.** -/
theorem Follows.bind {s : Step α} {f : α → Step β} (hs : s.Follows m wanted₁)
    (hf : ∀ a m₁, s.perform m = (.ok a, m₁) → (f a).Follows m₁ wanted₂) :
    (s >>= f).Follows m (wanted₁ ++ wanted₂) := by
  obtain ⟨new₁, h₁⟩ := hs
  rcases h : s.perform m with ⟨e | a, m₁⟩
  · rw [h] at h₁
    refine ⟨new₁, ?_⟩
    rw [perform_bind_error h]
    exact h₁.of_error wanted₂
  · rw [h] at h₁
    obtain ⟨new₂, h₂⟩ := hf a m₁ h
    refine ⟨new₁ ++ new₂, ?_⟩
    rw [perform_bind_ok h]
    exact h₁.trans h₂

/-- A silent step in front does not count. -/
theorem Silent.follows_bind {s : Step α} {f : α → Step β} (hs : s.Silent)
    (hf : ∀ a m₁, s.perform m = (.ok a, m₁) → (f a).Follows m₁ wanted) :
    (s >>= f).Follows m wanted :=
  (hs.follows m).bind hf

/-- Silent steps behind do not count. -/
theorem Follows.bind_silent {s : Step α} {f : α → Step β} (hs : s.Follows m wanted)
    (hf : ∀ a, (f a).Silent) : (s >>= f).Follows m wanted := by
  have h : (s >>= f).Follows m (wanted ++ []) := hs.bind fun a m₁ _ => (hf a).follows m₁
  rwa [List.append_nil] at h

/-- Whether a step follows its commands does not depend on its answer. -/
theorem follows_of_discard {s : Step α} (h : (s >>= fun _ => pure ()).Follows m wanted) :
    s.Follows m wanted := by
  obtain ⟨new, h⟩ := h
  refine ⟨new, ?_⟩
  rcases hs : s.perform m with ⟨e | a, m'⟩
  · rw [perform_bind_error hs] at h
    have h' : m.CarriesOut (wanted ++ []) new (.error e : Except Failure α) m' := h.of_error []
    rwa [List.append_nil] at h'
  · rw [perform_bind_ok hs, perform_pure] at h
    exact ⟨h.continues, h.commands, fun _ _ => h.complete () rfl,
      fun earlier l later f hnew hf => by simpa using (h.stops earlier l later f hnew hf).2.1,
      h.staged⟩

end Step

/-! ### The runner -/

namespace Step

@[simp] theorem perform_launch (c : Command) (m : Machine) :
    (launch c).perform m =
      (.ok (m.launched c).ending,
        { m with files := (m.launched c).after, launches := m.launches ++ [m.launched c] }) := rfl

end Step

/-- A machine on which a command has been launched, and some records have been written. -/
def Machine.afterLaunch (m : Machine) (c : Command) (records : List Log.Record) : Machine :=
  { m with
    log := m.log ++ records
    files := (m.launched c).after
    launches := m.launches ++ [m.launched c] }

theorem Machine.continues_afterLaunch (m : Machine) (c : Command) (records : List Log.Record) :
    m.Continues [m.launched c] (m.afterLaunch c records) where
  launches := rfl
  environment := rfl
  accounts := rfl
  behaviour := rfl
  answered := by
    intro earlier l later h
    obtain ⟨rfl, rfl, -⟩ : earlier = [] ∧ l = m.launched c ∧ later = [] := by
      simpa using List.singleton_eq_append_iff.1 h
    simp [launched]

namespace Runner

open Step

variable {runner : Runner} (hdry : runner.dryRun = false)
include hdry

/-- **Running a command**: it is launched on the files as they are, and the step ends with what the
launch stands for. -/
theorem perform_run_eq (argv : List String) (directory : Option Path) (m : Machine) :
    (runner.run argv directory).perform m =
      ((m.launched ⟨argv, directory.getD runner.directory⟩).result,
        m.afterLaunch ⟨argv, directory.getD runner.directory⟩
          [⟨.debug, "Running " ++ Text.quoted (Shell.join argv) ++ " in " ++
            (directory.getD runner.directory).toString⟩]) := by
  generalize hc : (⟨argv, directory.getD runner.directory⟩ : Command) = c
  have hstep : (runner.run argv directory).perform m =
      ((match (m.launched c).ending with
        | .exited code =>
            if code = 0 then return () else throw (.command ⟨argv, .exitCode code⟩)
        | .interrupted => throw .interrupted
        | .notStarted cause =>
            match cause.systemError? with
            | some e => throw (.command ⟨argv, .notStarted e⟩)
            | none => throw .embeddedNull) : Step Unit).perform
        (m.afterLaunch c [⟨.debug, "Running " ++ Text.quoted (Shell.join argv) ++ " in " ++
          (directory.getD runner.directory).toString⟩]) := by
    subst hc
    simp only [run, hdry, Bool.false_eq_true, if_false]
    rfl
  have hargv : (m.launched c).command.argv = argv := by rw [← hc]; rfl
  rw [hstep, Launch.result, Launch.failure?, hargv]
  cases (m.launched c).ending with
  | exited code => by_cases h : code = 0 <;> simp [h]
  | interrupted => rfl
  | notStarted cause => cases h : cause.systemError? <;> simp [h]

/-- What is written to the log beside does not matter to the launch. -/
theorem perform_run (argv : List String) (directory : Option Path) (m : Machine) :
    ∃ records,
      (runner.run argv directory).perform m =
        ((m.launched ⟨argv, directory.getD runner.directory⟩).result,
          m.afterLaunch ⟨argv, directory.getD runner.directory⟩ records) :=
  ⟨_, perform_run_eq hdry argv directory m⟩

/-- **The runner follows its command.** -/
theorem follows_run (argv : List String) (directory : Option Path) (m : Machine)
    (hc : (⟨argv, directory.getD runner.directory⟩ : Command).isDownload = false) :
    (runner.run argv directory).Follows m [⟨argv, directory.getD runner.directory⟩] := by
  obtain ⟨records, hrun⟩ := perform_run hdry argv directory m
  rw [Follows, hrun]
  generalize (⟨argv, directory.getD runner.directory⟩ : Command) = c at hc ⊢
  refine ⟨[m.launched c], m.continues_afterLaunch c records, by simp, by simp, ?_, ?_⟩
  · intro earlier l later f hnew hf
    obtain ⟨rfl, rfl, rfl⟩ : earlier = [] ∧ l = m.launched c ∧ later = [] := by
      simpa using List.singleton_eq_append_iff.1 hnew
    refine ⟨rfl, Launch.result_of_failure hf, ?_⟩
    simp [Launch.settled, hc, Machine.afterLaunch]
  · intro l hl hdownload
    rw [List.mem_singleton.1 hl, Machine.launched_command, hc] at hdownload
    simp at hdownload

end Runner

end Provision
