/-
**What steps leave alone.**

A step of the bootstrap is put together from elementary steps by binding one to the next.  What a
step leaves alone is read off its parts in the same way: here for three properties.  A *still* step
changes nothing, it only looks.  A *quiet* step changes nothing but the log.  A *silent* step
launches nothing; it may change the files.  None of them depends on how the step ends, so all of
them also say what a failed step has left behind; and so does what holds of all records that a step
writes.

Main definitions:

* `Provision.Machine.Continues` — a machine is a later state of another one, with the launches in
  between;
* `Provision.Step.Still` — nothing changes;
* `Provision.Step.Quiet` — nothing but the log changes;
* `Provision.Step.Silent` — nothing is launched;
* `Provision.Step.Writes` — what the records are like that are written.

Main results:

* `Provision.Step.perform_bind` — performing two steps, one after the other;
* `Provision.Step.Still.bind`, `Provision.Step.Quiet.bind`, `Provision.Step.Silent.bind`,
  `Provision.Step.Writes.bind` — the properties pass from parts to the whole;
* `Provision.Step.mapM_cases` — **a loop goes through, or stops at its first failure**.
-/

import Provision.Machine

set_option relaxedAutoImplicit false
set_option autoImplicit false

namespace Provision

/-! ### Later states of a machine -/

/-- **`m'` is a later state of `m`**, and `new` are the launches in between.  Environment, accounts
and behaviour are as they were, and every new launch went as the behaviour says. -/
structure Machine.Continues (m : Machine) (new : List Launch) (m' : Machine) : Prop where
  /-- The new launches stand behind the earlier ones. -/
  launches : m'.launches = m.launches ++ new
  environment : m'.environment = m.environment
  accounts : m'.accounts = m.accounts
  behaviour : m'.behaviour = m.behaviour
  /-- Each launch went as the behaviour says. -/
  answered : ∀ earlier l later, new = earlier ++ l :: later →
    m.behaviour (m.launches ++ earlier) l.command l.before = (l.ending, l.after)

namespace Machine.Continues

theorem refl (m : Machine) : m.Continues [] m where
  launches := by simp
  environment := rfl
  accounts := rfl
  behaviour := rfl
  answered := by simp

theorem trans {m₁ m₂ m₃ : Machine} {new₁ new₂ : List Launch} (h₁ : m₁.Continues new₁ m₂)
    (h₂ : m₂.Continues new₂ m₃) : m₁.Continues (new₁ ++ new₂) m₃ where
  launches := by rw [h₂.launches, h₁.launches, List.append_assoc]
  environment := h₂.environment.trans h₁.environment
  accounts := h₂.accounts.trans h₁.accounts
  behaviour := h₂.behaviour.trans h₁.behaviour
  answered := by
    intro earlier l later h
    -- the launch is one of the first or one of the second
    rcases List.append_eq_append_iff.1 h with ⟨mid, hearlier, hnew⟩ | ⟨mid, hnew, hlater⟩
    · have := h₂.answered mid l later hnew
      rw [h₁.behaviour, h₁.launches, List.append_assoc, ← hearlier] at this
      exact this
    · cases mid with
      | nil =>
          have := h₂.answered [] l later (by simpa using hlater.symm)
          rw [h₁.behaviour, h₁.launches] at this
          simpa [hnew] using this
      | cons k mid =>
          obtain ⟨rfl, rfl⟩ : l = k ∧ later = mid ++ new₂ := by simpa using hlater
          exact h₁.answered earlier l mid hnew

end Machine.Continues

namespace Step

variable {α β : Type}

/-! ### Performing -/

@[simp] theorem perform_pure (a : α) (m : Machine) : (pure a : Step α).perform m = (.ok a, m) := rfl

@[simp] theorem perform_throw (f : Failure) (m : Machine) :
    (throw f : Step α).perform m = (.error f, m) := rfl

@[simp] theorem perform_get (m : Machine) : (get : Step Machine).perform m = (.ok m, m) := rfl

@[simp] theorem perform_modify (f : Machine → Machine) (m : Machine) :
    (modify f : Step Unit).perform m = (.ok (), f m) := rfl

@[simp] theorem perform_files (m : Machine) : files.perform m = (.ok m.files, m) := rfl

@[simp] theorem perform_setFiles (fs : FileSystem) (m : Machine) :
    (setFiles fs).perform m = (.ok (), { m with files := fs }) := rfl

@[simp] theorem perform_log (level : Log.Level) (message : String) (m : Machine) :
    (log level message).perform m = (.ok (), { m with log := m.log ++ [⟨level, message⟩] }) := rfl

@[simp] theorem perform_info (message : String) (m : Machine) :
    (info message).perform m = (.ok (), { m with log := m.log ++ [⟨.info, message⟩] }) := rfl

@[simp] theorem perform_debug (message : String) (m : Machine) :
    (debug message).perform m = (.ok (), { m with log := m.log ++ [⟨.debug, message⟩] }) := rfl

/-- What a step has answered, without the machine behind it, says how it was performed. -/
theorem perform_of_toOption {s : Step α} {m : Machine} {a : α}
    (h : (s.perform m).1.toOption = some a) : s.perform m = (.ok a, (s.perform m).2) := by
  match s.perform m, h with
  | (.ok _, _), rfl => rfl

/-- **Performing one step and then the next**: a failure of the first is that of both. -/
theorem perform_bind (s : Step α) (f : α → Step β) (m : Machine) :
    (s >>= f).perform m =
      match s.perform m with
      | (.ok a, m') => (f a).perform m'
      | (.error e, m') => (.error e, m') := by
  rcases h : s.perform m with ⟨r, m'⟩
  have hs : s.run.run m = (r, m') := h
  rw [perform, ExceptT.run_bind, StateT.run_bind, hs]
  cases r <;> rfl

theorem perform_bind_ok {s : Step α} {f : α → Step β} {m m' : Machine} {a : α}
    (h : s.perform m = (.ok a, m')) : (s >>= f).perform m = (f a).perform m' := by
  rw [perform_bind, h]

theorem perform_bind_error {s : Step α} {f : α → Step β} {m m' : Machine} {e : Failure}
    (h : s.perform m = (.error e, m')) : (s >>= f).perform m = (.error e, m') := by
  rw [perform_bind, h]

/-- An answer that is only converted. -/
theorem perform_bind_pure (s : Step α) (f : α → β) (m : Machine) :
    (s >>= fun a => pure (f a)).perform m = ((s.perform m).1.map f, (s.perform m).2) := by
  rw [perform_bind]
  rcases s.perform m with ⟨e | a, m'⟩ <;> rfl

/-- Two steps answer exactly if both do, the second on the machine that the first has left. -/
theorem perform_bind_eq_ok {s : Step α} {f : α → Step β} {m m' : Machine} {b : β} :
    (s >>= f).perform m = (.ok b, m') ↔
      ∃ a m₁, s.perform m = (.ok a, m₁) ∧ (f a).perform m₁ = (.ok b, m') := by
  constructor
  · intro h
    rcases hs : s.perform m with ⟨e | a, m₁⟩
    · rw [perform_bind_error hs] at h
      simp at h
    · exact ⟨a, m₁, rfl, by rwa [perform_bind_ok hs] at h⟩
  · rintro ⟨a, m₁, hs, hf⟩
    rw [perform_bind_ok hs, hf]

@[simp] theorem perform_refused (r : Refusal) (failed : Errno → Failure) (m : Machine) :
    (refused r failed : Step α).perform m =
      (.error (match r with
        | .embeddedNull => .embeddedNull
        | .failed e => failed e), m) := by
  cases r <;> rfl

@[simp] theorem perform_cleaningUp (s : Step α) (cleanup : FileSystem → FileSystem) (m : Machine) :
    (s.cleaningUp cleanup).perform m =
      ((s.perform m).1, { (s.perform m).2 with files := cleanup (s.perform m).2.files }) := rfl

/-! ### Still steps -/

/-- **A still step leaves the machine as it is**: it only looks. -/
def Still (s : Step α) : Prop := ∀ m, (s.perform m).2 = m

theorem still_pure (a : α) : (pure a : Step α).Still := fun _ => rfl

theorem still_throw (f : Failure) : (throw f : Step α).Still := fun _ => rfl

theorem still_get : (get : Step Machine).Still := fun _ => rfl

theorem still_files : files.Still := fun _ => rfl

theorem still_refused (r : Refusal) (failed : Errno → Failure) :
    (refused r failed : Step α).Still := fun m => by simp

/-- Still steps one after the other are still. -/
theorem Still.bind {s : Step α} {f : α → Step β} (hs : s.Still) (hf : ∀ a, (f a).Still) :
    (s >>= f).Still := by
  intro m
  rcases h : s.perform m with ⟨e | a, m'⟩
  · obtain rfl : m' = m := by simpa [h] using hs m
    rw [perform_bind_error h]
  · obtain rfl : m' = m := by simpa [h] using hs m
    rw [perform_bind_ok h, hf a m']

theorem still_found (path : Path) : (found path).Still := by
  refine still_files.bind fun fs => ?_
  split
  · exact still_pure _
  · exact still_refused _ _

/-! ### Quiet steps -/

/-- **A quiet step changes nothing but the log**, to which it adds. -/
def Quiet (s : Step α) : Prop :=
  ∀ m, ∃ records, (s.perform m).2 = { m with log := m.log ++ records }

theorem Still.quiet {s : Step α} (h : s.Still) : s.Quiet := fun m => ⟨[], by simp [h m]⟩

theorem quiet_pure (a : α) : (pure a : Step α).Quiet := (still_pure a).quiet

theorem quiet_throw (f : Failure) : (throw f : Step α).Quiet := (still_throw f).quiet

theorem quiet_get : (get : Step Machine).Quiet := still_get.quiet

theorem quiet_files : files.Quiet := still_files.quiet

theorem quiet_refused (r : Refusal) (failed : Errno → Failure) :
    (refused r failed : Step α).Quiet := (still_refused r failed).quiet

theorem quiet_log (level : Log.Level) (message : String) : (log level message).Quiet :=
  fun _ => ⟨[⟨level, message⟩], rfl⟩

theorem quiet_info (message : String) : (info message).Quiet := quiet_log _ _

theorem quiet_debug (message : String) : (debug message).Quiet := quiet_log _ _

/-- A quiet step and a next one that is quiet for every answer of the first are quiet. -/
theorem Quiet.bind_of {s : Step α} {f : α → Step β} (hs : s.Quiet)
    (hf : ∀ m a m', s.perform m = (.ok a, m') → (f a).Quiet) : (s >>= f).Quiet := by
  intro m
  obtain ⟨first, h₁⟩ := hs m
  rcases h : s.perform m with ⟨r, m'⟩
  have hm : m' = { m with log := m.log ++ first } := by rw [h] at h₁; exact h₁
  cases r with
  | error e => exact ⟨first, by rw [perform_bind_error h, hm]⟩
  | ok a =>
      obtain ⟨second, h₂⟩ := hf m a m' h m'
      refine ⟨first ++ second, ?_⟩
      rw [perform_bind_ok h, h₂, hm]
      simp

/-- Quiet steps one after the other are quiet. -/
theorem Quiet.bind {s : Step α} {f : α → Step β} (hs : s.Quiet) (hf : ∀ a, (f a).Quiet) :
    (s >>= f).Quiet := hs.bind_of fun _ a _ _ => hf a

theorem quiet_found (path : Path) : (found path).Quiet := (still_found path).quiet

/-- A loop over quiet steps is quiet. -/
theorem quiet_mapM {f : α → Step β} (hf : ∀ a, (f a).Quiet) (l : List α) : (l.mapM f).Quiet := by
  induction l with
  | nil => exact quiet_pure _
  | cons a l ih =>
      rw [List.mapM_cons]
      exact (hf a).bind fun _ => ih.bind fun _ => quiet_pure _

/-! ### Silent steps -/

/-- **A silent step launches nothing.** -/
def Silent (s : Step α) : Prop := ∀ m : Machine, m.Continues [] (s.perform m).2

theorem Quiet.silent {s : Step α} (h : s.Quiet) : s.Silent := by
  intro m
  obtain ⟨records, h⟩ := h m
  rw [h]
  exact ⟨by simp, rfl, rfl, rfl, by simp⟩

theorem silent_setFiles (fs : FileSystem) : (setFiles fs).Silent :=
  fun _ => ⟨by simp, rfl, rfl, rfl, by simp⟩

/-- A silent step behind another one adds no launch. -/
theorem Silent.continues_bind {s : Step α} {f : α → Step β} {m : Machine} {new : List Launch}
    (hf : ∀ a, (f a).Silent) (hs : m.Continues new (s.perform m).2) :
    m.Continues new ((s >>= f).perform m).2 := by
  rcases h : s.perform m with ⟨e | a, m'⟩
  · rw [h] at hs
    rw [perform_bind_error h]
    exact hs
  · rw [h] at hs
    have := hs.trans (hf a m')
    rw [List.append_nil] at this
    rw [perform_bind_ok h]
    exact this

/-- Silent steps one after the other are silent. -/
theorem Silent.bind {s : Step α} {f : α → Step β} (hs : s.Silent) (hf : ∀ a, (f a).Silent) :
    (s >>= f).Silent :=
  fun m => Silent.continues_bind hf (hs m)

/-! ### Records -/

/-- **All records that a step writes have the property**, however it ends. -/
def Writes (P : Log.Record → Prop) (s : Step α) : Prop :=
  ∀ m, ∃ records, (s.perform m).2.log = m.log ++ records ∧ ∀ r ∈ records, P r

variable {P : Log.Record → Prop}

theorem Still.writes {s : Step α} (h : s.Still) : s.Writes P :=
  fun m => ⟨[], by simp [h m], by simp⟩

theorem writes_log {level : Log.Level} {message : String} (h : P ⟨level, message⟩) :
    (log level message).Writes P :=
  fun _ => ⟨[⟨level, message⟩], rfl, by simpa using h⟩

theorem writes_setFiles (fs : FileSystem) : (setFiles fs).Writes P :=
  fun _ => ⟨[], by simp, by simp⟩

/-- What a step behind another one adds to the log. -/
theorem exists_writes_bind {s : Step α} {f : α → Step β} (hf : ∀ a, (f a).Writes P) (m : Machine) :
    ∃ records, ((s >>= f).perform m).2.log = (s.perform m).2.log ++ records ∧
      ∀ r ∈ records, P r := by
  rcases h : s.perform m with ⟨e | a, m'⟩
  · exact ⟨[], by rw [perform_bind_error h, List.append_nil], by simp⟩
  · obtain ⟨records, hlog, hP⟩ := hf a m'
    exact ⟨records, by rw [perform_bind_ok h, hlog], hP⟩

/-- What two steps write is what they write one after the other. -/
theorem Writes.bind {s : Step α} {f : α → Step β} (hs : s.Writes P) (hf : ∀ a, (f a).Writes P) :
    (s >>= f).Writes P := by
  intro m
  obtain ⟨first, hfirst, hP⟩ := hs m
  obtain ⟨rest, hrest, hP'⟩ := exists_writes_bind hf m
  refine ⟨first ++ rest, by rw [hrest, hfirst, List.append_assoc], fun r hr => ?_⟩
  exact (List.mem_append.1 hr).elim (hP r) (hP' r)

/-! ### Loops -/

/-- **A loop goes through, or stops at its first failure**, and `I` holds of what is done by then if
each round keeps it. -/
theorem mapM_cases {f : α → Step β} {I : List (α × β) → Machine → Prop} {all : List α}
    (hround : ∀ done a rest m b m', all = done.map Prod.fst ++ a :: rest → I done m →
      (f a).perform m = (.ok b, m') → I (done ++ [(a, b)]) m')
    (l : List α) {done : List (α × β)} {m : Machine} (hall : all = done.map Prod.fst ++ l)
    (h : I done m) :
    (∃ more m', more.map Prod.fst = l ∧ I (done ++ more) m' ∧
      (l.mapM f).perform m = (.ok (more.map Prod.snd), m')) ∨
    ∃ more a rest m₁ e m', l = more.map Prod.fst ++ a :: rest ∧ I (done ++ more) m₁ ∧
      ((more.map Prod.fst).mapM f).perform m = (.ok (more.map Prod.snd), m₁) ∧
      (f a).perform m₁ = (.error e, m') ∧ (l.mapM f).perform m = (.error e, m') := by
  induction l generalizing done m with
  | nil => exact Or.inl ⟨[], m, rfl, by simpa using h, rfl⟩
  | cons a l ih =>
      rcases hfirst : (f a).perform m with ⟨e | b, m₁⟩
      · refine Or.inr ⟨[], a, l, m, e, m₁, rfl, by simpa using h, rfl, hfirst, ?_⟩
        rw [List.mapM_cons, perform_bind_error hfirst]
      · have hcons : ∀ l' : List α, ((a :: l').mapM f).perform m =
            (((l'.mapM f).perform m₁).1.map (b :: ·), ((l'.mapM f).perform m₁).2) := by
          intro l'
          rw [List.mapM_cons, perform_bind_ok hfirst, perform_bind_pure]
        have hnext := hround done a l m b m₁ hall h hfirst
        have hall' : all = (done ++ [(a, b)]).map Prod.fst ++ l := by simpa using hall
        rcases ih hall' hnext with
          ⟨more, m', rfl, hI, hrest⟩ | ⟨more, a', rest, m₂, e, m', rfl, hI, hmore, hfailed, hrest⟩
        · refine Or.inl ⟨(a, b) :: more, m', rfl, by simpa using hI, ?_⟩
          rw [hcons, hrest]
          rfl
        · refine Or.inr ⟨(a, b) :: more, a', rest, m₂, e, m', rfl, by simpa using hI, ?_, hfailed, ?_⟩
          · rw [List.map_cons, hcons, hmore]
            rfl
          · rw [hcons, hrest]
            rfl

end Step

end Provision
