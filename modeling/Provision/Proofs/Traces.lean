/-
**The log traces the launches.**

Outside of a dry run the runner writes a record for every command, right before it is launched, and
nothing else in a run writes a record that opens like this one.  So the traces in the log are the
launches of the run, one by one, however the run ends.

Main definitions:

* `Provision.Step.Traced` — **a step whose traces are its launches**.

Main results:

* `Provision.Step.Traced.bind_of` — the traces of two steps;
* `Provision.Toolchain.writes_makeStaging`, `Provision.Toolchain.writes_linkDefault`,
  `Provision.Repository.writes_ensureBase`, `Provision.Git.writes_removeIndexLock` — steps that
  launch nothing and write plain records only;
* `Provision.Bootstrap.traced_setUp` — **the work of a run**.
-/

import Provision.Proofs.Messages

set_option relaxedAutoImplicit false
set_option autoImplicit false

namespace Provision

open Log.Record (Foreign isPlain_of_foreign)

/-! ### Steps whose traces are their launches -/

namespace Step

variable {α β : Type}

/-- **A step whose traces are its launches**, one by one. -/
def Traced (s : Step α) : Prop :=
  ∀ m, ∃ records new, (s.perform m).2.log = m.log ++ records ∧
    (s.perform m).2.launches = m.launches ++ new ∧
    records.filter (·.isTrace) = new.map (·.command.trace)

/-- A record that opens with a foreign text. -/
theorem writes_foreign (s : String) {level : Log.Level} {message : String}
    (hs : Foreign level s = true) (h : s.toList <+: message.toList) :
    (log level message).Writes (·.isPlain = true) :=
  writes_log (isPlain_of_foreign hs h)

/-- Without launches there are no traces. -/
theorem Silent.traced {s : Step α} (hs : s.Silent) (hw : s.Writes (·.isPlain = true)) :
    s.Traced := by
  intro m
  obtain ⟨records, hlog, hplain⟩ := hw m
  refine ⟨records, [], hlog, (hs m).launches, List.filter_eq_nil_iff.2 fun r hr => ?_⟩
  have := hplain r hr
  simp only [Log.Record.isPlain, Bool.and_eq_true, Bool.not_eq_true'] at this
  simp [this.1]

theorem Still.traced {s : Step α} (hs : s.Still) : s.Traced := hs.quiet.silent.traced hs.writes

/-- **The traces of two steps** are those of the first and then those of the second. -/
theorem Traced.bind_of {s : Step α} {f : α → Step β} (hs : s.Traced)
    (hf : ∀ m a m', s.perform m = (.ok a, m') → (f a).Traced) : (s >>= f).Traced := by
  intro m
  obtain ⟨records, new, hlog, hlaunches, htraces⟩ := hs m
  rcases h : s.perform m with ⟨e | a, m₁⟩
  · rw [h] at hlog hlaunches
    exact ⟨records, new, by rw [perform_bind_error h]; exact ⟨hlog, hlaunches, htraces⟩⟩
  · rw [h] at hlog hlaunches
    obtain ⟨records', new', hlog', hlaunches', htraces'⟩ := hf m a m₁ h m₁
    refine ⟨records ++ records', new ++ new', ?_⟩
    rw [perform_bind_ok h, hlog', hlog, hlaunches', hlaunches, List.append_assoc,
      List.append_assoc, List.filter_append, List.map_append, htraces, htraces']
    exact ⟨rfl, rfl, rfl⟩

theorem Traced.bind {s : Step α} {f : α → Step β} (hs : s.Traced) (hf : ∀ a, (f a).Traced) :
    (s >>= f).Traced :=
  hs.bind_of fun _ a _ _ => hf a

theorem traced_pure (a : α) : (pure a : Step α).Traced := (still_pure a).traced

theorem traced_throw (f : Failure) : (throw f : Step α).Traced := (still_throw f).traced

/-- A record that opens with a foreign text is no trace. -/
theorem traced_foreign (s : String) {level : Log.Level} {message : String}
    (hs : Foreign level s = true) (h : s.toList <+: message.toList) :
    (log level message).Traced :=
  (quiet_log level message).silent.traced (writes_foreign s hs h)

theorem traced_mapM {f : α → Step β} (hf : ∀ a, (f a).Traced) (l : List α) :
    (l.mapM f).Traced := by
  induction l with
  | nil => exact traced_pure _
  | cons a l ih =>
      rw [List.mapM_cons]
      exact (hf a).bind fun b => ih.bind fun bs => traced_pure _

theorem Traced.cleaningUp {s : Step α} (hs : s.Traced) (cleanup : FileSystem → FileSystem) :
    (s.cleaningUp cleanup).Traced := by
  intro m
  rw [perform_cleaningUp]
  exact hs m

end Step

open Step

/-! ### Steps that launch nothing -/

namespace Toolchain

variable {P : Log.Record → Prop}

theorem writes_makeStagingWithin (root : Path) (tries : Nat) :
    (makeStagingWithin root tries).Writes P := by
  induction tries with
  | zero => exact (still_throw _).writes
  | succ tries ih =>
      have hcount : (modify fun m => { m with stagingTried := m.stagingTried + 1 } :
          Step Unit).Writes P := fun m => ⟨[], by simp, by simp⟩
      refine hcount.bind fun _ => still_get.writes.bind fun m => ?_
      dsimp only
      split
      · exact (writes_setFiles _).bind fun _ => (still_pure _).writes
      · split
        · exact ih
        · exact (still_throw _).writes
      · exact (still_throw _).writes

/-- Making a staging directory writes nothing. -/
theorem writes_makeStaging (root : Path) : (makeStaging root).Writes P := by
  refine still_files.writes.bind fun fs => ?_
  dsimp only
  refine (writes_setFiles _).bind fun _ => ?_
  split
  · exact (still_refused _ _).writes
  · exact writes_makeStagingWithin _ _

theorem writes_clearLink (layout : Layout) : (clearLink layout).Writes (·.isPlain = true) := by
  refine still_files.writes.bind fun fs => ?_
  split
  · exact writes_setFiles _
  · exact (still_throw _).writes
  · split
    · exact writes_foreign "Could not remove " (by cbv) (by simp)
    · exact (still_pure _).writes

theorem writes_linkDefault (layout : Layout) (version : String) (dryRun : Bool) :
    (linkDefault layout version dryRun).Writes (·.isPlain = true) := by
  unfold linkDefault
  dsimp only
  split
  · exact (writes_foreign "Dry run: would link " (by cbv) (by simp)).bind fun _ =>
      (still_pure _).writes
  · have hlinked : (do
        info ("Linked " ++ layout.goLink.toString ++ " to " ++ (layout.goDir version).toString)
        return layout.goLink : Step Path).Writes (·.isPlain = true) :=
      (writes_foreign "Linked " (by cbv) (by simp)).bind fun _ => (still_pure _).writes
    refine (writes_clearLink layout).bind fun _ => still_files.writes.bind fun fs => ?_
    split
    · exact (writes_setFiles _).bind fun _ => hlinked
    · exact (still_refused _ _).writes.bind fun _ => hlinked

end Toolchain

theorem Repository.writes_ensureBase (layout : Layout) (dryRun : Bool) :
    (ensureBase layout dryRun).Writes (·.isPlain = true) := by
  refine (still_found _).writes.bind fun there => ?_
  split
  · refine still_files.writes.bind fun fs => ?_
    split
    · exact (writes_foreign "Reusing existing " (by cbv) (by simp)).bind fun _ =>
        (still_pure _).writes
    · exact (still_throw _).writes
    · exact (still_refused _ _).writes
  · split
    · exact (writes_foreign "Dry run: would create " (by cbv) (by simp)).bind fun _ =>
        (still_pure _).writes
    · refine still_files.writes.bind fun fs => ?_
      dsimp only
      refine (writes_setFiles _).bind fun _ => ?_
      split
      · exact (still_refused _ _).writes
      · exact (still_pure _).writes

theorem Git.writes_removeIndexLock (repo : Path) :
    (removeIndexLock repo).Writes (·.isPlain = true) := by
  refine still_files.writes.bind fun fs => ?_
  split
  · exact (writes_setFiles _).bind fun _ =>
      writes_foreign "Removed stale lock " (by cbv) (by simp)
  · exact (still_throw _).writes
  · split
    · exact (still_pure _).writes
    · exact writes_foreign "" (by decide) (List.nil_prefix)

theorem Summary.writes_report (s : Summary) (dryRun : Bool) :
    (s.report dryRun).Writes (·.isPlain = true) := by
  refine writes_foreign "\n" (by cbv) ?_
  rw [Summary.text, String.intercalate_cons_cons, String.empty_append, String.toList_append]
  exact List.prefix_append _ _

theorem Bootstrap.writes_plain_prepare (a : Arguments) :
    (prepare a).Writes (·.isPlain = true) := by
  refine writes_prepare ?_ a
  intro s hs level message h
  have hforeign : ∀ s ∈ preparations, ∀ level, Foreign level s = true := by
    intro s hs level
    cases level with
    | debug =>
        revert s
        decide +kernel
    | info =>
        revert s
        decide +kernel
    | warning => rfl
    | error => rfl
  exact isPlain_of_foreign (hforeign s hs level) h

/-! ### Steps with launches -/

section

variable {runner : Runner} (hdry : runner.dryRun = false)
include hdry

/-- **The runner writes the trace of its launch.** -/
theorem Runner.traced_run (argv : List String) (directory : Option Path) :
    (runner.run argv directory).Traced := by
  intro m
  rw [perform_trace hdry]
  refine ⟨_, _, rfl, rfl, ?_⟩
  rw [List.filter_cons_of_pos (Command.isTrace_trace _)]
  rfl

theorem Toolchain.traced_fill (version : String) (staging target : Path) :
    (fill version staging target runner).Traced := by
  refine (Runner.traced_run hdry _ _).bind fun _ => still_files.traced.bind fun fs => ?_
  split
  · exact (silent_setFiles _).traced (writes_setFiles _)
  · exact (still_refused _ _).traced

theorem Toolchain.traced_fetch (version : String) (layout : Layout) :
    (fetch version layout runner).Traced :=
  ((silent_makeStaging _).traced (writes_makeStaging _)).bind fun staging =>
    (traced_fill hdry version staging _).cleaningUp _

theorem Toolchain.traced_install (version : String) (layout : Layout) :
    (install version layout runner).Traced := by
  refine still_files.traced.bind fun fs => ?_
  split
  · exact (traced_foreign "Found existing go " (by cbv) (by simp)).bind fun _ =>
      traced_pure _
  · exact traced_throw _
  · exact traced_throw _
  · have hrest : (do
        info ("Installing go " ++ version ++ " to " ++ (layout.goDir version).toString)
        if runner.dryRun then do
          info ("Dry run: would download " ++ archiveUrl version)
          return Status.installed
        else do
          fetch version layout runner
          return Status.installed : Step Status).Traced := by
      rw [hdry]
      exact (traced_foreign "Installing go " (by cbv) (by simp)).bind fun _ =>
        (traced_fetch hdry version layout).bind fun _ => traced_pure _
    dsimp only
    split
    · exact (traced_throw _).bind fun _ => hrest
    · exact hrest

theorem Toolchain.traced_installAll (rules : List RepositoryRule) (layout : Layout) :
    (installAll rules layout runner).Traced :=
  (traced_mapM (fun version => traced_install hdry version layout) _).bind fun _ =>
    ((silent_linkDefault layout _ _).traced (writes_linkDefault layout _ _)).bind fun _ =>
      traced_pure _

theorem Tool.traced_ensure (tool : Tool) (layout : Layout) :
    (tool.ensure layout runner).Traced := by
  have hrun := Runner.traced_run hdry
  have hinstall : (do
      info ("Installing " ++ tool.importPath ++ "#" ++ tool.revision ++ " ...")
      runner.run ["go", "get", tool.importPath]
      Git.checkout runner (layout.packageDir tool.importPath) tool.revision
      runner.run ["go", "install", tool.buildTarget] (some (layout.packageDir tool.importPath))
      return Status.installed : Step Status).Traced :=
    (traced_foreign "Installing " (by cbv) (by simp)).bind fun _ =>
      (hrun _ _).bind fun _ => (hrun _ _).bind fun _ => (hrun _ _).bind fun _ => traced_pure _
  refine still_get.traced.bind fun m => ?_
  split
  · exact (traced_foreign "Already installed: " (by cbv) (by simp)).bind fun _ =>
      traced_pure _
  · exact hinstall

theorem Bootstrap.traced_ensureTool (layout : Layout) (tool : Tool) (skip : Bool) :
    (ensureTool layout runner tool skip).Traced := by
  unfold ensureTool
  split
  · exact (traced_foreign "Skipping " (by cbv) (by simp)).bind fun _ => traced_pure _
  · exact (Tool.traced_ensure hdry tool layout).bind fun _ => traced_pure _

theorem Repository.traced_cloneSource (config : Config) (layout : Layout) (restore : Bool) :
    (cloneSource config layout runner restore).Traced := by
  have hrun := Runner.traced_run hdry
  refine (still_found _).traced.bind fun there => ?_
  split
  · exact (traced_foreign "Source repository " (by cbv) (by simp)).bind fun _ =>
      traced_pure _
  · refine (traced_foreign "Cloning source repository " (by cbv) (by simp)).bind
      fun _ => (hrun _ _).bind fun _ => ?_
    split
    · -- this record opens like a trace, but at another level
      exact (traced_foreign "Running hack" (by cbv) (by simp [restoreScript])).bind
        fun _ => (hrun _ _).bind fun _ => traced_pure _
    · exact traced_pure _

theorem Repository.traced_cloneFork (config : Config) (layout : Layout) (name : String)
    (environment : Environment) :
    (cloneFork config layout runner name environment).Traced := by
  have hrun := Runner.traced_run hdry
  refine (still_found _).traced.bind fun there => ?_
  split
  · rw [hdry]
    exact (traced_foreign "Fork repository " (by cbv) (by simp)).bind fun _ =>
      (hrun _ _).bind fun _ =>
      ((Git.silent_removeIndexLock _).traced (Git.writes_removeIndexLock _)).bind fun _ =>
      traced_pure _
  · exact (traced_foreign "Cloning fork repository " (by cbv) (by simp)).bind fun _ =>
      (hrun _ _).bind fun _ => (hrun _ _).bind fun _ => (hrun _ _).bind fun _ => traced_pure _

end

/-! ### The work of a run -/

namespace Bootstrap

theorem traced_carryOut {p : Plan} (hdry : p.arguments.dryRun = false) : (carryOut p).Traced := by
  have hrunner : p.runner.dryRun = false := hdry
  refine (Toolchain.traced_installAll hrunner _ _).bind fun go => ?_
  refine ((Repository.silent_ensureBase _ _).traced (Repository.writes_ensureBase _ _)).bind
    fun _ => ?_
  refine (traced_ensureTool hrunner _ _ _).bind fun godep => ?_
  refine (traced_ensureTool hrunner _ _ _).bind fun dep => ?_
  refine (Repository.traced_cloneSource hrunner _ _ _).bind fun source => ?_
  exact (traced_mapM (fun name => Repository.traced_cloneFork hrunner _ _ name _) _).bind
    fun _ => traced_pure _

/-- **The traces of a run are its launches**, however its work ends. -/
theorem traced_setUp {a : Arguments} (hdry : a.dryRun = false) : (setUp a).Traced := by
  refine ((quiet_prepare a).silent.traced (writes_plain_prepare a)).bind_of fun m p m' hp => ?_
  have hplan : p.arguments.dryRun = false := by rw [(plan_of_prepare hp).1, hdry]
  exact (traced_carryOut hplan).bind fun summary =>
    (quiet_info _).silent.traced (summary.writes_report _)

end Bootstrap

end Provision
