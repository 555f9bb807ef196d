/-
**A dry run foretells what is launched.**

Every operation looks at the machine first, and what it sees decides how it goes on.  Outside of a
dry run it then launches commands, which may change the files as they like; in a dry run it writes
forecasts instead.  The two ways to go on are followed side by side: they ask nothing more of the
machine that could depend on the files, so that they come to the same answer, and each command that
is launched is the one that was foretold in its place.  If the operation fails before, then it fails
in the same way in both.

Main definitions:

* `Provision.Forecast`, `Provision.Forecast.MetBy` — what a dry run says would be done, and which
  commands do so;
* `Provision.Step.Foretells` — **one step foretells what another one launches**, on all machines;
* `Provision.Step.Predicts` — the same for what the two do on one machine, where they may also fail;
* `Provision.Operation`, `Provision.Operation.step`, `Provision.Operation.forecasts` — the operations,
  and what is foretold for each of them.

Main results:

* `Provision.Step.Foretells.bind` — forecasts of two steps;
* `Provision.Operation.predicts_step` — every operation in a dry run predicts itself;
* `Provision.Operation.dry_run_predicts` — **a dry run answers as the operation does, and foretells
  its commands**.
-/

import Provision.Proofs.Accounting
import Provision.Proofs.Effects
import Provision.Proofs.Traces

set_option relaxedAutoImplicit false
set_option autoImplicit false

namespace Provision

open Log.Record (Foreign isPlain_of_foreign)

/-! ### Forecasts -/

/-- What a dry run says would be done. -/
inductive Forecast where
  | command (c : Command)
  /-- The archive of a version would be downloaded. -/
  | download (version : String)
  deriving DecidableEq, Repr, Inhabited

namespace Forecast

/-- The record of a forecast: a command with its directory, or the address of an archive. -/
def record : Forecast → Log.Record
  | command c => c.announcement
  | download version => ⟨.info, Message.wouldDownload ++ Toolchain.archiveUrl version⟩

/-- **Whether a launched command is what was foretold**: that command in its directory or, for a
download, the one that downloads the version into a staging directory below the root. -/
def MetBy (root : Path) : Forecast → Command → Prop
  | command c, launched => launched = c ∧ c.isDownload = false
  | download version, launched => ∃ n, launched = Toolchain.download version root n

/-- The command that would be run. -/
def command? : Forecast → Option Command
  | command c => some c
  | download _ => none

theorem isAnnouncement_download (version : String) :
    (download version).record.isAnnouncement = false := by
  have hopening : Message.wouldRun.toList.isPrefixOf
      (Message.wouldDownload.toList ++ (Toolchain.archiveUrl version).toList) = false :=
    Effort.isPrefixOf_append_of_apart (by cbv) _
  simp [record, Log.Record.isAnnouncement, Log.Record.opens, hopening]

/-- Among the records of some forecasts, the announcements are those for the commands. -/
theorem filter_isAnnouncement (fs : List Forecast) :
    (fs.map record).filter (·.isAnnouncement) =
      (fs.filterMap command?).map Command.announcement := by
  induction fs with
  | nil => rfl
  | cons f fs ih =>
      cases f with
      | command c =>
          rw [List.map_cons, record, List.filter_cons_of_pos c.isAnnouncement_announcement, ih]
          rfl
      | download version =>
          rw [List.map_cons, List.filter_cons_of_neg (by simp [isAnnouncement_download]), ih]
          rfl

theorem isForecast_record (f : Forecast) : f.record.isForecast = true := by
  cases f with
  | command c => simp [record, Log.Record.isForecast, c.isAnnouncement_announcement]
  | download version =>
      simp [record, Log.Record.isForecast, Log.Record.opens, List.isPrefixOf_iff_prefix]

end Forecast

/-! ### Steps that foretell others -/

namespace Step

variable {α β : Type} {root : Path} {dry real : Step α} {a : α} {forecasts : List Forecast}

/-- **`dry` foretells what `real` launches.**  It answers `a`, adds the forecasts to the log and does
nothing else; and whenever `real` answers, it answers the same, and its launches meet the
forecasts. -/
structure Foretells (root : Path) (dry real : Step α) (a : α) (forecasts : List Forecast) :
    Prop where
  foretold : ∀ m, ∃ records, dry.perform m = (.ok a, { m with log := m.log ++ records }) ∧
    records.filter (·.isForecast) = forecasts.map Forecast.record
  met : ∀ m b m', real.perform m = (.ok b, m') → b = a ∧
    ∃ new, m'.launches = m.launches ++ new ∧
      List.Forall₂ (Forecast.MetBy root) forecasts (new.map (·.command))

/-- **Performed on `m`, `dry` predicts `real`**: both fail at once and in the same way, or `dry`
foretells what `real` launches. -/
def Predicts (root : Path) (dry real : Step α) (m : Machine) (forecasts : List Forecast) : Prop :=
  (∃ f, dry.perform m = (.error f, m) ∧ real.perform m = (.error f, m)) ∨
  ∃ a records, dry.perform m = (.ok a, { m with log := m.log ++ records }) ∧
    records.filter (·.isForecast) = forecasts.map Forecast.record ∧
    ∀ b m', real.perform m = (.ok b, m') → b = a ∧
      ∃ new, m'.launches = m.launches ++ new ∧
        List.Forall₂ (Forecast.MetBy root) forecasts (new.map (·.command))

/-! #### Elementary steps -/

theorem foretells_pure (a : α) : Foretells root (pure a) (pure a) a [] where
  foretold := fun m => ⟨[], by simp, rfl⟩
  met := by
    intro m b m' h
    obtain ⟨rfl, rfl⟩ : a = b ∧ m = m' := by simpa using h
    exact ⟨rfl, [], by simp, .nil⟩

theorem filter_foreign {s : String} {level : Log.Level} {message : String}
    (hs : Foreign level s = true) (h : s.toList <+: message.toList) :
    [(⟨level, message⟩ : Log.Record)].filter (·.isForecast) = [] := by
  have hplain := isPlain_of_foreign hs h
  simp only [Log.Record.isPlain, Bool.and_eq_true, Bool.not_eq_true'] at hplain
  simp [hplain.2]

/-- A plain record in the place of a step that launches nothing. -/
theorem foretells_foreign (s : String) {level : Log.Level} {message : String}
    (hs : Foreign level s = true) (h : s.toList <+: message.toList) {real : Step Unit}
    (hreal : real.Silent) : Foretells root (log level message) real () [] where
  foretold := fun m => ⟨[⟨level, message⟩], rfl, filter_foreign hs h⟩
  met := by
    intro m b m' hm
    have := (hreal m).launches
    rw [hm] at this
    exact ⟨rfl, [], this, .nil⟩

/-- A plain record in the place of a step that launches nothing and can only answer in one way. -/
theorem foretells_of_answers (s : String) {level : Log.Level} {message : String}
    (hs : Foreign level s = true) (h : s.toList <+: message.toList) (hreal : real.Silent)
    (hanswers : real.Answers (· = a)) :
    Foretells root (log level message >>= fun _ => pure a) real a [] where
  foretold := fun m => ⟨[⟨level, message⟩], rfl, filter_foreign hs h⟩
  met := by
    intro m b m' hm
    have := (hreal m).launches
    rw [hm] at this
    exact ⟨hanswers m b m' hm, [], this, .nil⟩

/-- The same plain record in both. -/
theorem foretells_log (s : String) {level : Log.Level} {message : String}
    (hs : Foreign level s = true) (h : s.toList <+: message.toList) :
    Foretells root (log level message) (log level message) () [] :=
  foretells_foreign s hs h (quiet_log level message).silent

/-- **Two steps foretell what their parts foretell.** -/
theorem Foretells.bind {f g : α → Step β} {b : β} {forecasts' : List Forecast}
    (h : Foretells root dry real a forecasts) (h' : Foretells root (f a) (g a) b forecasts') :
    Foretells root (dry >>= f) (real >>= g) b (forecasts ++ forecasts') where
  foretold := by
    intro m
    obtain ⟨records, hdry, hrecords⟩ := h.foretold m
    obtain ⟨records', hdry', hrecords'⟩ := h'.foretold { m with log := m.log ++ records }
    refine ⟨records ++ records', ?_, ?_⟩
    · rw [perform_bind_ok hdry, hdry', List.append_assoc]
    · rw [List.filter_append, List.map_append, hrecords, hrecords']
  met := by
    intro m c m' hm
    obtain ⟨a', m₁, hreal, hg⟩ := perform_bind_eq_ok.1 hm
    obtain ⟨rfl, new, hlaunches, hmet⟩ := h.met m a' m₁ hreal
    obtain ⟨rfl, new', hlaunches', hmet'⟩ := h'.met m₁ c m' hg
    refine ⟨rfl, new ++ new', ?_, ?_⟩
    · rw [hlaunches', hlaunches, List.append_assoc]
    · rw [List.map_append]
      exact List.rel_append hmet hmet'

/-- A part without forecasts in front. -/
theorem Foretells.bind_plain {f g : α → Step β} {b : β} (h : Foretells root dry real a [])
    (h' : Foretells root (f a) (g a) b forecasts) :
    Foretells root (dry >>= f) (real >>= g) b forecasts := h.bind h'

/-- A part with one forecast in front. -/
theorem Foretells.bind_cons {f g : α → Step β} {b : β} {forecast : Forecast}
    (h : Foretells root dry real a [forecast]) (h' : Foretells root (f a) (g a) b forecasts) :
    Foretells root (dry >>= f) (real >>= g) b (forecast :: forecasts) := h.bind h'

/-! #### Looking at the machine first -/

variable {m : Machine}

theorem Foretells.predicts (h : Foretells root dry real a forecasts) (m : Machine) :
    Predicts root dry real m forecasts := by
  obtain ⟨records, hdry, hrecords⟩ := h.foretold m
  exact Or.inr ⟨a, records, hdry, hrecords, h.met m⟩

theorem predicts_throw (f : Failure) :
    Predicts root (throw f : Step α) (throw f) m forecasts := Or.inl ⟨f, rfl, rfl⟩

theorem predicts_refused (r : Refusal) (failed : Errno → Failure) :
    Predicts root (refused r failed : Step α) (refused r failed) m forecasts :=
  Or.inl ⟨_, perform_refused r failed m, perform_refused r failed m⟩

/-- What a step predicts depends on what the two do on this machine only. -/
theorem Predicts.of_perform_eq {dry' real' : Step α} (h : Predicts root dry real m forecasts)
    (hdry : dry'.perform m = dry.perform m) (hreal : real'.perform m = real.perform m) :
    Predicts root dry' real' m forecasts := by
  rw [Predicts, hdry, hreal]
  exact h

/-- Both look at a path. -/
theorem predicts_found {path : Path} {f g : Bool → Step β}
    (h : ∀ there, m.sees path = there → Predicts root (f there) (g there) m forecasts) :
    Predicts root (found path >>= f) (found path >>= g) m forecasts := by
  have hlook := perform_found path m
  cases hfound : m.files.found path.toString with
  | ok there =>
      rw [hfound] at hlook
      have hsees : m.sees path = there := by rw [Machine.sees, hfound]
      exact (h there hsees).of_perform_eq (perform_bind_ok hlook) (perform_bind_ok hlook)
  | error r =>
      rw [hfound] at hlook
      dsimp only at hlook
      rw [perform_refused] at hlook
      exact Or.inl ⟨_, perform_bind_error hlook, perform_bind_error hlook⟩

/-- Answers that are only converted. -/
theorem Predicts.bind_pure (h : Predicts root dry real m forecasts) (f : α → β) :
    Predicts root (dry >>= fun a => pure (f a)) (real >>= fun a => pure (f a)) m forecasts := by
  rcases h with ⟨e, hdry, hreal⟩ | ⟨a, records, hdry, hrecords, hmet⟩
  · exact Or.inl ⟨e, perform_bind_error hdry, perform_bind_error hreal⟩
  · refine Or.inr ⟨f a, records, by rw [perform_bind_ok hdry, perform_pure], hrecords, ?_⟩
    intro b m' h
    obtain ⟨a', m₁, hreal, hpure⟩ := perform_bind_eq_ok.1 h
    obtain ⟨rfl, rfl⟩ : f a' = b ∧ m₁ = m' := by simpa using hpure
    obtain ⟨rfl, hnew⟩ := hmet a' m₁ hreal
    exact ⟨rfl, hnew⟩

end Step

open Step

/-! ### What is foretold

Each thing to be done is foretold by what is seen of it on the machine; `directory` is the one for
commands that come without one. -/

/-- What is foretold for a distribution. -/
def Toolchain.forecasts (version : String) (layout : Layout) (m : Machine) : List Forecast :=
  if m.misses (layout.goDir version) then [.download version] else []

/-- What is foretold for a tool. -/
def Tool.forecasts (tool : Tool) (layout : Layout) (directory : Path) (m : Machine) :
    List Forecast :=
  if m.findExecutable tool.name then []
  else [.command ⟨["go", "get", tool.importPath], directory⟩,
    .command ⟨["git", "checkout", tool.revision], layout.packageDir tool.importPath⟩,
    .command ⟨["go", "install", tool.buildTarget], layout.packageDir tool.importPath⟩]

namespace Repository

/-- What is foretold for the source repository. -/
def sourceForecasts (config : Config) (layout : Layout) (directory : Path) (restore : Bool)
    (m : Machine) : List Forecast :=
  if m.sees (layout.repoDir config.sourceRepo) then []
  else
    .command ⟨["git", "clone", config.address config.sourceOrg config.sourceRepo],
      directory⟩ ::
    if restore then
      [.command ⟨["bash", "-x", restoreScript], layout.repoDir config.sourceRepo⟩]
    else []

/-- What is foretold for a repository that is published into. -/
def forkForecasts (config : Config) (layout : Layout) (directory : Path) (name : String)
    (environment : Environment) (m : Machine) : List Forecast :=
  let url := config.address config.targetOrg name
  let repo := layout.repoDir name
  if m.sees repo then [.command ⟨["git", "remote", "set-url", "origin", url], repo⟩]
  else
    [.command ⟨["git", "clone", url], directory⟩,
      .command ⟨["git", "config", "user.name", environment.value "GIT_COMMITTER_NAME"], repo⟩,
      .command ⟨["git", "config", "user.email", environment.value "GIT_COMMITTER_EMAIL"], repo⟩]

end Repository

/-! ### The operations -/

section

variable (root directory : Path) {m : Machine}

/-- **The runner foretells its command.** -/
theorem Runner.foretells_run (argv : List String) (given : Option Path)
    (hc : (⟨argv, given.getD directory⟩ : Command).isDownload = false) :
    Foretells root (Runner.run ⟨directory, true⟩ argv given) (Runner.run ⟨directory, false⟩ argv given)
      () [.command ⟨argv, given.getD directory⟩] where
  foretold := by
    intro m
    refine ⟨_, perform_announce rfl argv given m, ?_⟩
    simp [Log.Record.isForecast, Command.isAnnouncement_announcement]
    rfl
  met := by
    intro m b m' h
    rw [perform_run_eq rfl] at h
    obtain ⟨-, rfl⟩ := Prod.mk.inj h
    exact ⟨rfl, _, rfl, .cons ⟨rfl, hc⟩ .nil⟩

namespace Toolchain

/-- **The record for a download foretells it.** -/
theorem foretells_fetch (version : String) (layout : Layout) :
    Foretells layout.root (info ("Dry run: would download " ++ archiveUrl version))
      (fetch version layout ⟨directory, false⟩) () [.download version] where
  foretold := by
    intro m
    exact ⟨[(Forecast.download version).record], rfl, by simp [Forecast.isForecast_record]⟩
  met := by
    intro m b m' h
    obtain ⟨n, new, hnew⟩ := @follows_fetch ⟨directory, false⟩ rfl version layout m
    rw [h] at hnew
    refine ⟨rfl, new, hnew.continues.launches, ?_⟩
    rw [hnew.complete b rfl]
    exact .cons ⟨n, rfl⟩ .nil

/-- What is in the place of a distribution decides what is foretold. -/
theorem predicts_install (version : String) (layout : Layout) :
    Predicts layout.root (install version layout ⟨directory, true⟩)
      (install version layout ⟨directory, false⟩) m (forecasts version layout m) := by
  refine Predicts.of_perform_eq ?_ (perform_install_of_stat version layout m)
    (perform_install_of_stat version layout m)
  unfold forecasts Machine.misses
  cases m.files.stat (layout.goDir version).toString with
  | ok e =>
      cases e with
      | directory =>
          refine Foretells.predicts (a := .existing) ?_ m
          exact Foretells.bind_plain (foretells_log "Found existing go " (by cbv)
            (by simp)) (foretells_pure _)
      | file content executable => exact predicts_throw _
      | link text => exact predicts_throw _
  | error r =>
      cases r with
      | embeddedNull => exact predicts_throw _
      | failed e =>
          by_cases he : e = .noEntry
          · subst he
            refine Foretells.predicts (a := .installed) ?_ m
            refine Foretells.bind_plain (foretells_log "Installing go " (by cbv)
              (by simp)) ?_
            exact (foretells_fetch directory version layout).bind_cons (foretells_pure _)
          · simp only [he, if_false]
            exact predicts_throw _

theorem answers_linkDefault (layout : Layout) (version : String) :
    (linkDefault layout version false).Answers (· = layout.goLink) := by
  refine answers_bind fun _ => answers_bind fun fs => ?_
  have hlinked : (info ("Linked " ++ layout.goLink.toString ++ " to " ++
      (layout.goDir version).toString) >>= fun _ => pure layout.goLink).Answers
        (· = layout.goLink) := answers_bind fun _ => answers_pure rfl
  split
  · exact answers_bind fun _ => hlinked
  · exact answers_bind fun _ => hlinked

/-- The link is foretold by a plain record. -/
theorem predicts_linkDefault (layout : Layout) (version : String) :
    Predicts root (linkDefault layout version true) (linkDefault layout version false) m [] := by
  refine Foretells.predicts (a := layout.goLink) ?_ m
  exact foretells_of_answers "Dry run: would link " (by cbv) (by simp)
    (silent_linkDefault layout version false) (answers_linkDefault layout version)

end Toolchain

/-- The directory of the repositories is looked at in both, and foretold by a plain record. -/
theorem Repository.predicts_ensureBase (layout : Layout) :
    Predicts root (ensureBase layout true) (ensureBase layout false) m [] := by
  refine predicts_found fun there _ => ?_
  cases there with
  | true =>
      simp only [if_true]
      refine Predicts.of_perform_eq ?_ (perform_bind_ok (perform_files m))
        (perform_bind_ok (perform_files m))
      cases m.files.isDirectory layout.baseRepoPath.toString with
      | error r => exact predicts_refused _ _
      | ok isDirectory =>
          cases isDirectory with
          | false => exact predicts_throw _
          | true =>
              refine Foretells.predicts (a := layout.baseRepoPath) ?_ m
              exact Foretells.bind_plain (foretells_log "Reusing existing " (by cbv)
                (by simp)) (foretells_pure _)
  | false =>
      refine Foretells.predicts (a := layout.baseRepoPath) ?_ m
      refine foretells_of_answers "Dry run: would create " (by cbv) (by simp) ?_ ?_
      · refine quiet_files.silent.bind fun fs => (silent_setFiles _).bind fun _ => ?_
        split
        · exact (quiet_refused _ _).silent
        · exact (quiet_pure _).silent
      · refine answers_bind fun fs => answers_bind fun _ => ?_
        split
        · intro m b m' h
          simp at h
        · exact answers_pure rfl

/-- Whether a tool is found decides what is foretold. -/
theorem Tool.predicts_ensure (tool : Tool) (layout : Layout) :
    Predicts root (tool.ensure layout ⟨directory, true⟩) (tool.ensure layout ⟨directory, false⟩) m
      (tool.forecasts layout directory m) := by
  unfold forecasts
  have hrun := Runner.foretells_run root directory
  refine Predicts.of_perform_eq ?_ (perform_bind_ok (perform_get m)) (perform_bind_ok (perform_get m))
  cases m.findExecutable tool.name with
  | true =>
      refine Foretells.predicts (a := .existing) ?_ m
      exact Foretells.bind_plain (foretells_log "Already installed: " (by cbv) (by simp))
        (foretells_pure _)
  | false =>
      refine Foretells.predicts (a := .installed) ?_ m
      refine Foretells.bind_plain (foretells_log "Installing " (by cbv) (by simp)) ?_
      exact (hrun _ none rfl).bind_cons ((hrun _ (some _) rfl).bind_cons ((hrun _ (some _) rfl).bind_cons
        (foretells_pure _)))

namespace Repository

/-- Whether the source repository is found decides what is foretold. -/
theorem predicts_cloneSource (config : Config) (layout : Layout) (restore : Bool) :
    Predicts root (cloneSource config layout ⟨directory, true⟩ restore)
      (cloneSource config layout ⟨directory, false⟩ restore) m
      (sourceForecasts config layout directory restore m) := by
  unfold sourceForecasts
  have hrun := Runner.foretells_run root directory
  refine predicts_found fun there hsees => ?_
  rw [hsees]
  cases there with
  | true =>
      refine Foretells.predicts (a := .existing) ?_ m
      exact Foretells.bind_plain (foretells_log "Source repository " (by cbv) (by simp))
        (foretells_pure _)
  | false =>
      refine Foretells.predicts (a := .cloned) ?_ m
      refine Foretells.bind_plain (foretells_log "Cloning source repository " (by cbv)
        (by simp)) ?_
      refine (hrun _ none rfl).bind_cons ?_
      cases restore with
      | false => exact foretells_pure _
      | true =>
          refine Foretells.bind_plain (foretells_log "Running hack" (by cbv)
            (by simp [restoreScript])) ?_
          exact (hrun _ (some _) rfl).bind_cons (foretells_pure _)

/-- Whether a fork is found decides what is foretold. -/
theorem predicts_cloneFork (config : Config) (layout : Layout) (name : String)
    (environment : Environment) :
    Predicts root (cloneFork config layout ⟨directory, true⟩ name environment)
      (cloneFork config layout ⟨directory, false⟩ name environment) m
      (forkForecasts config layout directory name environment m) := by
  unfold forkForecasts
  dsimp only
  have hrun := Runner.foretells_run root directory
  refine predicts_found fun there hsees => ?_
  rw [hsees]
  cases there with
  | true =>
      refine Foretells.predicts (a := .refreshed) ?_ m
      refine Foretells.bind_plain (foretells_log "Fork repository " (by cbv) (by simp)) ?_
      refine (hrun _ (some _) rfl).bind_cons ?_
      -- the lock is removed in one of the two only, and nothing is launched for it
      exact Foretells.bind_plain (foretells_foreign "Dry run: would remove " (by cbv)
        (by simp) (Git.silent_removeIndexLock _)) (foretells_pure _)
  | false =>
      refine Foretells.predicts (a := .cloned) ?_ m
      refine Foretells.bind_plain (foretells_log "Cloning fork repository " (by cbv)
        (by simp)) ?_
      exact (hrun _ none rfl).bind_cons ((hrun _ (some _) rfl).bind_cons ((hrun _ (some _) rfl).bind_cons
        (foretells_pure _)))

end Repository

end

/-! ### All operations -/

/-- What a run consists of. -/
inductive Operation where
  /-- A distribution is put in place. -/
  | install (version : String)
  /-- The link is made to lead to a distribution. -/
  | link (version : String)
  /-- The directory of the repositories is made. -/
  | base
  /-- A tool is built. -/
  | tool (tool : Tool)
  /-- The source repository is cloned, and its dependencies are restored if `restore` is set. -/
  | source (restore : Bool)
  /-- A repository that is published into is cloned or refreshed. -/
  | fork (name : String)
  deriving DecidableEq, Repr, Inhabited

namespace Operation

/-- What an operation answers. -/
inductive Answer where
  | toolchain (status : Toolchain.Status)
  | tool (status : Tool.Status)
  | repository (status : Repository.Status)
  | path (path : Path)
  deriving DecidableEq, Repr, Inhabited

/-- What an operation works with. -/
structure Context where
  config : Config
  layout : Layout
  /-- The variables that name the committer. -/
  environment : Environment
  /-- The directory for commands that come without one. -/
  directory : Path
  deriving DecidableEq, Repr, Inhabited

/-- **Performs an operation**, in a dry run or outside of one. -/
def step (op : Operation) (c : Context) (dryRun : Bool) : Step Answer :=
  let runner : Runner := ⟨c.directory, dryRun⟩
  match op with
  | .install version => return .toolchain (← Toolchain.install version c.layout runner)
  | .link version => return .path (← Toolchain.linkDefault c.layout version dryRun)
  | .base => return .path (← Repository.ensureBase c.layout dryRun)
  | .tool t => return .tool (← t.ensure c.layout runner)
  | .source restore => return .repository (← Repository.cloneSource c.config c.layout runner restore)
  | .fork name =>
      return .repository (← Repository.cloneFork c.config c.layout runner name c.environment)

/-- **What is foretold for an operation** by what it sees of the machine. -/
def forecasts (op : Operation) (c : Context) (m : Machine) : List Forecast :=
  match op with
  | .install version => Toolchain.forecasts version c.layout m
  | .link _ | .base => []
  | .tool t => t.forecasts c.layout c.directory m
  | .source restore => Repository.sourceForecasts c.config c.layout c.directory restore m
  | .fork name => Repository.forkForecasts c.config c.layout c.directory name c.environment m

/-- **Every operation in a dry run predicts itself.** -/
theorem predicts_step (op : Operation) (c : Context) (m : Machine) :
    Predicts c.layout.root (op.step c true) (op.step c false) m (op.forecasts c m) := by
  cases op with
  | install version =>
      exact (Toolchain.predicts_install c.directory version c.layout).bind_pure Answer.toolchain
  | link version =>
      exact (Toolchain.predicts_linkDefault c.layout.root c.layout version).bind_pure Answer.path
  | base => exact (Repository.predicts_ensureBase c.layout.root c.layout).bind_pure Answer.path
  | tool t => exact (t.predicts_ensure c.layout.root c.directory c.layout).bind_pure Answer.tool
  | source restore =>
      exact (Repository.predicts_cloneSource c.layout.root c.directory c.config c.layout
        restore).bind_pure Answer.repository
  | fork name =>
      exact (Repository.predicts_cloneFork c.layout.root c.directory c.config c.layout name
        c.environment).bind_pure Answer.repository

/-- **A dry run answers as the operation does, and foretells its commands.**  Whatever the commands
do to the files: if the operation answers, then on the same machine the dry run has the same answer
and writes a forecast for each command that was launched, in order.  If the dry run fails, then the
operation fails in the same way, and nothing has been launched or changed. -/
theorem dry_run_predicts (op : Operation) (c : Context) (m : Machine) :
    (∀ a, ((op.step c false).perform m).1 = .ok a →
      ∃ records forecasts,
        (op.step c true).perform m = (.ok a, { m with log := m.log ++ records }) ∧
        records.filter (·.isForecast) = forecasts.map Forecast.record ∧
        List.Forall₂ (Forecast.MetBy c.layout.root) forecasts
          (((op.step c false).launched m).map (·.command))) ∧
      ∀ f, ((op.step c true).perform m).1 = .error f →
        (op.step c false).perform m = (.error f, m) ∧ (op.step c false).launched m = [] := by
  rcases op.predicts_step c m with ⟨e, hdry, hreal⟩ | ⟨a, records, hdry, hrecords, hmet⟩
  · constructor
    · intro a ha
      rw [hreal] at ha
      simp at ha
    · intro f hf
      rw [hdry] at hf
      obtain rfl : e = f := by simpa using hf
      exact ⟨hreal, launched_eq (by rw [hreal, List.append_nil])⟩
  · constructor
    · intro b hb
      obtain ⟨rfl, new, hlaunches, hnew⟩ := hmet b ((op.step c false).perform m).2
        (perform_of_toOption (by rw [hb]; rfl))
      refine ⟨records, op.forecasts c m, hdry, hrecords, ?_⟩
      rw [launched_eq hlaunches]
      exact hnew
    · intro f hf
      rw [hdry] at hf
      simp at hf

namespace Sample

/-- A context below the home directory of the small machine. -/
def context : Context where
  config := { sourceOrg := "acme", sourceRepo := "widgets", targetOrg := "pub",
              githubHost := "github.com", basePackage := "github.com/pub", rulesFile := "/rules" }
  layout := ⟨Path.ofString "/home/go", "github.com/pub"⟩
  environment := [("GIT_COMMITTER_NAME", "A B")]
  directory := Path.ofString "/home/go/src/github.com/pub"

/-- The small machine with a file in the place of a distribution. -/
def blocked : Machine :=
  let place : Location := ["home", "go", "go-1.9"]
  { Bootstrap.Sample.machine with
    files := { Bootstrap.Sample.machine.files with
      tree := (Bootstrap.Sample.machine.files.tree.put ["home", "go"] .directory).put place
        (.file "x".toUTF8 false) } }

end Sample

/-- A distribution that is missing is put in place on the small machine, which a dry run foretells;
with a file in its place both fail. -/
theorem dry_run_predicts_sample :
    let op : Operation := .install "1.9"
    let real := op.step Sample.context false
    let dry := op.step Sample.context true
    (real.perform Bootstrap.Sample.machine).1 = .ok (.toolchain .installed) ∧
      (dry.perform Bootstrap.Sample.machine).1 = .ok (.toolchain .installed) ∧
      (real.launched Bootstrap.Sample.machine).length = 1 ∧
      ((dry.perform Sample.blocked).1.toOption.isNone ∧
        (real.perform Sample.blocked).2.files = Sample.blocked.files ∧
        real.launched Sample.blocked = []) := by
  intro op real dry
  have hreal : (real.perform Bootstrap.Sample.machine).1 = .ok (.toolchain .installed) := by
    decide +kernel
  obtain ⟨records, forecasts, hdry, -, -⟩ :=
    (dry_run_predicts op Sample.context Bootstrap.Sample.machine).1 _ hreal
  have hfails : ∃ f, (dry.perform Sample.blocked).1 = .error f := by
    refine ⟨.toolchain (.notDirectory (Sample.context.layout.goDir "1.9")), ?_⟩
    decide +kernel
  obtain ⟨f, hf⟩ := hfails
  obtain ⟨hblocked, hlaunched⟩ := (dry_run_predicts op Sample.context Sample.blocked).2 f hf
  refine ⟨hreal, by rw [show dry.perform _ = _ from hdry], by decide +kernel, ?_, ?_, hlaunched⟩
  · rw [hf]
    rfl
  · rw [show real.perform Sample.blocked = _ from hblocked]

end Operation

end Provision
