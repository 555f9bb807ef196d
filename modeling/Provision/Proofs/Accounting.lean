/-
**What the summary counts.**

Every step of a run answers with a status, and the summary counts the statuses.  Here each status is
held against what the step has really done: against its launches, or in a dry run against the
records that it has written instead.  The account is kept along the steps.  Beside a step stand the
efforts that were made before it and those that have been made when it answers, and a step counts
if the tally of the machine has grown by exactly the difference.

Main definitions:

* `Provision.Machine.tally` — the commands of a kind that were launched, or announced in a dry run;
* `Provision.Step.Accounts` — **a step whose answer says which efforts it has made**;
* `Provision.Step.Answers` — what holds of every answer of a step;
* `Provision.Summary.number` — the number of the summary for a kind of effort;
* `Provision.Summary.printed` — the lines of a printed summary.

Main results:

* `Provision.Runner.accounts_run` — running a command counts as what its first words say;
* `Provision.Bootstrap.summary_of_carryOut` — the summary of a plan that was carried out;
* `Provision.Summary.lines_text` — the record of a summary has the printed lines;
* `Provision.Bootstrap.summary_accounts` — **the summary accounts for every step exactly once**.
-/

import Provision.Proofs.Announcements
import Provision.Proofs.Tasks

set_option relaxedAutoImplicit false
set_option autoImplicit false

namespace Provision

/-- **The tally of a machine**: how many commands of a kind it has launched or, for dry runs,
announced. -/
def Machine.tally (dry : Bool) (m : Machine) (k : Effort) : Nat :=
  if dry then m.log.countP k.announcedBy else m.launches.countP fun l => k.takes l.command

/-! ### Statuses -/

theorem Effort.count_toList (made : Option Effort) (k : Effort) :
    made.toList.count k = if decide (made = some k) then 1 else 0 := by
  cases made with
  | none => rfl
  | some k' => simp [List.count_singleton]

/-- What has been done for a distribution with a status. -/
def Toolchain.Status.efforts : Toolchain.Status → List Effort
  | existing => []
  | installed => [.download]

/-- What has been done for a tool with a status. -/
def Tool.Status.efforts : Option Tool.Status → List Effort
  | some installed => [.build]
  | some existing | none => []

/-- What has been done for a repository with a status. -/
def Repository.Status.efforts : Repository.Status → List Effort
  | cloned => [.clone]
  | refreshed => [.refresh]
  | existing => []

namespace Step

variable {α β : Type} {dry : Bool} {before : List Effort}

/-! ### Keeping the account -/

/-- **A step whose answer says which efforts it has made.**  If the efforts `before` were made
earlier, then by its answer `a` the efforts `done a` have been made. -/
def Accounts (dry : Bool) (before : List Effort) (s : Step α) (done : α → List Effort) : Prop :=
  ∀ m a m', s.perform m = (.ok a, m') →
    ∀ k, m'.tally dry k + before.count k = m.tally dry k + (done a).count k

/-- An answer that is given when the efforts it stands for have been made. -/
theorem accounts_pure (done : α → List Effort) (a : α) :
    (pure a : Step α).Accounts dry (done a) done := by
  intro m b m' h k
  obtain ⟨rfl, rfl⟩ : a = b ∧ m = m' := by simpa using h
  rfl

/-- A failure answers nothing. -/
theorem accounts_throw (f : Failure) (done : α → List Effort) :
    (throw f : Step α).Accounts dry before done := by
  intro m b m' h
  simp at h

theorem accounts_refused (r : Refusal) (failed : Errno → Failure) (done : α → List Effort) :
    (refused r failed : Step α).Accounts dry before done := by
  intro m b m' h
  simp at h

/-- **The account of one step after the other.** -/
theorem Accounts.bind {s : Step α} {f : α → Step β} {middle : α → List Effort}
    {done : β → List Effort} (hs : s.Accounts dry before middle)
    (hf : ∀ a, (f a).Accounts dry (middle a) done) : (s >>= f).Accounts dry before done := by
  intro m b m' h k
  obtain ⟨a, m₁, hfirst, hrest⟩ := perform_bind_eq_ok.1 h
  have h₁ := hs m a m₁ hfirst k
  have h₂ := hf a m₁ b m' hrest k
  omega

/-- Efforts made still earlier stay made. -/
theorem Accounts.append {s : Step α} {done : α → List Effort}
    (hs : s.Accounts dry before done) (earlier : List Effort) :
    s.Accounts dry (earlier ++ before) fun a => earlier ++ done a := by
  intro m a m' h k
  have := hs m a m' h k
  simp only [List.count_append]
  omega

/-- What becomes of a list of things, one after the other. -/
theorem accounts_mapM {f : α → Step β} {done : β → List Effort}
    (hf : ∀ a, (f a).Accounts dry [] done) (l : List α) :
    (l.mapM f).Accounts dry [] fun bs => bs.flatMap done := by
  induction l with
  | nil => exact accounts_pure (fun bs => bs.flatMap done) []
  | cons a l ih =>
      rw [List.mapM_cons]
      refine (hf a).bind fun b => ?_
      have hrest := ih.append (done b)
      rw [List.append_nil] at hrest
      exact hrest.bind fun bs => accounts_pure (fun bs => bs.flatMap done) (b :: bs)

/-! ### Steps without efforts -/

/-- A step that leaves the machine as it is makes no effort. -/
theorem Still.accounts {s : Step α} (h : s.Still) : s.Accounts dry before fun _ => before := by
  intro m a m' hs k
  have := h m
  rw [hs] at this
  rw [show m' = m from this]

theorem accounts_files : files.Accounts dry before fun _ => before := still_files.accounts

theorem accounts_found (path : Path) : (found path).Accounts dry before fun _ => before :=
  (still_found path).accounts

/-- A step that launches nothing makes no effort, if there is no dry run. -/
theorem Silent.accounts {s : Step α} (hs : s.Silent) :
    s.Accounts false before fun _ => before := by
  intro m a m' h k
  have hlaunches := (hs m).launches
  rw [h, List.append_nil] at hlaunches
  simp [Machine.tally, show m'.launches = m.launches from hlaunches]

/-- A step that launches nothing and announces nothing makes no effort. -/
theorem Silent.accounts_of_writes {s : Step α} (hs : s.Silent)
    (h : s.Writes fun r => ∀ k : Effort, k.announcedBy r = false) :
    s.Accounts dry before fun _ => before := by
  cases dry with
  | false => exact hs.accounts
  | true =>
      intro m a m' hperform k
      obtain ⟨records, hlog, hrecords⟩ := h m
      rw [hperform] at hlog
      have hnone : records.countP k.announcedBy = 0 :=
        List.countP_eq_zero.2 fun r hr => by simp [hrecords r hr k]
      simp only [Machine.tally, if_true, show m'.log = m.log ++ records from hlog,
        List.countP_append, hnone, Nat.add_zero]

/-- In a dry run a record makes the effort that it announces. -/
theorem accounts_announcement {level : Log.Level} {message : String} (made : Option Effort)
    (h : ∀ k : Effort, k.announcedBy ⟨level, message⟩ = decide (made = some k)) :
    (log level message).Accounts true before fun _ => before ++ made.toList := by
  intro m a m' hlog k
  obtain rfl : { m with log := m.log ++ [⟨level, message⟩] } = m' := by simpa using hlog
  simp only [Machine.tally, if_true, List.countP_append, List.countP_singleton,
    List.count_append, h, Effort.count_toList]
  omega

/-- A record that opens with a foreign text is no effort. -/
theorem accounts_log (s : String) {level : Log.Level} {message : String}
    (hs : Effort.Foreign s.toList = true) (h : s.toList <+: message.toList) :
    (log level message).Accounts dry before fun _ => before := by
  cases dry with
  | false => exact (quiet_log level message).silent.accounts
  | true =>
      have hnone : (log level message).Accounts true before fun _ => before ++ none.toList :=
        accounts_announcement none fun k => by simp [Effort.announcedBy_eq_false hs h]
      simpa using hnone

/-- Outside of dry runs a step makes the efforts that the commands it follows stand for. -/
theorem accounts_of_follows {s : Step α} (made : List Effort)
    (hs : ∀ m, ∃ wanted, s.Follows m wanted ∧ ∀ k : Effort, wanted.countP k.takes = made.count k) :
    s.Accounts false before fun _ => before ++ made := by
  intro m a m' h k
  obtain ⟨wanted, ⟨new, hnew⟩, hcount⟩ := hs m
  rw [h] at hnew
  have hmap : new.countP (fun l => k.takes l.command) = made.count k := by
    rw [← hcount k, ← hnew.complete a rfl, List.countP_map]
    rfl
  have hlaunches : m'.launches = m.launches ++ new := hnew.continues.launches
  simp only [Machine.tally, hlaunches, Bool.false_eq_true, if_false, List.countP_append,
    List.count_append, hmap]
  omega

/-! ### What holds of every answer -/

/-- Every answer of the step has the property. -/
def Answers (s : Step α) (P : α → Prop) : Prop := ∀ m a m', s.perform m = (.ok a, m') → P a

theorem answers_pure {P : α → Prop} {a : α} (h : P a) : (pure a : Step α).Answers P := by
  intro m b m' hb
  obtain ⟨rfl, -⟩ : a = b ∧ m = m' := by simpa using hb
  exact h

theorem answers_bind {s : Step α} {f : α → Step β} {P : β → Prop} (hf : ∀ a, (f a).Answers P) :
    (s >>= f).Answers P := by
  intro m b m' h
  obtain ⟨a, m₁, -, hrest⟩ := perform_bind_eq_ok.1 h
  exact hf a m₁ b m' hrest

/-- There are as many answers as questions, and what holds of each answer holds of all. -/
theorem answers_mapM {f : α → Step β} {P : β → Prop} (hf : ∀ a, (f a).Answers P) (l : List α) :
    (l.mapM f).Answers fun bs => bs.length = l.length ∧ ∀ b ∈ bs, P b := by
  induction l with
  | nil => exact answers_pure ⟨rfl, by simp⟩
  | cons a l ih =>
      rw [List.mapM_cons]
      intro m bs m' h
      obtain ⟨b, m₁, hb, h⟩ := perform_bind_eq_ok.1 h
      obtain ⟨bs', m₂, hbs, h⟩ := perform_bind_eq_ok.1 h
      obtain ⟨rfl, -⟩ : b :: bs' = bs ∧ m₂ = m' := by simpa using h
      obtain ⟨hlength, hall⟩ := ih m₁ bs' m₂ hbs
      exact ⟨by simp [hlength], by simpa using ⟨hf a m b m₁ hb, hall⟩⟩

end Step

open Step

/-! ### Commands -/

variable {runner : Runner} {before : List Effort}

/-- **Running a command counts as what its first words say**, be it launched or only announced. -/
theorem Runner.accounts_run (ws : List String) (made : Option Effort)
    (h : Effort.Tells ws made = true) (hdownload : made ≠ some .download) (x : String)
    (xs : List String) (directory : Option Path) :
    (runner.run (ws ++ x :: xs) directory).Accounts runner.dryRun before
      fun _ => before ++ made.toList := by
  cases hdry : runner.dryRun with
  | true =>
      simp only [run, hdry, if_true]
      refine accounts_announcement _ fun k => ?_
      rw [String.append_assoc]
      exact Effort.announcedBy_wouldRun h x xs .info _ k
  | false =>
      refine accounts_of_follows _ fun m => ⟨_, follows_run hdry _ directory m ?_, fun k => ?_⟩
      · have := Effort.takes_of_tells h (x :: xs) (directory.getD runner.directory) .download
        simp only [hdownload, decide_false] at this
        exact this
      · rw [List.countP_singleton, Effort.takes_of_tells h, Effort.count_toList]

/-! ### Distributions -/

theorem Toolchain.accounts_install (version : String) (layout : Layout) :
    (install version layout runner).Accounts runner.dryRun [] Status.efforts := by
  refine accounts_files.bind fun fs => ?_
  split
  · exact (accounts_log "Found existing go " (by decide +kernel) (by simp)).bind fun _ =>
      accounts_pure Status.efforts .existing
  · exact accounts_throw _ _
  · exact accounts_throw _ _
  · have hrest : (do
        info ("Installing go " ++ version ++ " to " ++ (layout.goDir version).toString)
        if runner.dryRun then do
          info ("Dry run: would download " ++ archiveUrl version)
          return Status.installed
        else do
          fetch version layout runner
          return Status.installed : Step Status).Accounts runner.dryRun [] Status.efforts := by
      refine (accounts_log "Installing go " (by decide +kernel) (by simp)).bind fun _ => ?_
      cases hdry : runner.dryRun with
      | true =>
          refine Accounts.bind ?_ fun _ => accounts_pure Status.efforts .installed
          refine accounts_announcement (some .download) fun k => ?_
          rw [Effort.announcedBy_wouldDownload]
          cases k <;> rfl
      | false =>
          refine Accounts.bind ?_ fun _ => accounts_pure Status.efforts .installed
          refine accounts_of_follows [.download] fun m => ?_
          obtain ⟨n, h⟩ := follows_fetch hdry version layout m
          exact ⟨_, h, fun k => by
            cases k <;> simp [Effort.takes, Effort.words, download, List.isPrefixOf]⟩
    dsimp only
    split
    · exact (accounts_throw _ fun _ => []).bind fun _ => hrest
    · exact hrest

theorem Toolchain.accounts_linkDefault (layout : Layout) (version : String) (dryRun : Bool) :
    (linkDefault layout version dryRun).Accounts dryRun before fun _ => before := by
  cases dryRun with
  | true =>
      simp only [linkDefault, if_true]
      exact (accounts_log "Dry run: would link " (by decide +kernel) (by simp)).bind fun _ =>
        accounts_pure (fun _ => before) _
  | false => exact (silent_linkDefault layout version false).accounts

/-- **Distributions**: there is a status for each version. -/
theorem Toolchain.accounts_installAll (rules : List RepositoryRule) (layout : Layout) :
    (installAll rules layout runner).Accounts runner.dryRun [] fun go => go.flatMap Status.efforts :=
  (accounts_mapM (fun version => accounts_install version layout) _).bind fun statuses =>
    (accounts_linkDefault layout _ _).bind fun _ =>
      accounts_pure (fun go => go.flatMap Status.efforts) statuses

theorem Toolchain.answers_installAll (rules : List RepositoryRule) (layout : Layout) :
    (installAll rules layout runner).Answers fun go =>
      go.length = (Rules.goVersions rules).length := by
  intro m go m' h
  obtain ⟨statuses, m₁, hmap, h⟩ := perform_bind_eq_ok.1 h
  obtain ⟨_, m₂, -, h⟩ := perform_bind_eq_ok.1 h
  obtain ⟨rfl, -⟩ : statuses = go ∧ m₂ = m' := by simpa using h
  exact (answers_mapM (P := fun _ => True) (fun _ _ _ _ _ => trivial) _ m _ m₁ hmap).1

/-! ### Tools and repositories -/

theorem Bootstrap.accounts_ensureTool (layout : Layout) (tool : Tool) (skip : Bool) :
    (ensureTool layout runner tool skip).Accounts runner.dryRun [] Tool.Status.efforts := by
  unfold ensureTool
  split
  · exact (accounts_log "Skipping " (by decide +kernel) (by simp)).bind fun _ =>
      accounts_pure Tool.Status.efforts none
  · refine Accounts.bind (?_ : Accounts runner.dryRun [] (tool.ensure layout runner) fun status =>
      Tool.Status.efforts (some status)) fun status =>
        accounts_pure Tool.Status.efforts (some status)
    refine still_get.accounts.bind fun m => ?_
    split
    · exact (accounts_log "Already installed: " (by decide +kernel) (by simp)).bind fun _ =>
        accounts_pure (fun status => Tool.Status.efforts (some status)) .existing
    · -- of the three commands only the first one counts
      refine (accounts_log "Installing " (by decide +kernel) (by simp)).bind fun _ => ?_
      refine (Runner.accounts_run ["go", "get"] (some .build) (by decide +kernel)
        (by decide) _ [] none).bind fun _ => ?_
      refine (Runner.accounts_run ["git", "checkout"] none (by decide +kernel)
        (by decide) _ [] (some _)).bind fun _ => ?_
      refine (Runner.accounts_run ["go", "install"] none (by decide +kernel)
        (by decide) _ [] (some _)).bind fun _ => ?_
      exact accounts_pure (fun status => Tool.Status.efforts (some status)) .installed

namespace Repository

theorem accounts_ensureBase (layout : Layout) (dryRun : Bool) :
    (ensureBase layout dryRun).Accounts dryRun before fun _ => before := by
  cases dryRun with
  | false => exact (silent_ensureBase layout false).accounts
  | true =>
      refine (accounts_found _).bind fun there => ?_
      split
      · refine accounts_files.bind fun fs => ?_
        split
        · exact (accounts_log "Reusing existing" (by decide +kernel) (by simp)).bind fun _ =>
            accounts_pure (fun _ => before) _
        · exact accounts_throw _ _
        · exact accounts_refused _ _ _
      · exact (accounts_log "Dry run: would create" (by decide +kernel) (by simp)).bind fun _ =>
          accounts_pure (fun _ => before) _

/-- Cloning is the one command that counts for a fresh clone. -/
theorem accounts_clone (url : String) :
    (Git.clone runner url).Accounts runner.dryRun before fun _ => before ++ [.clone] :=
  Runner.accounts_run ["git", "clone"] (some .clone) (by decide +kernel)
    (by decide) url [] none

theorem accounts_cloneSource (config : Config) (layout : Layout) (restore : Bool) :
    (cloneSource config layout runner restore).Accounts runner.dryRun [] Status.efforts := by
  refine (accounts_found _).bind fun there => ?_
  split
  · exact (accounts_log "Source repository " (by decide +kernel) (by simp)).bind fun _ =>
      accounts_pure Status.efforts .existing
  · refine (accounts_log "Cloning source repository " (by decide +kernel) (by simp)).bind fun _ => ?_
    refine (accounts_clone _).bind fun _ => ?_
    split
    · refine (accounts_log "Running " (by decide +kernel) (by simp)).bind fun _ => ?_
      refine (Runner.accounts_run ["bash", "-x"] none (by decide +kernel)
        (by decide) _ [] (some _)).bind fun _ => ?_
      exact accounts_pure Status.efforts .cloned
    · exact accounts_pure Status.efforts .cloned

theorem accounts_cloneFork (config : Config) (layout : Layout) (name : String)
    (environment : Environment) :
    (cloneFork config layout runner name environment).Accounts runner.dryRun [] Status.efforts := by
  refine (accounts_found _).bind fun there => ?_
  split
  · refine (accounts_log "Fork repository " (by decide +kernel) (by simp)).bind fun _ => ?_
    refine (Runner.accounts_run ["git", "remote", "set-url", "origin"] (some .refresh)
      (by decide +kernel) (by decide) _ [] (some _)).bind fun _ => ?_
    cases hdry : runner.dryRun with
    | true =>
        exact (accounts_log "Dry run: would remove" (by decide +kernel) (by simp)).bind fun _ =>
          accounts_pure Status.efforts .refreshed
    | false =>
        exact (Git.silent_removeIndexLock _).accounts.bind fun _ =>
          accounts_pure Status.efforts .refreshed
  · refine (accounts_log "Cloning fork repository " (by decide +kernel) (by simp)).bind fun _ => ?_
    refine (accounts_clone _).bind fun _ => ?_
    refine (Runner.accounts_run ["git", "config", "user.name"] none
      (by decide +kernel) (by decide) _ [] (some _)).bind fun _ => ?_
    refine (Runner.accounts_run ["git", "config", "user.email"] none
      (by decide +kernel) (by decide) _ [] (some _)).bind fun _ => ?_
    exact accounts_pure Status.efforts .cloned

/-- A fork is never left alone. -/
theorem answers_cloneFork (config : Config) (layout : Layout) (name : String)
    (environment : Environment) :
    (cloneFork config layout runner name environment).Answers (· ≠ .existing) := by
  have hrefreshed : (pure .refreshed : Step Status).Answers (· ≠ .existing) :=
    answers_pure (by decide)
  have hcloned : (pure .cloned : Step Status).Answers (· ≠ .existing) := answers_pure (by decide)
  refine answers_bind fun there => ?_
  split
  · refine answers_bind fun _ => answers_bind fun _ => ?_
    split
    · exact answers_bind fun _ => hrefreshed
    · exact answers_bind fun _ => hrefreshed
  · exact answers_bind fun _ => answers_bind fun _ => answers_bind fun _ => answers_bind fun _ =>
      hcloned

end Repository

/-! ### The summary -/

/-- The number in the summary for a kind of effort. -/
def Summary.number (s : Summary) : Effort → Int
  | .download => s.goInstalled
  | .build => s.toolsInstalled
  | .clone => s.reposCloned
  | .refresh => s.reposRefreshed

/-- **The lines of a printed summary**: a title that is underlined and, behind each label, its number
in decimal digits. -/
def Summary.printed (s : Summary) (dryRun : Bool) : List String :=
  ["INFO: ",
    if dryRun then "Init Summary (dry-run)" else "Init Summary",
    if dryRun then "----------------------" else "------------",
    "Go installed    : " ++ toString s.goInstalled ++ " (toolchain versions downloaded)",
    "Go existing     : " ++ toString s.goExisting ++ " (toolchain versions already present)",
    "Tools installed : " ++ toString s.toolsInstalled ++ " (dependency managers built)",
    "Tools existing  : " ++ toString s.toolsExisting ++ " (dependency managers already on PATH)",
    "Tools skipped   : " ++ toString s.toolsSkipped ++ " (disabled by flags)",
    "Repos cloned    : " ++ toString s.reposCloned ++ " (fresh clones)",
    "Repos refreshed : " ++ toString s.reposRefreshed ++ " (fork remotes reset)",
    "Repos existing  : " ++ toString s.reposExisting ++ " (source repository already cloned)"]

/-- A line of the summary, by what stands in front of its number and behind it. -/
theorem Summary.row_eq (label what : String) (count : Int) {opening ending : String}
    (hopening : padded 15 label ++ " : " = opening) (hending : " (" ++ what ++ ")" = ending) :
    padded 15 label ++ " : " ++ toString count ++ " (" ++ what ++ ")" =
      opening ++ toString count ++ ending := by
  rw [← hopening, ← hending]
  simp only [String.append_assoc]

/-- The text of a summary is made of the printed lines. -/
theorem Summary.text_eq (s : Summary) (dryRun : Bool) :
    s.text dryRun = "\n".intercalate ("" :: (s.printed dryRun).tail) := by
  have hwidth : (s.rows.map fun row => row.1.length).foldl max 0 = 15 := by cbv
  rw [text, hwidth]
  simp only [rows, printed, List.map_cons, List.map_nil, List.tail_cons]
  refine congrArg (fun ls => "\n".intercalate ("" :: ls)) ?_
  simp only [List.cons.injEq, and_true]
  refine ⟨rfl, by cases dryRun <;> decide, ?_⟩
  refine ⟨row_eq _ _ _ ?_ ?_, row_eq _ _ _ ?_ ?_, row_eq _ _ _ ?_ ?_, row_eq _ _ _ ?_ ?_,
    row_eq _ _ _ ?_ ?_, row_eq _ _ _ ?_ ?_, row_eq _ _ _ ?_ ?_, row_eq _ _ _ ?_ ?_⟩ <;> decide

theorem newline_not_mem_repr (n : Int) : '\n' ∉ n.repr.toList := by
  have hdigits : ∀ k : Nat, '\n' ∉ k.repr.toList := by
    intro k h
    have hdigit := Nat.isDigit_of_mem_toDigits (b := 10) (n := k) (c := '\n') (by decide) (by decide)
      (by simpa using h)
    exact absurd hdigit (by decide)
  rw [Int.repr_eq_if]
  split
  · exact hdigits _
  · rw [String.toList_append, List.mem_append, not_or]
    exact ⟨by decide, hdigits _⟩

/-- **The record of a summary has the printed lines.** -/
theorem Summary.lines_text (s : Summary) (dryRun : Bool) :
    (⟨.info, s.text dryRun⟩ : Log.Record).lines = s.printed dryRun := by
  have hrow : ∀ (opening ending : String) (n : Int), '\n' ∉ Text.chars opening →
      '\n' ∉ Text.chars ending → '\n' ∉ (opening ++ toString n ++ ending).toList := by
    intro opening ending n hopening hending
    rw [Text.chars_eq] at hopening hending
    simp [hopening, hending, newline_not_mem_repr n]
  rw [text_eq, Log.Record.lines_intercalate]
  · rfl
  · simp only [printed, List.tail_cons, List.forall_mem_cons, List.not_mem_nil, false_imp_iff,
      implies_true, and_true]
    refine ⟨by decide, by cases dryRun <;> decide, by cases dryRun <;> decide, ?_⟩
    refine ⟨hrow _ _ _ ?_ ?_, hrow _ _ _ ?_ ?_, hrow _ _ _ ?_ ?_, hrow _ _ _ ?_ ?_,
      hrow _ _ _ ?_ ?_, hrow _ _ _ ?_ ?_, hrow _ _ _ ?_ ?_, hrow _ _ _ ?_ ?_⟩ <;> decide

/-- **A summary that leaves nothing out**: each version, both tools, the source repository and each
fork are counted once, and only the source repository can be there already. -/
structure Summary.Complete (s : Summary) (rules : List RepositoryRule) : Prop where
  go : s.goInstalled + s.goExisting = (Rules.goVersions rules).length
  tools : s.toolsInstalled + s.toolsExisting + s.toolsSkipped = 2
  repos : s.reposCloned + s.reposRefreshed + s.reposExisting = 1 + rules.length
  existing : s.reposExisting ≤ 1

theorem Toolchain.count_statuses (go : List Status) :
    go.count .installed + go.count .existing = go.length := by
  induction go with
  | nil => rfl
  | cons status go ih => cases status <;> simp <;> omega

theorem Toolchain.count_efforts (go : List Status) (k : Effort) :
    (go.flatMap Status.efforts).count k = if k = .download then go.count .installed else 0 := by
  induction go with
  | nil => simp
  | cons status go ih =>
      rw [List.flatMap_cons, List.count_append, ih]
      cases status <;> cases k <;> simp [Status.efforts]
      omega

theorem Repository.count_statuses (repos : List Status) :
    repos.count .cloned + repos.count .refreshed + repos.count .existing = repos.length := by
  induction repos with
  | nil => rfl
  | cons status repos ih => cases status <;> simp <;> omega

theorem Repository.count_efforts (repos : List Status) (k : Effort) :
    (repos.flatMap Status.efforts).count k =
      if k = .clone then repos.count .cloned else
        if k = .refresh then repos.count .refreshed else 0 := by
  induction repos with
  | nil => simp
  | cons status repos ih =>
      rw [List.flatMap_cons, List.count_append, ih]
      cases status <;> cases k <;> simp [Status.efforts] <;> omega

namespace Bootstrap

/-- **The summary of a plan that was carried out** leaves nothing out, and its numbers are those by
which the tally has grown. -/
theorem summary_of_carryOut {p : Plan} {s : Summary} {m m' : Machine}
    (h : (carryOut p).perform m = (.ok s, m')) :
    s.Complete p.rules ∧ ∀ k, (m'.tally p.arguments.dryRun k : Int) =
      m.tally p.arguments.dryRun k + s.number k := by
  have hrunner : p.runner.dryRun = p.arguments.dryRun := rfl
  obtain ⟨go, m₁, hgo, h⟩ := perform_bind_eq_ok.1 h
  obtain ⟨base, m₂, hbase, h⟩ := perform_bind_eq_ok.1 h
  obtain ⟨godep, m₃, hgodep, h⟩ := perform_bind_eq_ok.1 h
  obtain ⟨dep, m₄, hdep, h⟩ := perform_bind_eq_ok.1 h
  obtain ⟨source, m₅, hsource, h⟩ := perform_bind_eq_ok.1 h
  obtain ⟨forks, m₆, hforks, h⟩ := perform_bind_eq_ok.1 h
  obtain ⟨rfl, rfl⟩ : Summary.ofStatuses go [godep, dep] (source :: forks) = s ∧ m₆ = m' := by
    simpa using h
  -- how many answers there are
  have hgos := Toolchain.answers_installAll p.rules p.layout m go m₁ hgo
  obtain ⟨hlength, hstatus⟩ := answers_mapM (fun name =>
    Repository.answers_cloneFork p.config p.layout name p.environment) _ m₅ forks m₆ hforks
  have hexisting : forks.count .existing = 0 :=
    List.count_eq_zero.2 fun hmem => hstatus _ hmem rfl
  constructor
  · constructor
    · have := Toolchain.count_statuses go
      simp only [Summary.ofStatuses]
      omega
    · simp only [Summary.ofStatuses]
      rcases godep with _ | (_ | _) <;> rcases dep with _ | (_ | _) <;> rfl
    · have := Repository.count_statuses (source :: forks)
      simp only [Rules.destinations, List.length_map, List.length_cons] at hlength this
      simp only [Summary.ofStatuses]
      omega
    · simp only [Summary.ofStatuses, List.count_cons, hexisting]
      split <;> decide
  · intro k
    have h₁ := Toolchain.accounts_installAll p.rules p.layout m go m₁ hgo k
    have h₂ := @Repository.accounts_ensureBase [] p.layout _ m₁ base m₂ hbase k
    have h₃ := accounts_ensureTool p.layout .godep _ m₂ godep m₃ hgodep k
    have h₄ := accounts_ensureTool p.layout .dep _ m₃ dep m₄ hdep k
    have h₅ := Repository.accounts_cloneSource p.config p.layout _ m₄ source m₅ hsource k
    have h₆ := accounts_mapM (fun name =>
      Repository.accounts_cloneFork p.config p.layout name p.environment) _ m₅ forks m₆ hforks k
    rw [hrunner] at h₁ h₃ h₄ h₅ h₆
    have hrepos := Repository.count_efforts (source :: forks) k
    rw [List.flatMap_cons, List.count_append] at hrepos
    have hgo := Toolchain.count_efforts go k
    have htools : (Tool.Status.efforts godep ++ Tool.Status.efforts dep).count k =
        if k = .build then [godep, dep].count (some .installed) else 0 := by
      rcases godep with _ | (_ | _) <;> rcases dep with _ | (_ | _) <;> cases k <;> rfl
    rw [List.count_append] at htools
    cases k <;> simp only [Summary.number, Summary.ofStatuses, List.count_nil, reduceCtorEq,
      if_true, if_false] at * <;> omega

end Bootstrap

/-! ### Runs -/

section

variable {dry : Bool}

namespace Bootstrap

/-- Preparing a plan makes no effort. -/
theorem accounts_prepare (a : Arguments) : (prepare a).Accounts dry before fun _ => before := by
  refine (quiet_prepare a).silent.accounts_of_writes (writes_prepare ?_ a)
  intro s hs level message h
  have hforeign : ∀ s ∈ preparations, Effort.Foreign s.toList = true := by decide +kernel
  exact Effort.announcedBy_eq_false (hforeign s hs) h

/-- Writing the summary makes no effort. -/
theorem accounts_report (s : Summary) (dryRun : Bool) :
    (s.report dryRun).Accounts dry before fun _ => before := by
  refine accounts_log "\n" (by decide +kernel) ?_
  rw [Summary.text, String.intercalate_cons_cons, String.empty_append, String.toList_append]
  exact List.prefix_append _ _

/-- The records from some level on are shown, the last one last. -/
theorem lines_isSuffix_shown (least : Log.Level) (records : List Log.Record) (r : Log.Record)
    (h : least.rank ≤ r.level.rank) : r.lines <:+ Log.shown least (records ++ [r]) := by
  simp [Log.shown, h]

/-- **The summary accounts for every step of a run exactly once.**  A run that returns zero has made
a plan and prints at its end the lines of a summary that leaves nothing of the plan out; and for each
kind of effort the number of the summary is that of the commands that the run has launched or, in a
dry run, announced. -/
theorem summary_accounts (words : List String) (m : Machine)
    (hexit : (run words m).1.exit = .returned 0) :
    ∃ (a : Arguments) (p : Plan) (m₁ : Machine) (s : Summary),
      Arguments.read words = .run a ∧
      (prepare a).perform { m with log := [] } = (.ok p, m₁) ∧
      s.printed a.dryRun <:+ (run words m).1.errors ∧
      s.Complete p.rules ∧
      (a.dryRun = false → ∀ k : Effort,
        s.number k = (launchesOf words m).countP fun l => k.takes l.command) ∧
      (a.dryRun = true → ∀ k : Effort,
        s.number k = (run words m).2.log.countP k.announcedBy) := by
  cases hread : Arguments.read words with
  | help => simp [run, hread, dismissal] at hexit
  | wrong e => simp [run, hread, dismissal] at hexit
  | run a =>
      -- the plan, the work and the summary of the run
      rcases hwork : (setUp a).perform { m with log := [] } with ⟨r, m₃⟩
      obtain rfl : r = .ok () := by
        rw [run_exit hread, hwork] at hexit
        exact result_of_returned_zero hexit
      obtain ⟨p, m₁, hplan, h⟩ := perform_bind_eq_ok.1 hwork
      obtain ⟨s, m₂, hcarry, hreport⟩ := perform_bind_eq_ok.1 h
      have harguments : p.arguments = a := (plan_of_prepare hplan).1
      obtain ⟨hcomplete, hnumber⟩ := summary_of_carryOut hcarry
      rw [harguments] at hnumber
      have hlog : m₃.log = m₂.log ++ [⟨.info, s.text a.dryRun⟩] := by
        simp only [Summary.report, perform_info, Prod.mk.injEq, true_and] at hreport
        rw [← hreport]
      have hmachine : (run words m).2 = m₃ := by
        rw [run_machine hread, hwork]
        rfl
      -- the tally has grown by the numbers of the summary
      have htally : ∀ k, (m₃.tally a.dryRun k : Int) =
          Machine.tally a.dryRun { m with log := [] } k + s.number k := by
        intro k
        have h₁ := @accounts_prepare [] a.dryRun a _ p m₁ hplan k
        have h₂ := @accounts_report [] a.dryRun s a.dryRun m₂ () m₃ hreport k
        simp only [List.count_nil] at h₁ h₂
        have := hnumber k
        omega
      refine ⟨a, p, m₁, s, rfl, hplan, ?_, hcomplete, ?_, ?_⟩
      · have herrors : (run words m).1.errors =
            Log.shown (if a.verbose then .debug else .info) m₃.log := by
          simp only [run, hread, hwork]
          rfl
        have hrank : ∀ verbose : Bool, (if verbose then Log.Level.debug else .info).rank ≤
            Log.Level.info.rank := by decide
        rw [herrors, hlog, ← Summary.lines_text]
        exact lines_isSuffix_shown _ _ _ (hrank a.verbose)
      · intro hdry k
        have hlaunches : m₃.launches = m.launches ++ launchesOf words m := by
          rw [← hmachine]
          exact (continues_run hread hdry m).launches
        have := htally k
        simp only [Machine.tally, hdry, hlaunches, Bool.false_eq_true, if_false,
          List.countP_append] at this
        omega
      · intro hdry k
        have := htally k
        simp only [Machine.tally, hdry, if_true, List.countP_nil] at this
        rw [hmachine]
        omega

/-- A run of the small machine downloads two distributions, builds two tools and clones two
repositories, and says so. -/
theorem summary_accounts_sample :
    (run Sample.words Sample.machine).1.exit = .returned 0 ∧
      (∃ s : Summary, s.printed false <:+ (run Sample.words Sample.machine).1.errors ∧
        Effort.all.map s.number = [2, 2, 2, 0]) ∧
      "Go installed    : 2 (toolchain versions downloaded)" ∈
        (run Sample.words Sample.machine).1.errors := by
  obtain ⟨hexit, -, hopenings⟩ := Sample.run_words
  have hlaunched : (Effort.all.map fun k => ((launchesOf Sample.words Sample.machine).countP
      fun l => k.takes l.command : Int)) = [2, 2, 2, 0] :=
    congrArg (List.map Nat.cast) hopenings
  obtain ⟨a, p, m₁, s, hread, -, hlines, -, hnumber, -⟩ :=
    summary_accounts Sample.words Sample.machine hexit
  obtain rfl : Sample.arguments = a := Arguments.Outcome.run.inj (Sample.read_words.symm.trans hread)
  have hnumbers : Effort.all.map s.number = [2, 2, 2, 0] := by
    rw [← hlaunched]
    exact List.map_congr_left fun k _ => hnumber rfl k
  refine ⟨hexit, ⟨s, hlines, hnumbers⟩, hlines.subset ?_⟩
  have hgo : s.goInstalled = 2 := (List.cons.inj hnumbers).1
  have hline : "Go installed    : 2 (toolchain versions downloaded)" =
      "Go installed    : " ++ toString s.goInstalled ++ " (toolchain versions downloaded)" := by
    rw [hgo]
    decide
  rw [hline]
  simp [Summary.printed]

end Bootstrap

end

end Provision
