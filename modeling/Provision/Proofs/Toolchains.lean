/-
**All distributions.**

Installing the distributions that the rules ask for goes through them one after the other.  As long
as the downloads stay in their staging directories, a round leaves every distribution alone but its
own: it finds it and does nothing, or fills its place with what its download has left, or fails and
leaves the files as they were but for the directories on the way to the root.  So when all rounds are
through every distribution is in its place, and when one of them fails those before it are, and those
behind it have not been touched.

Main definitions:

* `Provision.Toolchain.Turnout` — **what one round comes to**;
* `Provision.Toolchain.Provided` — a distribution that is in its place, and where it comes from;
* `Provision.Toolchain.Untouched` — a distribution that is as it was;
* `Provision.Toolchain.InProgress` — **what holds between two rounds**;
* `Provision.Toolchain.Provisioning` — **what installing all distributions comes to**.

Main results:

* `Provision.Toolchain.turnout_of_course` — a round turns out in one of these ways;
* `Provision.Toolchain.InProgress.existing`, `Provision.Toolchain.InProgress.installed` — one more
  distribution is in its place;
* `Provision.Toolchain.Rounds.next` — **the step from one round to the next**;
* `Provision.Toolchain.installAll_provides` — **installing all distributions provides each of them**.
-/

import Provision.Proofs.Clearing
import Provision.Proofs.Grammar
import Provision.Proofs.Roots

set_option relaxedAutoImplicit false
set_option autoImplicit false

namespace Provision

/-- **The download of a version has succeeded** in the staging directory with the number `n` in
`here`. -/
structure Launch.Downloads (l : Launch) (version : String) (layout : Layout) (here : Location)
    (n : Nat) : Prop where
  command : l.command = Toolchain.download version layout.root n
  ending : l.ending = .exited 0
  directory : l.before.resolve l.command.directory.toString true =
    .ok (here ++ [Toolchain.stagingName n])

namespace Toolchain

open Step

variable {version : String} {layout : Layout} {before fs fs' ext : FileSystem} {here : Location}
  {n : Nat} {l : Launch} {new new' : List Launch}

/-! ### One round -/

/-- **What one round comes to.** -/
inductive Turnout (version : String) (layout : Layout) (fs : FileSystem) :
    List Launch → FileSystem → Except Failure Status → Prop where
  /-- The distribution is there. -/
  | existing (found : fs.stat (layout.goDir version).toString = .ok .directory) :
      Turnout version layout fs [] fs (.ok .existing)
  /-- Its place has been filled by its download. -/
  | installed {here : Location} {n : Nat} {l : Launch} {fs' : FileSystem}
      (missing : fs.stat (layout.goDir version).toString = .error (.failed .noEntry))
      (download : l.Downloads version layout here n)
      (root : (fs.grownTo layout.root).reach layout.root = .ok here)
      (fills : Fills version here n (fs.grownTo layout.root) l fs')
      (leadsTo : fs'.LeadsTo (layout.goDir version).toString here ("go-" ++ version)) :
      Turnout version layout fs [l] fs' (.ok .installed)
  /-- There are at most some directories more on the way to the root. -/
  | failed {new : List Launch} {fs' : FileSystem} {e : Failure}
      (files : fs' = fs ∨ (fs.grownTo layout.root).Same fs') :
      Turnout version layout fs new fs' (.error e)

/-- The path of a version that has been put in place leads to it. -/
theorem leadsTo_of_fills {moved : FileSystem} (hroot : layout.root.Clean)
    (hversion : '/' ∉ version.toList) (hstaged : Staged layout fs ext here n l.before)
    (hl : l.Confined)
    (hrename : l.after.rename (staging layout.root n).toString (layout.goDir version).toString =
      .ok moved) (hfills : Fills version here n ext l fs') :
    fs'.LeadsTo (layout.goDir version).toString here ("go-" ++ version) := by
  obtain ⟨old, new, e, -, hnew, -⟩ := FileSystem.rename_eq_ok hrename
  obtain ⟨there, name, hto, rfl⟩ := FileSystem.place_eq_ok hnew
  have hdirectory : fs'.workingDirectory = l.after.workingDirectory := by
    rw [hfills.workingDirectory, hl.workingDirectory, hstaged.workingDirectory]
  have hreach := FileSystem.reach_of_gains hfills.gains hfills.workingDirectory hstaged.root
  exact hto.of_reach hroot (isPart_goName hversion) hdirectory hreach

/-- **A round turns out in one of these ways.** -/
theorem turnout_of_course (hroot : layout.root.Clean) (hversion : '/' ∉ version.toList)
    (htmp : ¬"tmp-".toList <+: version.toList) {r : Except Failure Status}
    (h : Course version layout fs new fs' r) (hconfined : ∀ l ∈ new, l.Confined) :
    Turnout version layout fs new fs' r := by
  cases h with
  | existing found => exact .existing found
  | prevented grows wellFormed files =>
      refine .failed (files.imp id fun hfiles => ?_)
      rw [hfiles]
      exact .refl _
  | @undone here n l e command staged =>
      have hl : l.Confined := hconfined l (List.mem_singleton_self l)
      exact .failed (Or.inr (same_of_removed staged command hl).1)
  | @installed moved here n l missing command staged ending rename =>
      have hl : l.Confined := hconfined l (List.mem_singleton_self l)
      have hfills := fills_of_rename hroot hversion (stagingName_ne htmp n) staged command hl rename
      exact .installed missing ⟨command, ending, staged.resolve command⟩ staged.root hfills
        (leadsTo_of_fills hroot hversion staged hl rename hfills)

/-! ### Distributions in their places -/

/-- Whether the distribution of a version is there. -/
def isThere (layout : Layout) (fs : FileSystem) (version : String) : Bool :=
  (fs.stat (layout.goDir version).toString).toOption = some .directory

/-- What becomes of a version: it is there, or it is put in place. -/
def statusOf (layout : Layout) (fs : FileSystem) (version : String) : Status :=
  if isThere layout fs version then .existing else .installed

theorem isThere_iff : isThere layout fs version = true ↔
    fs.stat (layout.goDir version).toString = .ok .directory := by
  unfold isThere
  cases fs.stat (layout.goDir version).toString <;> simp [Except.toOption]

theorem statusOf_of_found (h : fs.stat (layout.goDir version).toString = .ok .directory) :
    statusOf layout fs version = .existing := by
  rw [statusOf, if_pos (isThere_iff.2 h)]

theorem statusOf_of_missing (h : ∀ e, fs.stat (layout.goDir version).toString ≠ .ok e) :
    statusOf layout fs version = .installed := by
  rw [statusOf, if_neg fun hthere => h _ (isThere_iff.1 hthere)]

/-- The versions that are there, counted, -/
theorem count_existing (layout : Layout) (fs : FileSystem) (versions : List String) :
    (versions.map (statusOf layout fs)).count .existing = versions.countP (isThere layout fs) := by
  rw [List.count, List.countP_map]
  congr 1
  funext version
  cases h : isThere layout fs version <;> simp [statusOf, h]

/-- and the other ones. -/
theorem count_installed (layout : Layout) (fs : FileSystem) (versions : List String) :
    (versions.map (statusOf layout fs)).count .installed =
      versions.countP fun version => !isThere layout fs version := by
  rw [List.count, List.countP_map]
  congr 1
  funext version
  cases h : isThere layout fs version <;> simp [statusOf, h]

/-- **A distribution that is in its place** in the directory `here`: it was there before and is as it
was, or it was not and is what its own download has left in its staging directory. -/
inductive Provided (layout : Layout) (before : FileSystem) (here : Location) (new : List Launch)
    (fs : FileSystem) (version : String) : Status → Prop where
  | existing (found : before.stat (layout.goDir version).toString = .ok .directory)
      (place : fs.tree.get? (here ++ ["go-" ++ version]) = some .directory)
      (same : ∀ q, here ++ ["go-" ++ version] <+: q → fs.tree.get? q = before.tree.get? q) :
      Provided layout before here new fs version .existing
  | installed {n : Nat} {l : Launch}
      (missing : ∀ e, before.stat (layout.goDir version).toString ≠ .ok e)
      (place : fs.tree.get? (here ++ ["go-" ++ version]) = some .directory)
      (launched : l ∈ new)
      (download : l.Downloads version layout here n)
      (holds : ∀ rest, fs.tree.get? (here ++ ["go-" ++ version] ++ rest) =
        l.after.tree.get? (here ++ [stagingName n] ++ rest)) :
      Provided layout before here new fs version .installed

theorem Provided.place {status : Status} (h : Provided layout before here new fs version status) :
    fs.tree.get? (here ++ ["go-" ++ version]) = some .directory := by
  cases h with
  | existing found place same => exact place
  | installed missing place launched download holds => exact place

/-- A distribution stays in its place while nothing changes there. -/
theorem Provided.of_same {status : Status}
    (h : Provided layout before here new fs version status)
    (hsame : ∀ q, here ++ ["go-" ++ version] <+: q → fs'.tree.get? q = fs.tree.get? q)
    (hnew : new ⊆ new') : Provided layout before here new' fs' version status := by
  have hplace : fs'.tree.get? (here ++ ["go-" ++ version]) = some .directory := by
    rw [hsame _ (List.prefix_refl _), h.place]
  cases h with
  | existing found place same =>
      exact .existing found hplace fun q hq => by rw [hsame q hq, same q hq]
  | installed missing place launched download holds =>
      refine .installed missing hplace (hnew launched) download fun rest => ?_
      rw [hsame _ (List.prefix_append _ _), holds]

/-- **A distribution that is as it was**: its path finds what it has found, and nothing at or below its
place has changed. -/
structure Untouched (layout : Layout) (before fs : FileSystem) (version : String) : Prop where
  path : ∀ e, fs.lstat (layout.goDir version).toString = .ok e ↔
    before.lstat (layout.goDir version).toString = .ok e
  place : ∀ here, fs.reach layout.root = .ok here →
    ∀ q, here ++ ["go-" ++ version] <+: q → fs.tree.get? q = before.tree.get? q

theorem Untouched.refl (layout : Layout) (before : FileSystem) (version : String) :
    Untouched layout before before version := ⟨fun _ => Iff.rfl, fun _ _ _ _ => rfl⟩

theorem Untouched.of_same (h : Untouched layout before fs version) (hsame : fs.Same fs') :
    Untouched layout before fs' version where
  path _ := hsame.lstat_iff.trans (h.path _)
  place here hreach q hq := by rw [hsame.tree, h.place here (hsame.symm.reach hreach) q hq]

/-- Making the directories on the way to the root leaves a version alone that it does not disturb. -/
theorem untouched_grownTo (hbefore : before.WellFormed) (h : layout.Undisturbed before version) :
    Untouched layout before (before.grownTo layout.root) version := by
  obtain ⟨hgrows, -⟩ := FileSystem.extends_ensureDirectories hbefore layout.root
  exact ⟨fun e => ⟨h.path e, FileSystem.lstat_of_gains hgrows.grown.gains hgrows.workingDirectory⟩,
    h.place⟩

/-! ### Between two rounds -/

/-- **A version whose place is its own.** -/
structure Separate (layout : Layout) (fs : FileSystem) (version : String) : Prop where
  /-- It is one name, -/
  name : '/' ∉ version.toList
  /-- which no staging directory bears. -/
  staging : ¬"tmp-".toList <+: version.toList
  /-- There is no link in its place. -/
  noLink : ∀ text, fs.lstat (layout.goDir version).toString ≠ .ok (.link text)
  /-- Making the directories on the way to the root does not touch it. -/
  undisturbed : layout.Undisturbed fs version

/-- **What holds between two rounds**: `before` are the files before the first one, `done` are the
versions whose rounds are through, and `here` is the directory that the root leads to. -/
structure InProgress (layout : Layout) (before : FileSystem) (here : Location) (new : List Launch)
    (done : List String) (fs : FileSystem) : Prop where
  wellFormed : fs.WellFormed
  workingDirectory : fs.workingDirectory = (before.grownTo layout.root).workingDirectory
  start : (before.grownTo layout.root).reach layout.root = .ok here
  gains : (before.grownTo layout.root).tree.Gains fs.tree
  /-- Every distribution whose round is through is found, -/
  found : ∀ version ∈ done, fs.stat (layout.goDir version).toString = .ok .directory
  /-- and is in its place. -/
  provided : ∀ version ∈ done,
    Provided layout before here new fs version (statusOf layout before version)
  /-- No other place below the root has changed. -/
  pending : ∀ version, version ∉ done → ∀ q, here ++ ["go-" ++ version] <+: q →
    fs.tree.get? q = (before.grownTo layout.root).tree.get? q

/-- The places of two versions are apart. -/
theorem places_apart {version' : String} {q : Location} (hne : version ≠ version')
    (hq : here ++ ["go-" ++ version] <+: q) : ¬here ++ ["go-" ++ version'] <+: q := by
  intro hq'
  have hlength : (here ++ ["go-" ++ version]).length = (here ++ ["go-" ++ version']).length := by simp
  have hsame := (List.prefix_of_prefix_length_le hq hq' (Nat.le_of_eq hlength)).eq_of_length hlength
  exact hne (by simpa using hsame)

namespace InProgress

variable {done : List String} (h : InProgress layout before here new done fs)
include h

theorem root : fs.reach layout.root = .ok here :=
  FileSystem.reach_of_gains h.gains h.workingDirectory h.start

theorem of_same (hsame : fs.Same fs') : InProgress layout before here new done fs' where
  wellFormed := hsame.wellFormed h.wellFormed
  workingDirectory := hsame.workingDirectory.trans h.workingDirectory
  start := h.start
  gains := h.gains.trans hsame.gains
  found v hv := FileSystem.stat_of_gains hsame.gains hsame.workingDirectory (h.found v hv)
  provided v hv := (h.provided v hv).of_same (fun q _ => hsame.tree q) fun _ hl => hl
  pending v hv q hq := by rw [hsame.tree, h.pending v hv q hq]

section

variable (hroot : layout.root.Clean) (hbefore : before.WellFormed) (hv : version ∉ done)
  (hseparate : Separate layout before version)
include hroot hbefore hv hseparate

/-- A version whose round is still to come is as it was. -/
theorem untouched : Untouched layout before fs version where
  path e := by
    obtain ⟨hgrows, -⟩ := FileSystem.extends_ensureDirectories hbefore layout.root
    have hpart := isPart_goName hseparate.name
    refine ⟨fun he => hseparate.undisturbed.path e ?_, fun he => ?_⟩
    -- what the path finds now was in its place when the rounds began
    · obtain ⟨there, hreach, hleads, hget⟩ :=
        FileSystem.leadsTo_of_lstat_ok hroot hpart (goName_ne version (by decide)) he
      obtain rfl : here = there := by simpa [h.root] using hreach
      rw [h.pending version hv _ (List.prefix_refl _)] at hget
      exact (hleads.of_reach hroot hpart h.workingDirectory.symm h.start).lstat_eq hget
    · exact FileSystem.lstat_of_gains (hgrows.grown.gains.trans h.gains)
        (h.workingDirectory.trans hgrows.workingDirectory) he
  place there hreach q hq := by
    obtain rfl : here = there := by simpa [h.root] using hreach
    rw [h.pending version hv q hq, hseparate.undisturbed.place here h.start q hq]

/-- **A distribution that is found was there before**, and is in its place. -/
theorem existing (hfound : fs.stat (layout.goDir version).toString = .ok .directory) :
    statusOf layout before version = .existing ∧
      InProgress layout before here new (done ++ [version]) fs := by
  have hpart := isPart_goName hseparate.name
  have hdots : "go-" ++ version ≠ ".." := goName_ne version (by decide)
  have huntouched := h.untouched hroot hbefore hv hseparate
  have hlstat := FileSystem.lstat_of_stat_ok hroot hpart hdots hfound fun text htext =>
    hseparate.noLink text ((huntouched.path _).1 htext)
  obtain ⟨there, hreach, -, hget⟩ := FileSystem.leadsTo_of_lstat_ok hroot hpart hdots hlstat
  obtain rfl : here = there := by simpa [h.root] using hreach
  have hthere := FileSystem.stat_of_lstat_directory hroot hpart hdots ((huntouched.path _).1 hlstat)
  have hstatus := statusOf_of_found hthere
  have hprovided : Provided layout before here new fs version (statusOf layout before version) := by
    rw [hstatus]
    exact .existing hthere hget (huntouched.place here h.root)
  exact ⟨hstatus, { h with
    found := List.forall_mem_append.2 ⟨h.found, by simpa using hfound⟩
    provided := List.forall_mem_append.2 ⟨h.provided, by simpa using hprovided⟩
    pending := fun v hout => h.pending v fun hin => hout (List.mem_append_left _ hin) }⟩

end

/-- **A distribution whose place is filled by its download is in its place**, and no other one is
touched. -/
theorem installed (hv : version ∉ done)
    (hmissing : ∀ e, before.stat (layout.goDir version).toString ≠ .ok e)
    (hdownload : l.Downloads version layout here n) (hfills : Fills version here n fs l fs')
    (hfound : fs'.stat (layout.goDir version).toString = .ok .directory) :
    InProgress layout before here (new ++ [l]) (done ++ [version]) fs' where
  wellFormed := h.wellFormed.of_gains hfills.gains hfills.workingDirectory hfills.closed
  workingDirectory := hfills.workingDirectory.trans h.workingDirectory
  start := h.start
  gains := h.gains.trans hfills.gains
  found := by
    refine List.forall_mem_append.2 ⟨fun v hin => ?_, by simpa using hfound⟩
    exact FileSystem.stat_of_gains hfills.gains hfills.workingDirectory (h.found v hin)
  provided := by
    refine List.forall_mem_append.2 ⟨fun v hin => ?_, ?_⟩
    · have hne : v ≠ version := by
        rintro rfl
        exact hv hin
      exact (h.provided v hin).of_same (fun q hq => hfills.others q (places_apart hne hq))
        (List.subset_append_left _ _)
    · rw [List.forall_mem_singleton, statusOf_of_missing hmissing]
      exact .installed hmissing hfills.place (by simp) hdownload hfills.holds
  pending := by
    intro v hout q hq
    rw [List.mem_append, List.mem_singleton, not_or] at hout
    rw [hfills.others q (places_apart hout.2 hq), h.pending v hout.1 q hq]

end InProgress

/-- Some rounds have been made, or none yet. -/
def Between (layout : Layout) (before : FileSystem) (new : List Launch) (done : List String)
    (fs : FileSystem) : Prop :=
  (fs = before ∧ done = []) ∨ ∃ here, InProgress layout before here new done fs

/-- A distribution that is in its place, in the directory that the root leads to once it is made. -/
def InPlace (layout : Layout) (before : FileSystem) (new : List Launch) (fs : FileSystem)
    (version : String) : Prop :=
  ∃ here, (before.grownTo layout.root).reach layout.root = .ok here ∧
    Provided layout before here new fs version (statusOf layout before version)

namespace Between

variable {done : List String} (h : Between layout before new done fs)
  (hroot : layout.root.Clean) (hbefore : before.WellFormed)
include h hbefore

theorem wellFormed : fs.WellFormed := by
  rcases h with ⟨rfl, -⟩ | ⟨here, h⟩
  · exact hbefore
  · exact h.wellFormed

theorem gains : before.tree.Gains fs.tree ∧ fs.workingDirectory = before.workingDirectory := by
  rcases h with ⟨rfl, -⟩ | ⟨here, h⟩
  · exact ⟨.refl _, rfl⟩
  · obtain ⟨hgrows, -⟩ := FileSystem.extends_ensureDirectories hbefore layout.root
    exact ⟨hgrows.grown.gains.trans h.gains, h.workingDirectory.trans hgrows.workingDirectory⟩

include hroot

/-- Once the root is there, the rounds are in progress. -/
theorem of_grownTo (hreach : (fs.grownTo layout.root).reach layout.root = .ok here) :
    InProgress layout before here new done (fs.grownTo layout.root) := by
  rcases h with ⟨rfl, rfl⟩ | ⟨there, h⟩
  · obtain ⟨-, hgrown⟩ := FileSystem.extends_ensureDirectories hbefore layout.root
    exact ⟨hgrown, rfl, hreach, .refl _, by simp, by simp, fun _ _ _ _ => rfl⟩
  · have hsame := FileSystem.same_of_reach h.wellFormed hroot h.root
    obtain rfl : here = there := by simpa [hsame.reach h.root] using hreach.symm
    exact h.of_same hsame

theorem of_reach (hreach : fs.reach layout.root = .ok here) :
    InProgress layout before here new done fs := by
  have hsame := FileSystem.same_of_reach (h.wellFormed hbefore) hroot hreach
  exact (h.of_grownTo hroot hbefore (hsame.reach hreach)).of_same hsame.symm

/-- **A round that goes through puts one more distribution in its place.** -/
theorem provide {status : Status} (hv : version ∉ done) (hseparate : Separate layout before version)
    (hround : Turnout version layout fs new' fs' (.ok status)) :
    status = statusOf layout before version ∧
      ∃ here, InProgress layout before here (new ++ new') (done ++ [version]) fs' := by
  cases hround with
  | existing found =>
      obtain ⟨there, hresolve, -⟩ := FileSystem.parts_of_ok found
      obtain ⟨here, hreach, -⟩ := FileSystem.leadsTo_of_resolve hroot
        (isPart_goName hseparate.name) (goName_ne version (by decide)) hresolve
      obtain ⟨hstatus, hnext⟩ :=
        (h.of_reach hroot hbefore hreach).existing hroot hbefore hv hseparate found
      rw [List.append_nil]
      exact ⟨hstatus.symm, here, hnext⟩
  | @installed here n l fs' missing download root fills leadsTo =>
      obtain ⟨hgains, hworking⟩ := h.gains hbefore
      have hmissing : ∀ e, before.stat (layout.goDir version).toString ≠ .ok e := by
        intro e he
        have hlater := FileSystem.stat_of_gains hgains hworking he
        rw [missing] at hlater
        simp at hlater
      exact ⟨(statusOf_of_missing hmissing).symm, here,
        (h.of_grownTo hroot hbefore root).installed hv hmissing download fills
          (leadsTo.stat_eq fills.place (by simp))⟩

/-- **A round that fails leaves what has been done as it is, and what is still to be done as it was.** -/
theorem stop {e : Failure} (hround : Turnout version layout fs new' fs' (.error e)) :
    (∀ v ∈ done, fs'.stat (layout.goDir v).toString = .ok .directory ∧
      InPlace layout before (new ++ new') fs' v) ∧
    ∀ v, v ∉ done → Separate layout before v → Untouched layout before fs' v := by
  cases hround with
  | failed files =>
    rcases h with ⟨rfl, rfl⟩ | ⟨here, h⟩
    · refine ⟨by simp, fun v _ hseparate => ?_⟩
      rcases files with rfl | hsame
      · exact .refl _ _ _
      · exact (untouched_grownTo hbefore hseparate.undisturbed).of_same hsame
    · have hsame : fs.Same fs' := by
        rcases files with rfl | hsame
        · exact .refl _
        · exact (FileSystem.same_of_reach h.wellFormed hroot h.root).trans hsame
      have h' := h.of_same hsame
      refine ⟨fun v hv => ⟨h'.found v hv, here, h'.start, ?_⟩,
        fun v hv hseparate => h'.untouched hroot hbefore hv hseparate⟩
      exact (h'.provided v hv).of_same (fun _ _ => rfl) (List.subset_append_left _ _)

end Between

/-! ### All rounds -/

/-- **What the rounds that have been made from `m` on come to**: what they have launched, and, if that
is confined, where the distributions are and what the answers were. -/
def Rounds (layout : Layout) (m : Machine) (done : List (String × Status)) (m₁ : Machine) : Prop :=
  ∃ new, m₁.launches = m.launches ++ new ∧ ((∀ l ∈ new, l.Confined) →
    Between layout m.files new (done.map Prod.fst) m₁.files ∧
      done.map Prod.snd = (done.map Prod.fst).map (statusOf layout m.files))

section

variable {runner : Runner} (hdry : runner.dryRun = false) (hroot : layout.root.Clean)
include hdry hroot

/-- What one round launches, and how it turns out. -/
theorem turnout_of_install (hversion : '/' ∉ version.toList) (htmp : ¬"tmp-".toList <+: version.toList)
    (m : Machine) :
    ∃ new, ((install version layout runner).perform m).2.launches = m.launches ++ new ∧
      (m.files.WellFormed → (∀ l ∈ new, l.Confined) →
        Turnout version layout m.files new ((install version layout runner).perform m).2.files
          ((install version layout runner).perform m).1) := by
  obtain ⟨_, -, new, hcarries⟩ := follows_install hdry version layout m
  have hlaunches := hcarries.continues.launches
  refine ⟨new, hlaunches, fun hfs hconfined => ?_⟩
  obtain ⟨new', hlaunches', hcourse⟩ := course_of_install hdry hroot version hfs
  obtain rfl : new = new' := List.append_cancel_left (hlaunches.symm.trans hlaunches')
  exact turnout_of_course hroot hversion htmp hcourse hconfined

variable {m m₁ m₂ : Machine} {done : List (String × Status)} (h : Rounds layout m done m₁)
  (hfs : m.files.WellFormed) (hseparate : Separate layout m.files version)
include h hfs hseparate

/-- **One more round.** -/
theorem Rounds.next {status : Status} (hv : version ∉ done.map Prod.fst)
    (hround : (install version layout runner).perform m₁ = (.ok status, m₂)) :
    Rounds layout m (done ++ [(version, status)]) m₂ := by
  obtain ⟨new, hlaunches, hbetween⟩ := h
  obtain ⟨new', hlaunches', hturnout⟩ :=
    turnout_of_install hdry hroot hseparate.name hseparate.staging m₁
  rw [hround] at hlaunches' hturnout
  refine ⟨new ++ new', by rw [hlaunches', hlaunches, List.append_assoc], fun hconfined => ?_⟩
  rw [List.forall_mem_append] at hconfined
  obtain ⟨hrounds, hstatuses⟩ := hbetween hconfined.1
  obtain ⟨rfl, here, hnext⟩ := hrounds.provide hroot hfs hv hseparate
    (hturnout (hrounds.wellFormed hfs) hconfined.2)
  refine ⟨Or.inr ⟨here, ?_⟩, ?_⟩
  · simpa using hnext
  · simpa using hstatuses

/-- **A round that fails.** -/
theorem Rounds.stop {e : Failure}
    (hround : (install version layout runner).perform m₁ = (.error e, m₂)) :
    ∃ new, m₂.launches = m.launches ++ new ∧ ((∀ l ∈ new, l.Confined) →
      done.map Prod.snd = (done.map Prod.fst).map (statusOf layout m.files) ∧
      (∀ v ∈ done.map Prod.fst, m₂.files.stat (layout.goDir v).toString = .ok .directory ∧
        InPlace layout m.files new m₂.files v) ∧
      ∀ v, v ∉ done.map Prod.fst → Separate layout m.files v →
        Untouched layout m.files m₂.files v) := by
  obtain ⟨new, hlaunches, hbetween⟩ := h
  obtain ⟨new', hlaunches', hturnout⟩ :=
    turnout_of_install hdry hroot hseparate.name hseparate.staging m₁
  rw [hround] at hlaunches' hturnout
  refine ⟨new ++ new', by rw [hlaunches', hlaunches, List.append_assoc], fun hconfined => ?_⟩
  rw [List.forall_mem_append] at hconfined
  obtain ⟨hrounds, hstatuses⟩ := hbetween hconfined.1
  exact ⟨hstatuses,
    hrounds.stop hroot hfs (hturnout (hrounds.wellFormed hfs) hconfined.2)⟩

end

/-- Removing the link, or making it, leaves every distribution where it is. -/
theorem Provided.of_relinks {there : Location} {status : Status}
    (h : Provided layout before here new fs version status)
    (hreach : fs.reach layout.root = .ok here) (hrelinks : Relinks layout there fs fs') :
    Provided layout before here new fs' version status := by
  obtain rfl : here = there := by simpa [hreach] using hrelinks.root
  refine h.of_same (fun q hq => hrelinks.others q ?_) fun _ hl => hl
  rintro rfl
  exact FileSystem.not_prefix_of_ne here (goName_ne version (by decide)) hq

/-- **What installing all distributions comes to**, from the machine `m` on: `new` are the launches. -/
inductive Provisioning (rules : List RepositoryRule) (layout : Layout) (runner : Runner) (m : Machine)
    (new : List Launch) : Except Failure (List Status) → Machine → Prop where
  /-- Every distribution is in its place, and so is the link. -/
  | complete {here : Location} {m' : Machine}
      (root : m'.files.reach layout.root = .ok here)
      (found : ∀ v ∈ Rules.goVersions rules,
        m'.files.stat (layout.goDir v).toString = .ok .directory)
      (provided : ∀ v ∈ Rules.goVersions rules,
        Provided layout m.files here new m'.files v (statusOf layout m.files v))
      (link : m'.files.lstat layout.goLink.toString =
        .ok (.link (layout.goDir Rules.defaultGoVersion).toString)) :
      Provisioning rules layout runner m new
        (.ok ((Rules.goVersions rules).map (statusOf layout m.files))) m'
  /-- One of the versions has failed: those before it are in their places, and it and those behind it
  are as they were. -/
  | stopped {done later : List String} {m₁ m' : Machine} {e : Failure} {version : String}
      (split : Rules.goVersions rules = done ++ version :: later)
      (earlier : (done.mapM fun v => install v layout runner).perform m =
        (.ok (done.map (statusOf layout m.files)), m₁))
      (failed : (install version layout runner).perform m₁ = (.error e, m'))
      (found : ∀ v ∈ done, m'.files.stat (layout.goDir v).toString = .ok .directory)
      (provided : ∀ v ∈ done, InPlace layout m.files new m'.files v)
      (untouched : ∀ v ∈ version :: later, Untouched layout m.files m'.files v) :
      Provisioning rules layout runner m new (.error e) m'
  /-- All distributions are in their places, but the link could not be made. -/
  | unlinked {m₁ m' : Machine} {e : Failure}
      (earlier : ((Rules.goVersions rules).mapM fun v => install v layout runner).perform m =
        (.ok ((Rules.goVersions rules).map (statusOf layout m.files)), m₁))
      (found : ∀ v ∈ Rules.goVersions rules,
        m₁.files.stat (layout.goDir v).toString = .ok .directory)
      (failed : (linkDefault layout Rules.defaultGoVersion false).perform m₁ = (.error e, m'))
      (provided : ∀ v ∈ Rules.goVersions rules, InPlace layout m.files new m'.files v) :
      Provisioning rules layout runner m new (.error e) m'

/-- Behind the last round the link is made. -/
theorem provisioning_of_link {rules : List RepositoryRule} {runner : Runner} {m m₁ m' : Machine}
    {r : Except Failure Path} (hroot : layout.root.Clean)
    (hversions : ∀ v ∈ Rules.goVersions rules, '/' ∉ v.toList)
    (h : InProgress layout m.files here new (Rules.goVersions rules) m₁.files)
    (hrounds : ((Rules.goVersions rules).mapM fun v => install v layout runner).perform m =
      (.ok ((Rules.goVersions rules).map (statusOf layout m.files)), m₁))
    (hlink : (linkDefault layout Rules.defaultGoVersion false).perform m₁ = (r, m')) :
    Provisioning rules layout runner m new
      (r.map fun _ => (Rules.goVersions rules).map (statusOf layout m.files)) m' := by
  obtain ⟨r', m₂, hperform, -, -, hworking, hfiles, hmade⟩ :=
    relinks_of_linkDefault hroot h.wellFormed
  obtain ⟨rfl, rfl⟩ : r = r' ∧ m' = m₂ := by simpa [hlink] using hperform
  cases r with
  | error e =>
      refine .unlinked hrounds h.found hlink fun v hv => ⟨here, h.start, ?_⟩
      rcases hfiles with hsame | ⟨there, hrelinks⟩
      · rw [hsame]
        exact h.provided v hv
      · exact (h.provided v hv).of_relinks h.root hrelinks
  | ok link =>
      obtain ⟨there, hrelinks, hlinked⟩ := hmade link rfl
      obtain rfl : here = there := by simpa [h.root] using hrelinks.root
      have hprovided : ∀ v ∈ Rules.goVersions rules,
          Provided layout m.files here new m'.files v (statusOf layout m.files v) :=
        fun v hv => (h.provided v hv).of_relinks h.root hrelinks
      refine .complete hlinked.root (fun v hv => ?_) hprovided
        (hlinked.leadsTo.lstat_eq hlinked.link)
      have hpart := isPart_goName (hversions v hv)
      obtain ⟨there, hresolve, -⟩ := FileSystem.parts_of_ok (h.found v hv)
      obtain ⟨there, -, hleads, -⟩ :=
        FileSystem.leadsTo_of_resolve hroot hpart (goName_ne v (by decide)) hresolve
      exact (hleads.of_reach hroot hpart hworking hlinked.root).stat_eq (hprovided v hv).place
        (by simp)

section

variable {rules : List RepositoryRule} {runner : Runner} (hdry : runner.dryRun = false)
  (hroot : layout.root.Clean) {m : Machine} (hfs : m.files.WellFormed)
  (hseparate : ∀ v ∈ Rules.goVersions rules, Separate layout m.files v)
include hdry hroot hfs hseparate

/-- **The rounds go through, or stop at the first one that fails.** -/
theorem rounds_cases :
    (∃ done m₁, done.map Prod.fst = Rules.goVersions rules ∧ Rounds layout m done m₁ ∧
      ((Rules.goVersions rules).mapM fun v => install v layout runner).perform m =
        (.ok (done.map Prod.snd), m₁)) ∨
    ∃ done v later m₁ e m', Rules.goVersions rules = done.map Prod.fst ++ v :: later ∧
      Rounds layout m done m₁ ∧
      ((done.map Prod.fst).mapM fun v => install v layout runner).perform m =
        (.ok (done.map Prod.snd), m₁) ∧
      (install v layout runner).perform m₁ = (.error e, m') ∧
      ((Rules.goVersions rules).mapM fun v => install v layout runner).perform m =
        (.error e, m') := by
  have hfirst : Rounds layout m [] m :=
    ⟨[], by simp, fun _ => ⟨Or.inl ⟨rfl, rfl⟩, rfl⟩⟩
  have hround : ∀ (done : List (String × Status)) v later m₁ status m₂,
      Rules.goVersions rules = done.map Prod.fst ++ v :: later → Rounds layout m done m₁ →
      (install v layout runner).perform m₁ = (.ok status, m₂) →
      Rounds layout m (done ++ [(v, status)]) m₂ := by
    intro done v later m₁ status m₂ hall hrounds hround
    have hnodup := Rules.nodup_goVersions rules
    rw [hall] at hnodup
    have hv : v ∉ done.map Prod.fst := fun hin =>
      (List.nodup_append.1 hnodup).2.2 v hin v (List.mem_cons_self ..) rfl
    exact hrounds.next hdry hroot hfs (hseparate v (by rw [hall]; simp)) hv hround
  exact Step.mapM_cases hround (Rules.goVersions rules) rfl hfirst

/-- **Installing all distributions provides each of them**, if the downloads are confined and each
version has a place of its own; and if it fails then what has been provided by then is in its place,
and everything else is as it was. -/
theorem installAll_provides {m' : Machine} {r : Except Failure (List Status)}
    (hperform : (installAll rules layout runner).perform m = (r, m'))
    (hconfined : ∀ l ∈ (installAll rules layout runner).launched m, l.Confined) :
    Provisioning rules layout runner m ((installAll rules layout runner).launched m) r m' ∧
      ∀ statuses, r = .ok statuses →
        statuses.count .existing = (Rules.goVersions rules).countP (isThere layout m.files) ∧
        statuses.count .installed =
          (Rules.goVersions rules).countP fun v => !isThere layout m.files v := by
  have hperform' := hperform
  rw [installAll] at hperform'
  rcases rounds_cases hdry hroot hfs hseparate with
    ⟨done, m₁, hdone, ⟨new, hlaunches, hrounds⟩, hloop⟩ |
      ⟨done, v, later, m₁, e, m₂, hsplit, hrounds, hearlier, hfailed, hloop⟩
  · rw [perform_bind_ok hloop, hdry, perform_bind_pure] at hperform'
    obtain ⟨r', m₂, hlink, hsilent, -⟩ := linkDefault_cases layout Rules.defaultGoVersion m₁
    rw [hlink] at hperform'
    obtain ⟨rfl, rfl⟩ : r'.map (fun _ => done.map Prod.snd) = r ∧ m₂ = m' := by simpa using hperform'
    have hnew : (installAll rules layout runner).launched m = new :=
      launched_eq (by rw [hperform, hsilent, hlaunches])
    rw [hnew] at hconfined ⊢
    obtain ⟨hbetween, hstatuses⟩ := hrounds hconfined
    rw [hdone] at hbetween hstatuses
    rw [hstatuses] at hloop ⊢
    obtain ⟨-, hnone⟩ | ⟨here, hprogress⟩ := hbetween
    · obtain ⟨others, hothers⟩ := Rules.exists_goVersions_eq rules
      simp [hothers] at hnone
    refine ⟨provisioning_of_link hroot (fun v hv => (hseparate v hv).name) hprogress hloop hlink,
      fun statuses hr => ?_⟩
    obtain rfl : (Rules.goVersions rules).map (statusOf layout m.files) = statuses := by
      cases r' with
      | error e => simp [Except.map] at hr
      | ok link => simpa [Except.map] using hr
    exact ⟨count_existing _ _ _, count_installed _ _ _⟩
  · rw [perform_bind_error hloop] at hperform'
    obtain ⟨rfl, rfl⟩ : Except.error e = r ∧ m₂ = m' := by simpa using hperform'
    have hv := hseparate v (by rw [hsplit]; simp)
    obtain ⟨new, hlaunches, hstop⟩ := hrounds.stop hdry hroot hfs hv hfailed
    have hnew : (installAll rules layout runner).launched m = new :=
      launched_eq (by rw [hperform, hlaunches])
    rw [hnew] at hconfined ⊢
    obtain ⟨hstatuses, hdone, hothers⟩ := hstop hconfined
    rw [hstatuses] at hearlier
    refine ⟨.stopped hsplit hearlier hfailed (fun v hv => (hdone v hv).1)
      (fun v hv => (hdone v hv).2) fun v hv => ?_, by simp⟩
    have hnodup := Rules.nodup_goVersions rules
    rw [hsplit] at hnodup
    exact hothers v (fun hin => (List.nodup_append.1 hnodup).2.2 v hin v hv rfl)
      (hseparate v (by rw [hsplit]; exact List.mem_append_right _ hv))

end

namespace Sample

/-- Rules that ask for version 1.9 next to the default one. -/
def rules : List RepositoryRule := [⟨"fork", [⟨"main", "1.9"⟩]⟩]

/-- A root whose way goes through the place of version 1.9. -/
def roundabout : Layout := ⟨Path.ofString "/home/go-1.9/..", "example.org"⟩

/-- A machine with a home directory, on which downloads do nothing. -/
def bare : Machine where
  files := ⟨⟨[(["home"], .directory)]⟩, []⟩

/-- Installing below the root whose way goes through the place of version 1.9. -/
def detour : Step (List Status) := installAll rules roundabout ⟨roundabout.root, false⟩

/-- The machine on which a download leaves a file, with version 1.9 in its place. -/
def half : Machine := { unpacking with
  files := ⟨⟨[(["home"], .directory), (["home", "go"], .directory),
    (["home", "go", "go-1.9"], .directory)]⟩, []⟩ }

/-- Installing what is missing there. -/
def completing : Step (List Status) := installAll rules workspace ⟨workspace.root, false⟩

theorem confined_detour : ∀ l ∈ detour.launched bare, l.Confined := by
  have hall : ∀ l ∈ detour.launched bare, l.after.tree.Closed ∧ l.after = l.before := by
    decide +kernel
  exact fun l hl => Launch.confined_of_same (hall l hl).1 (hall l hl).2

theorem confined_completing : ∀ l ∈ completing.launched half, l.Confined := by
  have hall : ∀ l ∈ completing.launched half, l.after.tree.Closed ∧
      (l.before.resolve l.command.directory.toString true).toOption =
        some ["home", "go", "go-tmp-1"] ∧
      l.after = { l.before with
        tree := l.before.tree.put ["home", "go", "go-tmp-1", "VERSION"]
          (.file "go1.9".toUTF8 false) } := by
    decide +kernel
  intro l hl
  obtain ⟨hclosed, hresolve, hafter⟩ := hall l hl
  exact Launch.confined_of_put hclosed (FileSystem.ok_of_toOption hresolve)
    (List.cons_ne_nil "VERSION" []) hafter

end Sample

/-- Making the directories on the way to a root makes a directory in the place of version 1.9, which
is then taken for the distribution. -/
theorem roundabout_root_skips_version :
    Sample.roundabout.root.Clean ∧ Sample.bare.files.WellFormed ∧
      (∀ v ∈ Rules.goVersions Sample.rules, '/' ∉ v.toList ∧ ¬"tmp-".toList <+: v.toList ∧
        ∀ text, Sample.bare.files.lstat (Sample.roundabout.goDir v).toString ≠ .ok (.link text)) ∧
      (∀ l ∈ Sample.detour.launched Sample.bare, l.Confined) ∧
      Rules.goVersions Sample.rules = ["1.10.2", "1.9"] ∧
      (Rules.goVersions Sample.rules).countP (isThere Sample.roundabout Sample.bare.files) = 0 ∧
      (Sample.detour.perform Sample.bare).1 = .ok [.installed, .existing] ∧
      (Sample.detour.launched Sample.bare).map (fun l => l.command) =
        [download "1.10.2" Sample.roundabout.root 1] := by
  have hlinks : ∀ v ∈ Rules.goVersions Sample.rules, '/' ∉ v.toList ∧
      ¬"tmp-".toList <+: v.toList ∧
      (Sample.bare.files.lstat (Sample.roundabout.goDir v).toString).toOption = none := by
    decide +kernel
  refine ⟨Path.clean_ofString _, ⟨by decide, by decide⟩, fun v hv => ?_, Sample.confined_detour,
    by decide +kernel, by decide +kernel, FileSystem.ok_of_toOption (by decide +kernel),
    by decide +kernel⟩
  obtain ⟨hname, hstaging, hnone⟩ := hlinks v hv
  refine ⟨hname, hstaging, fun text htext => ?_⟩
  rw [htext] at hnone
  simp [Except.toOption] at hnone

/-- One of the two distributions is there, and the other one is downloaded. -/
theorem installAll_provides_sample :
    Sample.workspace.root.Clean ∧ Sample.half.files.WellFormed ∧
      (∀ v ∈ Rules.goVersions Sample.rules, Separate Sample.workspace Sample.half.files v) ∧
      (∀ l ∈ Sample.completing.launched Sample.half, l.Confined) ∧
      (Sample.completing.perform Sample.half).1 = .ok [.installed, .existing] ∧
      Provisioning Sample.rules Sample.workspace ⟨Sample.workspace.root, false⟩ Sample.half
        (Sample.completing.launched Sample.half) (Sample.completing.perform Sample.half).1
        (Sample.completing.perform Sample.half).2 := by
  have hfs : Sample.half.files.WellFormed := ⟨by decide, by decide⟩
  have hreach : Sample.half.files.reach Sample.workspace.root = .ok ["home", "go"] :=
    FileSystem.ok_of_toOption (by decide +kernel)
  have hversions : ∀ v ∈ Rules.goVersions Sample.rules, '/' ∉ v.toList ∧
      ¬"tmp-".toList <+: v.toList ∧
      ((Sample.half.files.lstat (Sample.workspace.goDir v).toString).toOption = none ∨
        (Sample.half.files.lstat (Sample.workspace.goDir v).toString).toOption =
          some .directory) := by
    decide +kernel
  have hseparate : ∀ v ∈ Rules.goVersions Sample.rules,
      Separate Sample.workspace Sample.half.files v := by
    intro v hv
    obtain ⟨hname, hstaging, hlstat⟩ := hversions v hv
    refine ⟨hname, hstaging, fun text htext => ?_,
      Layout.undisturbed_of_reach (Path.clean_ofString _) hfs hreach v⟩
    rw [htext] at hlstat
    simp [Except.toOption] at hlstat
  have hprovides := installAll_provides rfl (Path.clean_ofString _) hfs hseparate
    (Prod.eta (Sample.completing.perform Sample.half)).symm Sample.confined_completing
  exact ⟨Path.clean_ofString _, hfs, hseparate, Sample.confined_completing,
    FileSystem.ok_of_toOption (by decide +kernel), hprovides.1⟩

end Toolchain

end Provision
