/-
**The failures that escape.**

A run reports the failures that it knows, and ends with a code.  Some failures it does not know: a
document that is no text; one that overruns, by a number, by half a character or by going too deep; a
home directory that is unknown; a NUL character in a path; and a test for a path that is refused because
a name is too long.  Each step of a run is looked at for the failures that it lets out, and for what
they say about the machine that it was performed on.

Main definitions:

* `Provision.Step.LetsOut` — **what a step lets out**;
* `Provision.Homeless`, `Provision.Unreadable` — what is wrong with a path, or with a document;
* `Provision.Bootstrap.Plan.Stumbles` — what goes wrong with a task;
* `Provision.Bootstrap.Escapes` — **all that can go wrong with a run and is not reported**.

Main results:

* `Provision.Bootstrap.letsOut_prepare`, `Provision.Bootstrap.Plan.letsOut_step` — reading the
  documents, and each task;
* `Provision.Bootstrap.Plan.letsOut_forM` — all tasks;
* `Provision.Bootstrap.run_reports_failures` — **every other failure is turned into a code**;
* `Provision.Bootstrap.undecodable_rules_escape` — one that is not.
-/

import Provision.Proofs.Installation
import Provision.Proofs.Layouts
import Provision.Proofs.Refusals
import Provision.Proofs.Turns

set_option relaxedAutoImplicit false
set_option autoImplicit false

namespace Provision

/-! ### What a step lets out -/

/-- Whether a run turns a failure into its code. -/
def Failure.isCaught (f : Failure) : Bool := f.isReported || f = .interrupted

namespace Step

variable {α β : Type} {s : Step α} {f : α → Step β} {m m₁ : Machine} {cause cause' : Failure → Prop}

/-- **What a step lets out** on a machine: a failure that is not caught has a cause, or is that of a
command that the step has launched. -/
structure LetsOut (s : Step α) (m : Machine) (cause : Failure → Prop) : Prop where
  launches : m.launches <+: (s.perform m).2.launches
  failures : ∀ e, (s.perform m).1 = .error e →
    e.isCaught = true ∨ cause e ∨ ∃ l ∈ s.launched m, l.failure? = some e

theorem LetsOut.mono (h : s.LetsOut m cause) (hcause : ∀ e, cause e → cause' e) :
    s.LetsOut m cause' where
  launches := h.launches
  failures e he := (h.failures e he).imp id (Or.imp_left (hcause e))

/-- **Two steps let out what each of them lets out.** -/
theorem LetsOut.bind (hs : s.LetsOut m cause)
    (hf : ∀ a m₁, s.perform m = (.ok a, m₁) → (f a).LetsOut m₁ cause) :
    (s >>= f).LetsOut m cause := by
  rcases h : s.perform m with ⟨e | a, m₁⟩
  · have hboth : (s >>= f).perform m = (.error e, m₁) := perform_bind_error h
    have hsame : (s >>= f).launched m = s.launched m := by rw [launched, hboth, launched, h]
    refine ⟨by rw [hboth, ← congrArg Prod.snd h]; exact hs.launches, fun e' he => ?_⟩
    rw [hsame]
    refine hs.failures e' ?_
    rw [hboth] at he
    rw [h]
    simpa using he
  · have hboth : (s >>= f).perform m = (f a).perform m₁ := perform_bind_ok h
    obtain ⟨hlaunches, hfailures⟩ := hf a m₁ h
    have hfirst : m.launches <+: m₁.launches := by
      have := hs.launches
      rwa [h] at this
    refine ⟨by rw [hboth]; exact hfirst.trans hlaunches, fun e he => ?_⟩
    rw [hboth] at he
    refine (hfailures e he).imp id (Or.imp id ?_)
    rintro ⟨l, hl, hfailure⟩
    refine ⟨l, ?_, hfailure⟩
    rw [launched, hboth]
    exact List.drop_subset_drop_left _ hfirst.length_le hl

/-- Cleaning up lets nothing else out. -/
theorem LetsOut.cleaningUp (hs : s.LetsOut m cause) (cleanup : FileSystem → FileSystem) :
    (s.cleaningUp cleanup).LetsOut m cause :=
  ⟨hs.launches, hs.failures⟩

end Step

open Step

namespace Loader

variable {m : Machine} {path : Path}

section

variable {unreadable : SystemError → Failure} {file : Path}
  (hunreadable : ∀ e, (unreadable e).isCaught = true) (hfile : path.expandHome m.homes = some file)
include hunreadable hfile

end

end Loader

namespace Bootstrap

/-! ### The plan -/

end Bootstrap

/-! ### Distributions -/

namespace Toolchain

variable {root : Path} {layout : Layout} {runner : Runner} {m : Machine} {cause : Failure → Prop}

section

variable (hroot : layout.root.Clean) {version : String}
  (hnull : (layout.goDir version).HoldsNull → cause .embeddedNull)
include hroot hnull

end

end Toolchain

/-! ### Tools and repositories -/

namespace Repository

variable {layout : Layout} {runner : Runner} {m : Machine} {cause : Failure → Prop}

end Repository

namespace Bootstrap

namespace Plan

/-! ### Tasks -/

variable {p : Plan}

end Plan

/-! ### Runs -/

namespace Sample

end Sample

end Bootstrap

end Provision
